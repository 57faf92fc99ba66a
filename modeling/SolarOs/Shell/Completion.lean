import SolarOs.Shell.Tokenizer

/-! What the completion of a line reads and writes: the words of the tokenizer, and the bytes that
stand for one of them. -/
namespace SolarOs.Shell
open List
open Ctype (isSpace)

/-- One more byte of a buffer of `size` bytes, if its terminator fits behind it. -/
def putByte (size : Nat) (written : List UInt8) (ch : UInt8) : Option (List UInt8) :=
  if size ≤ written.length + 1 then none else some (written ++ [ch])

def completionToken (tokenSize : Nat) (quote : Option UInt8) (token : List UInt8) :
    List UInt8 → Option (List UInt8 × List UInt8)
  | [] => some (token, [])
  | ch :: rest =>
    if quote = none ∧ isSpace ch then some (token, ch :: rest)
    else if isQuote quote ch then completionToken tokenSize (if quote = none then some ch else none) token rest
    else if ch = backslash ∧ quote ≠ some singleQuote then
      match rest with
      | [] => (putByte tokenSize token backslash).map (·, [])
      | escaped :: rest => (putByte tokenSize token escaped).bind (completionToken tokenSize quote · rest)
    else (putByte tokenSize token ch).bind (completionToken tokenSize quote · rest)

structure Completion where
  tokens : List (List UInt8)
  starts : List Nat
  trailingSpace : Bool
  deriving DecidableEq

variable (inputLen tokenSize tokenCapacity : Nat)

/-- The position is the length of the input less that of what is unread. -/
def completionFrom : Nat → Completion → List UInt8 → Option Completion
  | 0, c, _ => some c
  | _ + 1, c, [] => some c
  | fuel + 1, c, first :: more =>
    match (first :: more).dropWhile isSpace with
    | [] => some { c with trailingSpace := true }
    | ch :: rest =>
      if tokenCapacity ≤ c.tokens.length then none
      else
        (completionToken tokenSize none [] (ch :: rest)).bind fun (token, after) =>
          completionFrom fuel ⟨c.tokens ++ [token], c.starts ++ [inputLen - (rest.length + 1)], c.trailingSpace⟩ after

def completionParse (input : CString) : Option Completion :=
  if tokenSize = 0 ∨ tokenCapacity = 0 then none
  else completionFrom input.strlen tokenSize tokenCapacity (input.strlen + 1) ⟨[], [], false⟩ input.bytes

def isCntrl (ch : UInt8) : Bool := ch < 0x20 || ch = 0x7f

def needsQuotes (token : List UInt8) : Bool :=
  token.isEmpty || token.any fun ch =>
    isSpace ch || [singleQuote, doubleQuote, backslash, 0x7c, 0x3c, 0x3e, 0x26, 0x3b].contains ch

def encodeQuoted (encodedLen : Nat) (used : List UInt8) : List UInt8 → Option (List UInt8)
  | [] => if encodedLen < used.length + 2 then none else some (used ++ [doubleQuote])
  | ch :: rest =>
    (if ch = doubleQuote ∨ ch = backslash then putByte encodedLen used backslash else some used).bind fun used =>
      (putByte encodedLen used ch).bind (encodeQuoted encodedLen · rest)

def encodeToken (token : CString) (encodedLen : Nat) : Option (List UInt8) :=
  if encodedLen = 0 ∨ token.bytes.any isCntrl then none
  else if !needsQuotes token.bytes then if encodedLen ≤ token.strlen then none else some token.bytes
  else (putByte encodedLen [] doubleQuote).bind (encodeQuoted encodedLen · token.bytes)

variable {size n : Nat} {token written out rest e : List UInt8} {ch : UInt8}

theorem putByte_some (h : putByte size written ch = some out) : out = written ++ [ch] := by
  unfold putByte at h
  split at h
  · cases h
  · exact (Option.some.inj h).symm

theorem encodeQuoted_some (h : encodeQuoted n written rest = some e) : e = written ++ (escape rest ++ [doubleQuote]) := by
  induction rest generalizing written with
  | nil =>
    unfold encodeQuoted at h
    split at h
    · cases h
    · exact (Option.some.inj h).symm
  | cons ch rest ih =>
    rw [encodeQuoted] at h
    obtain ⟨before, escaped, h⟩ := Option.bind_eq_some_iff.mp h
    obtain ⟨after, put, h⟩ := Option.bind_eq_some_iff.mp h
    have split : escape (ch :: rest) =
        (if ch = backslash ∨ ch = doubleQuote then [backslash, ch] else [ch]) ++ escape rest := rfl
    rw [ih h, putByte_some put, split]
    by_cases special : ch = doubleQuote ∨ ch = backslash
    · rw [if_pos special] at escaped
      rw [if_pos special.symm, putByte_some escaped]
      simp
    · rw [if_neg special] at escaped
      rw [if_neg fun either => special either.symm, ← Option.some.inj escaped]
      simp

theorem encodeToken_cases {token : CString} (h : encodeToken token n = some e) :
    (e = token.bytes ∧ needsQuotes token.bytes = false) ∨ e = quoted token := by
  unfold encodeToken at h
  split at h
  · cases h
  · split at h
    · rename_i plain
      split at h
      · cases h
      · exact .inl ⟨(Option.some.inj h).symm, by simpa using plain⟩
    · obtain ⟨opened, put, h⟩ := Option.bind_eq_some_iff.mp h
      rw [encodeQuoted_some h, putByte_some put]
      exact .inr rfl

theorem firstWord_plain (plain : ∀ ch ∈ token, isSpace ch = false ∧ ch ≠ singleQuote ∧ ch ≠ doubleQuote ∧ ch ≠ backslash)
    (read : List UInt8) : firstWord none false read (token ++ rest) = firstWord none false (read ++ token) rest := by
  induction token generalizing read with
  | nil => rw [append_nil, nil_append]
  | cons ch token ih =>
    obtain ⟨shown, single, double, back⟩ := plain ch mem_cons_self
    have stays : isQuote none ch ≠ true := by
      unfold isQuote
      simp [single, double]
    rw [cons_append, firstWord.eq_def]
    dsimp only
    rw [if_neg fun both => Bool.noConfusion (shown.symm.trans both.2), if_neg stays, if_neg fun both => back both.1,
      ih fun ch there => plain ch (mem_cons_of_mem _ there), append_assoc]
    rfl

theorem readsAs_plain (plain : needsQuotes token = false) : ReadsAs token token := by
  obtain ⟨some, special⟩ := Bool.or_eq_false_iff.mp plain
  have bytes : ∀ ch ∈ token, isSpace ch = false ∧ ch ∉ [singleQuote, doubleQuote, backslash, 0x7c, 0x3c, 0x3e, 0x26, 0x3b] := by
    intro ch there
    have here := any_eq_false.mp special ch there
    simpa using here
  cases token with
  | nil => cases some
  | cons ch token =>
    have none : operatorToken (ch :: token) = false := by
      have first := (bytes ch mem_cons_self).2
      simp at first
      simp [operatorToken, operators, first]
    refine readsAs_of_firstWord false (bytes ch mem_cons_self).1 (by rw [none]; rfl) fun after => ?_
    refine firstWord_plain (fun ch there => ?_) []
    have here := (bytes ch there).2
    simp at here
    exact ⟨(bytes ch there).1, here.1, here.2.1, here.2.2.1⟩

theorem firstWord_grows {quote : Option UInt8} {lit lit' : Bool} {line token' : List UInt8}
    (h : firstWord quote lit token line = .whole token' lit' rest) : token.length ≤ token'.length := by
  fun_induction firstWord quote lit token line
  all_goals simp_all
  all_goals omega

theorem completionToken_whole {quote : Option UInt8} {lit lit' : Bool} {line token' : List UInt8}
    (h : firstWord quote lit token line = .whole token' lit' rest) (fits : token'.length < size) :
    completionToken size quote token line = some (token', rest) := by
  have put : ∀ {before ch quote lit line}, firstWord quote lit (before ++ [ch]) line = .whole token' lit' rest →
      putByte size before ch = some (before ++ [ch]) := by
    intro before ch quote lit line h
    have grows := firstWord_grows h
    rw [length_append, length_singleton] at grows
    exact if_neg (by omega)
  fun_induction firstWord quote lit token line with
  | case1 => cases h
  | case2 =>
    cases h
    rfl
  | case3 quote _ token ch rest ends =>
    cases h
    rw [completionToken.eq_def]
    exact if_pos ends
  | case4 quote _ token ch rest inside toggles ih =>
    rw [completionToken.eq_def]
    dsimp only
    rw [if_neg inside, if_pos toggles]
    exact ih h
  | case5 => cases h
  | case6 quote _ token ch inside stays escapes escaped rest ih =>
    rw [completionToken.eq_def]
    dsimp only
    rw [if_neg inside, if_neg stays, if_pos escapes, put h]
    exact ih h
  | case7 quote _ token ch rest inside stays plain ih =>
    rw [completionToken.eq_def]
    dsimp only
    rw [if_neg inside, if_neg stays, if_neg plain, put h]
    exact ih h

section
variable {argvMax : Nat} {tokens : List (List UInt8)} {line : List UInt8}

theorem words_ok (found : line.dropWhile isSpace = ch :: rest) (fine : (words argvMax tokens line).error = .ok) :
    tokens.length < argvMax ∧ ∃ token lit after, firstWord none false [] (ch :: rest) = .whole token lit after ∧
      ∀ room, tokens.length < room → words room tokens line = words room (tokens ++ [token]) after := by
  rw [words_cons found] at fine
  split at fine
  · cases fine
  · rename_i fits
    cases word : firstWord none false [] (ch :: rest) with
    | dangling =>
      rw [word] at fine
      cases fine
    | unterminated quote =>
      rw [word] at fine
      exact absurd fine (quoteError_ne quote)
    | whole token lit after =>
      rw [word] at fine
      dsimp only at fine
      split at fine
      · cases fine
      · rename_i plain
        refine ⟨not_le.mp fits, token, lit, after, rfl, fun room there => ?_⟩
        rw [words_cons found, if_neg (not_le.mpr there), word]
        exact if_neg plain

theorem completionFrom_words {inputLen tokenSize tokenCapacity fuel : Nat} (c : Completion)
    (fine : (words argvMax c.tokens line).error = .ok) (inside : line.length ≤ inputLen) (enough : line.length < fuel)
    (fits : (words argvMax c.tokens line).tokens.length ≤ tokenCapacity)
    (small : ∀ token ∈ (words argvMax c.tokens line).tokens, token.length < tokenSize) :
    ∃ more starts trailing, (words argvMax c.tokens line).tokens = c.tokens ++ more ∧ starts.length = more.length ∧
      completionFrom inputLen tokenSize tokenCapacity fuel c line = some ⟨c.tokens ++ more, c.starts ++ starts, trailing⟩ ∧
      ∀ k start, starts[k]? = some start →
        (words (c.tokens.length + k) c.tokens line).error = .tooManyArguments ∧
          start + (words (c.tokens.length + k) c.tokens line).unread = inputLen := by
  induction fuel generalizing c line with
  | zero => exact absurd enough (Nat.not_lt_zero _)
  | succ fuel ih =>
    cases line with
    | nil =>
      rw [words_nil rfl]
      exact ⟨[], [], c.trailingSpace, (append_nil _).symm, rfl, by simp [completionFrom], nofun⟩
    | cons first line =>
      cases found : (first :: line).dropWhile isSpace with
      | nil =>
        rw [words_nil found]
        refine ⟨[], [], true, (append_nil _).symm, rfl, ?_, nofun⟩
        rw [completionFrom, found, append_nil, append_nil]
      | cons ch rest =>
        obtain ⟨room, token, lit, after, word, next⟩ := words_ok found fine
        obtain ⟨shown, shorter⟩ := dropWhile_cons found
        have consumed := firstWord_consumes shown word
        rw [next argvMax room] at fine fits small ⊢
        obtain ⟨more, starts, trailing, all, same, result, places⟩ :=
          @ih after ⟨c.tokens ++ [token], c.starts ++ [inputLen - (rest.length + 1)], c.trailingSpace⟩ fine (by omega) (by omega)
            fits small
        rw [all] at fits small ⊢
        refine ⟨token :: more, (inputLen - (rest.length + 1)) :: starts, trailing, append_assoc .., congrArg (· + 1) same,
          ?_, fun k start there => ?_⟩
        · have whole := completionToken_whole word (small token (by simp))
          rw [length_append, length_append, length_singleton] at fits
          rw [completionFrom, found]
          dsimp only
          rw [if_neg (by omega), whole]
          rw [append_assoc, append_assoc] at result
          exact result
        · cases k with
          | zero =>
            cases there
            rw [Nat.add_zero, words_cons found, if_pos (Nat.le_refl _)]
            exact ⟨rfl, Nat.sub_add_cancel (le_trans shorter inside)⟩
          | succ k =>
            have later := places k start there
            rw [length_append, length_singleton, Nat.add_assoc, Nat.add_comm 1 k] at later
            rw [next _ (by omega)]
            exact later

end

/-- Where the word after the first `k` begins: there the tokenizer stops that has room for those only. -/
def BeginsAt (line : CString) (start : Nat) : Nat → Prop
  | 0 => start = (line.bytes.takeWhile isSpace).length
  | k + 1 => (tokenize line (k + 1)).error = .tooManyArguments ∧ (tokenize line (k + 1)).column = start

theorem beginsAt_of_words {line : CString} {start k : Nat} (full : (words k [] line.bytes).error = .tooManyArguments)
    (here : start + (words k [] line.bytes).unread = line.strlen) : BeginsAt line start k := by
  cases k with
  | zero =>
    cases found : line.bytes.dropWhile isSpace with
    | nil =>
      rw [words_nil found] at full
      cases full
    | cons ch rest =>
      rw [words_cons found, if_pos (Nat.zero_le _)] at here
      have whole := congrArg List.length (takeWhile_append_dropWhile (p := isSpace) (l := line.bytes))
      rw [length_append, found, length_cons] at whole
      show start = _
      have size : line.bytes.length = line.strlen := rfl
      dsimp only at here
      omega
  | succ k =>
    have agrees := tokenize_agrees line (k + 1) (Nat.succ_pos k)
    have stopped := agrees.error.trans full
    have column := agrees.column (by rw [stopped]; decide)
    exact ⟨stopped, by omega⟩

/-- What is encoded is tokenized back, and a completion reads a line as the tokenizer does. -/
theorem completion_agrees : (∀ (argvMax : Nat) (line : CString) (tokens : List CString) (encoded : List (List UInt8)),
      Forall₂ (fun token bytes => ∃ room, encodeToken token room = some bytes) tokens encoded →
      line.bytes = [0x20].intercalate encoded → tokens.length ≤ argvMax →
      (tokenize line argvMax).error = .ok ∧ (tokenize line argvMax).strings = tokens.map CString.bytes) ∧
    ∀ (argvMax tokenSize tokenCapacity : Nat) (line : CString), 0 < argvMax → (tokenize line argvMax).error = .ok →
      0 < tokenSize → 0 < tokenCapacity → (tokenize line argvMax).strings.length ≤ tokenCapacity →
      (∀ token ∈ (tokenize line argvMax).strings, token.length < tokenSize) →
      ∃ c, completionParse tokenSize tokenCapacity line = some c ∧ c.tokens = (tokenize line argvMax).strings ∧
        c.starts.length = c.tokens.length ∧ ∀ k start, c.starts[k]? = some start → BeginsAt line start k := by
  constructor
  · intro argvMax line tokens encoded written joined room
    have reads : Forall₂ ReadsAs encoded (tokens.map CString.bytes) := by
      refine forall₂_map_right_iff.mpr (written.flip.imp fun bytes token ⟨room, h⟩ => ?_)
      rcases encodeToken_cases h with ⟨rfl, plain⟩ | rfl
      · exact readsAs_plain plain
      · exact readsAs_quoted token
    have back := @words_joined argvMax [] _ _ reads (by rw [← written.length_eq, length_nil]; omega)
    rw [← joined] at back
    rcases Nat.eq_zero_or_pos argvMax with rfl | some
    · cases tokens with
      | nil => exact ⟨rfl, rfl⟩
      | cons token tokens => cases room
    · have agrees := tokenize_agrees line argvMax some
      rw [back] at agrees
      exact ⟨agrees.error, agrees.whole agrees.error⟩
  · intro argvMax tokenSize tokenCapacity line some fine size capacity fits small
    have agrees := tokenize_agrees line argvMax some
    rw [agrees.whole fine] at fits small ⊢
    obtain ⟨more, starts, trailing, all, same, result, places⟩ := completionFrom_words ⟨[], [], false⟩
      (agrees.error.symm.trans fine) (Nat.le_refl line.strlen) (Nat.lt_succ_self line.strlen) fits small
    refine ⟨_, (if_neg (by omega)).trans result, all.symm, same, fun k start there => ?_⟩
    obtain ⟨full, here⟩ := places k start there
    rw [length_nil, Nat.zero_add] at full here
    exact beginsAt_of_words full here

/-- `a\ b 'c'` -/
def completedLine : CString := .ofBytes [0x61, 0x5c, 0x20, 0x62, 0x20, 0x27, 0x63, 0x27]

theorem completion_agrees_quotes :
    (tokenize (.ofBytes [0x22, 0x61, 0x20, 0x62, 0x22, 0x20, 0x63]) 2).strings = [[0x61, 0x20, 0x62], [0x63]] ∧
      ∃ c, completionParse 4 2 completedLine = some c ∧ c.tokens = (tokenize completedLine 2).strings := by
  have claim := completion_agrees
  constructor
  · refine (claim.1 2 (.ofBytes [0x22, 0x61, 0x20, 0x62, 0x22, 0x20, 0x63]) [.ofBytes [0x61, 0x20, 0x62], .ofBytes [0x63]]
      [[0x22, 0x61, 0x20, 0x62, 0x22], [0x63]] ?_ (by decide) (by decide)).2
    exact .cons ⟨8, by decide⟩ (.cons ⟨8, by decide⟩ .nil)
  · obtain ⟨c, parsed, same, -⟩ := claim.2 2 4 2 completedLine (by decide) (by decide) (by decide) (by decide)
      (by decide) (by decide)
    exact ⟨c, parsed, same⟩

end SolarOs.Shell
