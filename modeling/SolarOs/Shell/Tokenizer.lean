import Mathlib.Data.List.Forall2
import Mathlib.Data.List.GetD
import SolarOs.Library.CString

/-! A command line is cut into words in its own buffer: the reading never meets what the writing
leaves behind, so the words are those of the line as it was. -/
namespace SolarOs.Shell
open List
open Ctype (isSpace)

inductive ParseError where
  | ok
  | tooManyArguments
  | unterminatedSingleQuote
  | unterminatedDoubleQuote
  | danglingEscape
  | unsupportedOperator
  deriving DecidableEq, Repr

def singleQuote : UInt8 := 0x27
def doubleQuote : UInt8 := 0x22
def backslash : UInt8 := 0x5c

def operators : List (List UInt8) :=
  [[0x7c], [0x7c, 0x7c], [0x3c], [0x3e], [0x3e, 0x3e], [0x26, 0x26], [0x3b]]

def operatorToken (value : List UInt8) : Bool := operators.contains value

def isQuote (quote : Option UInt8) (ch : UInt8) : Bool :=
  (ch = doubleQuote || ch = singleQuote) && (quote = none || quote = some ch)

def quoteError (quote : UInt8) : ParseError :=
  if quote = singleQuote then .unterminatedSingleQuote else .unterminatedDoubleQuote

/-- The buffer of the line with its terminator, the two cursors, and where every byte has been
written and the reading stood then. -/
structure Scan where
  buffer : List UInt8
  read : Nat
  write : Nat
  stores : List (Nat × Nat)

def Scan.peek (s : Scan) : UInt8 := s.buffer.getD s.read 0

def Scan.advance (s : Scan) : Scan := { s with read := s.read + 1 }

def Scan.store (s : Scan) (ch : UInt8) : Scan :=
  { s with
    buffer := s.buffer.set s.write ch
    write := s.write + 1
    stores := s.stores ++ [(s.write, s.read)] }

/-- `*write++ = *read++`. -/
def Scan.copy (s : Scan) : Scan := (s.store s.peek).advance

def skipSpaces : Nat → Scan → Scan
  | 0, s => s
  | fuel + 1, s => if isSpace s.peek then skipSpaces fuel s.advance else s

structure WordEnd where
  scan : Scan
  quote : Option UInt8
  literalized : Bool
  dangling : Bool

def readWord : Nat → Scan → Option UInt8 → Bool → WordEnd
  | 0, s, quote, literalized => ⟨s, quote, literalized, false⟩
  | fuel + 1, s, quote, literalized =>
    if s.peek = 0 then ⟨s, quote, literalized, false⟩
    else if quote = none ∧ isSpace s.peek then ⟨s, quote, literalized, false⟩
    else if isQuote quote s.peek then
      readWord fuel s.advance (if quote = none then some s.peek else none) true
    else if s.peek = backslash ∧ quote ≠ some singleQuote then
      if s.advance.peek = 0 then ⟨s, quote, true, true⟩ else readWord fuel s.advance.copy quote true
    else readWord fuel s.copy quote literalized

def stringAt (buffer : List UInt8) (place : Nat) : List UInt8 := (buffer.drop place).takeWhile (· ≠ 0)

/-- What is left behind: the buffer, where the words begin, and the result. -/
structure Parse where
  scan : Scan
  argv : List Nat
  error : ParseError
  column : Nat
  operatorText : List UInt8

def Parse.strings (p : Parse) : List (List UInt8) := p.argv.map (stringAt p.scan.buffer)

def tokenizeFrom (argvMax : Nat) : Nat → Scan → List Nat → Parse
  | 0, s, argv => ⟨s, argv, .ok, 0, []⟩
  | fuel + 1, s, argv =>
    if s.peek = 0 then ⟨s, argv, .ok, 0, []⟩
    else
      let s := skipSpaces s.buffer.length s
      if s.peek = 0 then ⟨s, argv, .ok, 0, []⟩
      else if argvMax ≤ argv.length then ⟨s, argv, .tooManyArguments, s.read, []⟩
      else
        let word := readWord s.buffer.length s none false
        let argv := argv ++ [s.write]
        if word.dangling then ⟨word.scan, argv, .danglingEscape, word.scan.read, []⟩
        else
          match word.quote with
          | some quote => ⟨word.scan, argv, quoteError quote, word.scan.read, []⟩
          | none =>
            let done := (if isSpace word.scan.peek then word.scan.advance else word.scan).store 0
            if !word.literalized && operatorToken (stringAt done.buffer s.write) then
              ⟨done, argv, .unsupportedOperator, s.read, stringAt done.buffer s.write⟩
            else tokenizeFrom argvMax fuel done argv

def tokenize (line : CString) (argvMax : Nat) : Parse :=
  let s : Scan := ⟨line.bytes ++ [0], 0, 0, []⟩
  if argvMax = 0 then ⟨s, [], .ok, 0, []⟩ else tokenizeFrom argvMax s.buffer.length s []

inductive Word where
  | whole (token : List UInt8) (literalized : Bool) (rest : List UInt8)
  | unterminated (quote : UInt8)
  | dangling
  deriving DecidableEq

/-- The word a line begins with, after the bytes `token` of it. -/
def firstWord (quote : Option UInt8) (literalized : Bool) (token : List UInt8) : List UInt8 → Word
  | [] =>
    match quote with
    | some quote => .unterminated quote
    | none => .whole token literalized []
  | ch :: rest =>
    if quote = none ∧ isSpace ch then .whole token literalized (ch :: rest)
    else if isQuote quote ch then firstWord (if quote = none then some ch else none) true token rest
    else if ch = backslash ∧ quote ≠ some singleQuote then
      match rest with
      | [] => .dangling
      | escaped :: rest => firstWord quote true (token ++ [escaped]) rest
    else firstWord quote literalized (token ++ [ch]) rest

variable {quote : Option UInt8} {lit : Bool}

theorem firstWord_shorter {lit lit' : Bool} {token token' line rest : List UInt8}
    (h : firstWord quote lit token line = .whole token' lit' rest) : rest.length ≤ line.length := by
  fun_induction firstWord quote lit token line
  all_goals simp_all
  all_goals omega

theorem firstWord_consumes {lit lit' : Bool} {token token' rest after : List UInt8} {ch : UInt8}
    (shown : isSpace ch = false) (h : firstWord none lit token (ch :: rest) = .whole token' lit' after) :
    after.length ≤ rest.length := by
  unfold firstWord at h
  rw [if_neg fun both => Bool.noConfusion (shown.symm.trans both.2)] at h
  split at h
  · exact firstWord_shorter h
  · split at h
    · split at h
      · cases h
      · exact Nat.le_succ_of_le (firstWord_shorter h)
    · exact firstWord_shorter h

theorem dropWhile_cons {line rest : List UInt8} {ch : UInt8} (found : line.dropWhile isSpace = ch :: rest) :
    isSpace ch = false ∧ rest.length < line.length := by
  constructor
  · have first := head_dropWhile_not isSpace (by rw [found]; exact cons_ne_nil ch rest)
    simp only [found, head_cons] at first
    exact first
  · have shorter := (dropWhile_sublist isSpace : (line.dropWhile isSpace).Sublist line).length_le
    rw [found] at shorter
    exact shorter

/-- The words of a line and the error that ends them, with the length of what is unread then. -/
structure Outcome where
  tokens : List (List UInt8)
  error : ParseError
  unread : Nat
  operatorText : List UInt8

def words (argvMax : Nat) (tokens : List (List UInt8)) (line : List UInt8) : Outcome :=
  match _found : line.dropWhile isSpace with
  | [] => ⟨tokens, .ok, 0, []⟩
  | ch :: rest =>
    if argvMax ≤ tokens.length then ⟨tokens, .tooManyArguments, rest.length + 1, []⟩
    else
      match _word : firstWord none false [] (ch :: rest) with
      | .dangling => ⟨tokens, .danglingEscape, 1, []⟩
      | .unterminated quote => ⟨tokens, quoteError quote, 0, []⟩
      | .whole token literalized after =>
        if !literalized && operatorToken token then
          ⟨tokens ++ [token], .unsupportedOperator, rest.length + 1, token⟩
        else words argvMax (tokens ++ [token]) after
termination_by line.length
decreasing_by
  obtain ⟨shown, shorter⟩ := dropWhile_cons _found
  exact Nat.lt_of_le_of_lt (firstWord_consumes shown _word) shorter

variable {argvMax : Nat} {tokens : List (List UInt8)} {line rest after token : List UInt8} {ch : UInt8}

theorem words_nil (found : line.dropWhile isSpace = []) : words argvMax tokens line = ⟨tokens, .ok, 0, []⟩ := by
  unfold words
  split
  · rfl
  · rename_i more
    cases found.symm.trans more

theorem words_cons (found : line.dropWhile isSpace = ch :: rest) : words argvMax tokens line =
      if argvMax ≤ tokens.length then ⟨tokens, .tooManyArguments, rest.length + 1, []⟩
      else
        match firstWord none false [] (ch :: rest) with
        | .dangling => ⟨tokens, .danglingEscape, 1, []⟩
        | .unterminated quote => ⟨tokens, quoteError quote, 0, []⟩
        | .whole token literalized after =>
          if !literalized && operatorToken token then
            ⟨tokens ++ [token], .unsupportedOperator, rest.length + 1, token⟩
          else words argvMax (tokens ++ [token]) after := by
  rw [words]
  split
  · rename_i none
    cases none.symm.trans found
  · rename_i found'
    cases found'.symm.trans found
    split
    · rfl
    · split <;> simp_all

/-- The words so far are written, one of them perhaps in part, and the rest of the line is unread. -/
structure Mirrors (total : Nat) (s : Scan) (tokens : List (List UInt8)) (token rest : List UInt8) : Prop where
  wrote : s.buffer.take s.write = tokens.flatMap (· ++ [0]) ++ token
  unread : s.buffer.drop s.read = rest ++ [0]
  size : s.buffer.length = total + 1
  fits : s.write ≤ s.buffer.length
  clean : ∀ t ∈ tokens, (0 : UInt8) ∉ t
  cleanToken : (0 : UInt8) ∉ token
  cleanRest : (0 : UInt8) ∉ rest
  honest : ∀ store ∈ s.stores, store.1 ≤ store.2

variable {total : Nat} {s : Scan}

theorem Mirrors.peek (h : Mirrors total s tokens token rest) : s.peek = rest.headD 0 := by
  have first : (s.buffer.drop s.read).headD 0 = (rest ++ [0]).headD 0 := congrArg (List.headD · 0) h.unread
  unfold Scan.peek
  rw [getD_eq_getElem?_getD, ← head?_drop, ← headD_eq_head?_getD, first]
  cases rest with
  | nil => rfl
  | cons ch rest => rfl

theorem Mirrors.read_add (h : Mirrors total s tokens token rest) : s.read + rest.length = total := by
  have size := congrArg List.length h.unread
  rw [length_drop, length_append, length_singleton, h.size] at size
  omega

theorem Mirrors.advance (h : Mirrors total s tokens token (ch :: rest)) : Mirrors total s.advance tokens token rest where
  wrote := h.wrote
  unread := by
    show s.buffer.drop (s.read + 1) = _
    rw [← tail_drop, h.unread]
    rfl
  size := h.size
  fits := h.fits
  clean := h.clean
  cleanToken := h.cleanToken
  cleanRest := fun there => h.cleanRest (mem_cons_of_mem _ there)
  honest := h.honest

theorem take_store (h : Mirrors total s tokens token rest) (behind : s.write ≤ s.read) (b : UInt8) :
    (s.store b).buffer.take (s.store b).write = tokens.flatMap (· ++ [0]) ++ token ++ [b] := by
  have size := h.read_add
  have whole := h.size
  show (s.buffer.set s.write b).take (s.write + 1) = _
  have left : (s.buffer.take s.write ++ [b]).length = s.write + 1 := by
    rw [length_append, length_take_of_le h.fits, length_singleton]
  rw [set_eq_take_append_cons_drop, if_pos (by omega), append_cons, take_left' left, h.wrote]

theorem Mirrors.copy (h : Mirrors total s tokens token (ch :: rest)) (behind : s.write ≤ s.read) :
    Mirrors total s.copy tokens (token ++ [ch]) rest where
  wrote := by
    rw [← append_assoc, ← show s.peek = ch from h.peek]
    exact take_store h behind s.peek
  unread := by
    show (s.buffer.set s.write s.peek).drop (s.read + 1) = _
    rw [drop_set_of_lt (Nat.lt_succ_of_le behind)]
    exact h.advance.unread
  size := by
    show (s.buffer.set _ _).length = _
    rw [length_set, h.size]
  fits := by
    have size := h.read_add
    show s.write + 1 ≤ (s.buffer.set s.write s.peek).length
    rw [length_set, h.size]
    omega
  clean := h.clean
  cleanToken := by
    intro there
    rcases mem_append.mp there with there | there
    · exact h.cleanToken there
    · exact h.cleanRest (mem_singleton.mp there ▸ mem_cons_self)
  cleanRest := h.advance.cleanRest
  honest := by
    intro store there
    rcases mem_append.mp there with there | there
    · exact h.honest store there
    · rw [mem_singleton.mp there]
      exact behind

theorem Mirrors.finish (h : Mirrors total s tokens token rest) (behind : s.write ≤ s.read)
    (ends : rest = [] ∨ s.write < s.read) : Mirrors total (s.store 0) (tokens ++ [token]) [] rest where
  wrote := by
    rw [take_store h behind, append_nil, flatMap_append, flatMap_singleton, append_assoc]
  unread := by
    show (s.buffer.set s.write 0).drop s.read = _
    rcases Nat.lt_or_eq_of_le behind with less | same
    · rw [drop_set_of_lt less]
      exact h.unread
    · have none : rest = [] := ends.resolve_right (by omega)
      have size := h.read_add
      have inside : s.read < s.buffer.length := by
        rw [h.size]
        omega
      have last : s.buffer[s.read] = 0 := by
        rw [← getD_eq_getElem s.buffer 0 inside]
        exact h.peek.trans (none ▸ rfl)
      have zero : s.buffer.set s.write 0 = s.buffer := by
        calc s.buffer.set s.write 0 = s.buffer.set s.read s.buffer[s.read] := by rw [same, last]
          _ = s.buffer := set_getElem_self inside
      rw [zero]
      exact h.unread
  size := by
    show (s.buffer.set _ _).length = _
    rw [length_set, h.size]
  fits := by
    have size := h.read_add
    show s.write + 1 ≤ (s.buffer.set s.write 0).length
    rw [length_set, h.size]
    omega
  clean := by
    intro t there
    rcases mem_append.mp there with there | there
    · exact h.clean t there
    · rw [mem_singleton.mp there]
      exact h.cleanToken
  cleanToken := not_mem_nil
  cleanRest := h.cleanRest
  honest := by
    intro store there
    rcases mem_append.mp there with there | there
    · exact h.honest store there
    · rw [mem_singleton.mp there]
      exact behind

theorem Mirrors.skip (h : Mirrors total s tokens [] rest) (behind : rest = [] ∨ s.write ≤ s.read) {fuel : Nat}
    (enough : rest.length ≤ fuel) : Mirrors total (skipSpaces fuel s) tokens [] (rest.dropWhile isSpace) ∧
      (rest.dropWhile isSpace = [] ∨ (skipSpaces fuel s).write ≤ (skipSpaces fuel s).read) := by
  induction fuel generalizing s rest with
  | zero =>
    rw [length_eq_zero_iff.mp (Nat.le_zero.mp enough)] at h ⊢
    exact ⟨h, .inl rfl⟩
  | succ fuel ih =>
    unfold skipSpaces
    rw [h.peek]
    cases rest with
    | nil => exact ⟨h, .inl rfl⟩
    | cons ch rest =>
      by_cases space : isSpace ch = true
      · rw [headD_cons, if_pos space, dropWhile_cons_of_pos space]
        exact ih h.advance (.inr (Nat.le_succ_of_le (behind.resolve_left (cons_ne_nil ch rest))))
          (Nat.le_of_succ_le_succ enough)
      · rw [headD_cons, if_neg space, dropWhile_cons_of_neg space]
        exact ⟨h, behind⟩

def Ends (total : Nat) (tokens : List (List UInt8)) (w : WordEnd) : Word → Prop
  | .whole token literalized rest =>
    w.dangling = false ∧ w.quote = none ∧ w.literalized = literalized ∧ Mirrors total w.scan tokens token rest ∧
      w.scan.write ≤ w.scan.read ∧ (rest = [] ∨ isSpace w.scan.peek)
  | .unterminated quote => w.dangling = false ∧ w.quote = some quote ∧ ∃ token, Mirrors total w.scan tokens token []
  | .dangling => w.dangling = true ∧ ∃ token last, Mirrors total w.scan tokens token [last]

theorem ends_nil (h : Mirrors total s tokens token []) (behind : s.write ≤ s.read) :
    Ends total tokens ⟨s, quote, lit, false⟩ (firstWord quote lit token []) := by
  unfold firstWord
  cases quote with
  | none => exact ⟨rfl, rfl, rfl, h, behind, .inl rfl⟩
  | some quote => exact ⟨rfl, rfl, token, h⟩

theorem readWord_ends (h : Mirrors total s tokens token rest) (behind : s.write ≤ s.read) {fuel : Nat}
    (enough : rest.length ≤ fuel) : Ends total tokens (readWord fuel s quote lit) (firstWord quote lit token rest) := by
  induction fuel generalizing s quote lit token rest with
  | zero =>
    have none : rest = [] := length_eq_zero_iff.mp (Nat.le_zero.mp enough)
    rw [none] at h ⊢
    exact ends_nil h behind
  | succ fuel ih =>
    unfold readWord
    rw [h.peek]
    cases rest with
    | nil =>
      rw [headD_nil, if_pos rfl]
      exact ends_nil h behind
    | cons ch rest =>
      have nonzero : ch ≠ 0 := fun zero => h.cleanRest (zero ▸ mem_cons_self)
      have enough : rest.length ≤ fuel := Nat.le_of_succ_le_succ enough
      have ahead : s.write ≤ s.read + 1 := Nat.le_succ_of_le behind
      unfold firstWord
      rw [headD_cons, if_neg nonzero]
      by_cases space : quote = none ∧ isSpace ch = true
      · rw [if_pos space, if_pos space]
        exact ⟨rfl, space.1, rfl, h, behind, .inr (by rw [h.peek]; exact space.2)⟩
      rw [if_neg space, if_neg space]
      by_cases toggles : isQuote quote ch = true
      · rw [if_pos toggles, if_pos toggles]
        exact ih h.advance ahead enough
      rw [if_neg toggles, if_neg toggles]
      by_cases escapes : ch = backslash ∧ quote ≠ some singleQuote
      · rw [if_pos escapes, if_pos escapes, h.advance.peek]
        cases rest with
        | nil => exact ⟨rfl, token, ch, h⟩
        | cons escaped rest =>
          have nonzero : escaped ≠ 0 := fun zero => h.advance.cleanRest (zero ▸ mem_cons_self)
          rw [headD_cons, if_neg nonzero]
          exact ih (h.advance.copy ahead) (Nat.succ_le_succ ahead) (Nat.le_of_succ_le enough)
      · rw [if_neg escapes, if_neg escapes]
        exact ih (h.copy behind) (Nat.succ_le_succ behind) enough

def starts : Nat → List (List UInt8) → List Nat
  | _, [] => []
  | place, token :: tokens => place :: starts (place + token.length + 1) tokens

theorem starts_append (place : Nat) (tokens : List (List UInt8)) (token : List UInt8) :
    starts place (tokens ++ [token]) =
      starts place tokens ++ [place + (tokens.flatMap (· ++ [0])).length] := by
  induction tokens generalizing place with
  | nil => rfl
  | cons first tokens ih =>
    rw [cons_append, starts, ih, starts, cons_append, flatMap_cons, length_append, length_append, length_singleton]
    congr 3
    omega

theorem length_starts (place : Nat) (tokens : List (List UInt8)) : (starts place tokens).length = tokens.length := by
  induction tokens generalizing place with
  | nil => rfl
  | cons token tokens ih => rw [starts, length_cons, ih, length_cons]

theorem stringAt_append (before after : List UInt8) (clean : (0 : UInt8) ∉ token) :
    stringAt (before ++ (token ++ [0]) ++ after) before.length = token := by
  have shown : ∀ b ∈ token, decide (b ≠ 0) = true := fun b there => decide_eq_true fun zero => clean (zero ▸ there)
  unfold stringAt
  rw [append_assoc, drop_left, append_assoc, takeWhile_append_of_pos shown,
    singleton_append, takeWhile_cons_of_neg (by simp), append_nil]

theorem strings_starts (before after : List UInt8) (clean : ∀ t ∈ tokens, (0 : UInt8) ∉ t) :
    (starts before.length tokens).map (stringAt (before ++ tokens.flatMap (· ++ [0]) ++ after)) = tokens := by
  induction tokens generalizing before with
  | nil => rfl
  | cons token tokens ih =>
    have later := ih (before ++ (token ++ [0])) fun t there => clean t (mem_cons_of_mem _ there)
    rw [length_append, length_append, length_singleton, ← Nat.add_assoc] at later
    rw [starts, map_cons, flatMap_cons, ← append_assoc before, later]
    congr 1
    rw [append_assoc]
    exact stringAt_append before _ (clean token mem_cons_self)

theorem Mirrors.strings (h : Mirrors total s tokens token rest) : (starts 0 tokens).map (stringAt s.buffer) = tokens := by
  have whole := strings_starts [] (token ++ s.buffer.drop s.write) h.clean
  rw [nil_append, ← append_assoc, ← h.wrote, take_append_drop] at whole
  exact whole

theorem Mirrors.write_eq (h : Mirrors total s tokens [] rest) : s.write = (tokens.flatMap (· ++ [0])).length := by
  rw [← append_nil (List.flatMap _ _), ← h.wrote, length_take_of_le h.fits]

structure Agrees (total : Nat) (p : Parse) (o : Outcome) : Prop where
  strings : p.strings.take o.tokens.length = o.tokens
  whole : p.error = .ok → p.strings = o.tokens
  error : p.error = o.error
  column : p.error ≠ .ok → p.column + o.unread = total
  operatorText : p.operatorText = o.operatorText
  behind : ∀ store ∈ p.scan.stores, store.1 ≤ store.2

theorem agrees_done (h : Mirrors total s tokens [] rest) :
    Agrees total ⟨s, starts 0 tokens, .ok, 0, []⟩ ⟨tokens, .ok, 0, []⟩ where
  strings := (congrArg (List.take _) h.strings).trans take_length
  whole _ := h.strings
  error := rfl
  column wrong := absurd rfl wrong
  operatorText := rfl
  behind := h.honest

theorem agrees_partly (h : Mirrors total s tokens token rest) (more : List Nat) {error : ParseError}
    {column unread : Nat} (wrong : error ≠ .ok) (here : column + unread = total) :
    Agrees total ⟨s, starts 0 tokens ++ more, error, column, []⟩ ⟨tokens, error, unread, []⟩ where
  strings := by
    show ((starts 0 tokens ++ more).map (stringAt s.buffer)).take tokens.length = tokens
    rw [map_append, h.strings, take_left]
  whole ok := absurd ok wrong
  error := rfl
  column _ := here
  operatorText := rfl
  behind := h.honest

theorem words_space (space : isSpace ch = true) : words argvMax tokens (ch :: rest) = words argvMax tokens rest := by
  have same := dropWhile_cons_of_pos (l := rest) space
  cases found : rest.dropWhile isSpace with
  | nil => rw [words_nil found, words_nil (same.trans found)]
  | cons c after => rw [words_cons found, words_cons (same.trans found)]

theorem quoteError_ne (quote : UInt8) : quoteError quote ≠ .ok := by
  unfold quoteError
  split <;> decide

theorem finish_word (h : Mirrors total s tokens token rest) (behind : s.write ≤ s.read)
    (ends : rest = [] ∨ isSpace s.peek) :
    ∃ after, Mirrors total ((if isSpace s.peek then s.advance else s).store 0) (tokens ++ [token]) [] after ∧
      (after = [] ∨ ((if isSpace s.peek then s.advance else s).store 0).write ≤
        ((if isSpace s.peek then s.advance else s).store 0).read) ∧
      after.length ≤ rest.length ∧ ∀ found, words argvMax found rest = words argvMax found after := by
  rw [h.peek] at ends ⊢
  cases rest with
  | nil =>
    rw [headD_nil, if_neg (by decide)]
    exact ⟨[], h.finish behind (.inl rfl), .inl rfl, Nat.le_refl 0, fun _ => rfl⟩
  | cons ch rest =>
    have space : isSpace ch = true := ends.resolve_left (cons_ne_nil ch rest)
    rw [headD_cons, if_pos space]
    have ahead : s.advance.write < s.advance.read := Nat.lt_succ_of_le behind
    exact ⟨rest, h.advance.finish (Nat.le_of_lt ahead) (.inr ahead), .inr ahead, Nat.le_succ _,
      fun _ => words_space space⟩

theorem tokenizeFrom_agrees (h : Mirrors total s tokens [] rest) (behind : rest = [] ∨ s.write ≤ s.read) {fuel : Nat}
    (enough : rest.length ≤ fuel) :
    Agrees total (tokenizeFrom argvMax fuel s (starts 0 tokens)) (words argvMax tokens rest) := by
  induction fuel generalizing s tokens rest with
  | zero =>
    rw [length_eq_zero_iff.mp (Nat.le_zero.mp enough)] at h ⊢
    rw [words_nil rfl]
    exact agrees_done h
  | succ fuel ih =>
    unfold tokenizeFrom
    rw [h.peek]
    cases rest with
    | nil =>
      rw [headD_nil, if_pos rfl, words_nil rfl]
      exact agrees_done h
    | cons ch rest =>
      have nonzero : ch ≠ 0 := fun zero => h.cleanRest (zero ▸ mem_cons_self)
      have room : (ch :: rest).length ≤ s.buffer.length := by
        have size := h.read_add
        rw [h.size]
        omega
      obtain ⟨h', behind'⟩ := h.skip behind room
      rw [headD_cons, if_neg nonzero]
      generalize skipSpaces s.buffer.length s = s' at h' behind'
      dsimp only
      rw [h'.peek]
      cases found : (ch :: rest).dropWhile isSpace with
      | nil =>
        rw [found] at h'
        rw [words_nil found, headD_nil, if_pos rfl]
        exact agrees_done h'
      | cons c after =>
        rw [found] at h' behind'
        have behind' := behind'.resolve_left (cons_ne_nil c after)
        have nonzero : c ≠ 0 := fun zero => h'.cleanRest (zero ▸ mem_cons_self)
        have size := h'.read_add
        have place := h'.write_eq
        rw [words_cons found, headD_cons, if_neg nonzero, length_starts]
        by_cases full : argvMax ≤ tokens.length
        · rw [if_pos full, if_pos full, ← append_nil (starts 0 tokens)]
          exact agrees_partly h' [] (by decide) size
        · rw [if_neg full, if_neg full]
          have ends : Ends total tokens (readWord s'.buffer.length s' none false) (firstWord none false [] (c :: after)) :=
            readWord_ends h' behind' (by rw [h'.size]; omega)
          generalize readWord s'.buffer.length s' none false = w at ends ⊢
          cases word : firstWord none false [] (c :: after) with
          | unterminated quote =>
            rw [word] at ends
            obtain ⟨whole, open_, token, m⟩ := ends
            rw [if_neg (by rw [whole]; decide), open_]
            exact agrees_partly m _ (quoteError_ne quote) m.read_add
          | dangling =>
            rw [word] at ends
            obtain ⟨dangling, token, last, m⟩ := ends
            rw [if_pos dangling]
            exact agrees_partly m _ (by decide) m.read_add
          | whole token literalized rest' =>
            rw [word] at ends
            obtain ⟨whole, closed, lit, m, behind, ends⟩ := ends
            obtain ⟨next, done, behind, shorter, same⟩ := @finish_word argvMax _ _ _ _ _ m behind ends
            rw [if_neg (by rw [whole]; decide), closed]
            dsimp only
            generalize (if isSpace w.scan.peek then w.scan.advance else w.scan).store 0 = s'' at done behind ⊢
            have strings := done.strings
            have argv : starts 0 tokens ++ [s'.write] = starts 0 (tokens ++ [token]) := by
              rw [starts_append, place, Nat.zero_add]
            rw [← argv, map_append] at strings
            have last : stringAt s''.buffer s'.write = token := by
              have ends := append_inj_right' strings rfl
              exact head_eq_of_cons_eq ends
            rw [last, lit, argv]
            split
            · refine ⟨?_, fun ok => ParseError.noConfusion ok, rfl, fun _ => size, rfl, done.honest⟩
              exact (congrArg (List.take _) done.strings).trans take_length
            · rw [same]
              refine ih done behind ?_
              have one := firstWord_consumes (dropWhile_cons found).1 word
              have two := (dropWhile_cons found).2
              rw [length_cons] at enough two
              omega

theorem tokenize_agrees (line : CString) (argvMax : Nat) (some : 0 < argvMax) :
    Agrees line.strlen (tokenize line argvMax) (words argvMax [] line.bytes) := by
  unfold tokenize
  rw [if_neg (by omega)]
  have start : Mirrors line.strlen ⟨line.bytes ++ [0], 0, 0, []⟩ [] [] line.bytes :=
    ⟨rfl, rfl, length_append, Nat.zero_le _, nofun, not_mem_nil,
      fun there => line.noNul 0 there rfl, nofun⟩
  refine tokenizeFrom_agrees start (.inr (Nat.le_refl 0)) ?_
  rw [length_append]
  exact Nat.le_add_right _ _

def escape (argument : List UInt8) : List UInt8 :=
  argument.flatMap fun ch => if ch = backslash ∨ ch = doubleQuote then [backslash, ch] else [ch]

variable (argument : CString)

def quoted : List UInt8 := doubleQuote :: (escape argument.bytes ++ [doubleQuote])

def quotedLine : List CString → List UInt8
  | [] => []
  | [argument] => quoted argument
  | argument :: arguments => quoted argument ++ 0x20 :: quotedLine arguments

theorem firstWord_toggle (space : ¬(quote = none ∧ isSpace ch = true)) (toggles : isQuote quote ch = true) :
    firstWord quote lit token (ch :: rest) = firstWord (if quote = none then some ch else none) true token rest := by
  rw [firstWord.eq_def]
  dsimp only
  rw [if_neg space, if_pos toggles]

theorem firstWord_literal {escaped : UInt8} : firstWord (some doubleQuote) lit token (backslash :: escaped :: rest) =
      firstWord (some doubleQuote) true (token ++ [escaped]) rest := by
  rw [firstWord.eq_def]
  dsimp only
  rw [if_neg (by decide), if_neg (by decide), if_pos (by decide)]

theorem firstWord_inside (plain : ¬(ch = backslash ∨ ch = doubleQuote)) :
    firstWord (some doubleQuote) lit token (ch :: rest) = firstWord (some doubleQuote) lit (token ++ [ch]) rest := by
  obtain ⟨back, quote⟩ := not_or.mp plain
  have stays : isQuote (some doubleQuote) ch ≠ true := by
    unfold isQuote
    simp [quote, Ne.symm quote]
  rw [firstWord.eq_def]
  dsimp only
  rw [if_neg fun both => absurd both.1 (by decide), if_neg stays, if_neg fun both => back both.1]

theorem firstWord_escape (argument token rest : List UInt8) (lit : Bool) :
    firstWord (some doubleQuote) lit token (escape argument ++ doubleQuote :: rest) =
      firstWord none true (token ++ argument) rest := by
  induction argument generalizing token lit with
  | nil =>
    rw [append_nil]
    exact firstWord_toggle (by decide) (by decide)
  | cons ch argument ih =>
    have split : escape (ch :: argument) =
        (if ch = backslash ∨ ch = doubleQuote then [backslash, ch] else [ch]) ++ escape argument := rfl
    rw [split, append_assoc]
    by_cases special : ch = backslash ∨ ch = doubleQuote
    · rw [if_pos special, cons_append, singleton_append, firstWord_literal, ih, append_assoc]
      rfl
    · rw [if_neg special, singleton_append, firstWord_inside special, ih, append_assoc]
      rfl

theorem firstWord_quoted (rest : List UInt8) :
    firstWord none false [] (quoted argument ++ rest) = firstWord none true argument.bytes rest := by
  have inside := firstWord_escape argument.bytes [] rest true
  rw [nil_append] at inside
  rw [quoted, cons_append, append_assoc, firstWord_toggle (by decide) (by decide)]
  exact inside

/-- Bytes that the tokenizer reads as one word wherever a word may begin and end. -/
def ReadsAs (written word : List UInt8) : Prop :=
  ∀ argvMax tokens rest, tokens.length < argvMax → (rest = [] ∨ isSpace (rest.headD 0) = true) →
    words argvMax tokens (written ++ rest) = words argvMax (tokens ++ [word]) rest

theorem readsAs_of_firstWord (lit : Bool) {more word : List UInt8} (shown : isSpace ch = false)
    (plain : (!lit && operatorToken word) = false)
    (same : ∀ rest, firstWord none false [] (ch :: more ++ rest) = firstWord none lit word rest) :
    ReadsAs (ch :: more) word := by
  intro argvMax tokens rest room ends
  have found : (ch :: more ++ rest).dropWhile isSpace = ch :: (more ++ rest) :=
    dropWhile_cons_of_neg (by rw [shown]; decide)
  have closed : firstWord none lit word rest = .whole word lit rest := by
    cases rest with
    | nil => exact firstWord.eq_def none lit word []
    | cons c rest =>
      rw [firstWord.eq_def]
      exact if_pos ⟨rfl, ends.resolve_left (cons_ne_nil c rest)⟩
  rw [words_cons found, if_neg (Nat.not_le.mpr room), ← cons_append, same, closed]
  dsimp only
  rw [plain]
  rfl

theorem readsAs_quoted : ReadsAs (quoted argument) argument.bytes :=
  readsAs_of_firstWord true rfl rfl (firstWord_quoted argument)

theorem words_joined {written found : List (List UInt8)} (reads : Forall₂ ReadsAs written found)
    (room : tokens.length + written.length ≤ argvMax) :
    words argvMax tokens ([0x20].intercalate written) = ⟨tokens ++ found, .ok, 0, []⟩ := by
  induction reads generalizing tokens with
  | nil =>
    rw [append_nil]
    exact words_nil rfl
  | @cons one word written found here later ih =>
    rw [length_cons] at room
    have fits : tokens.length < argvMax := by omega
    have next := @ih (tokens ++ [word]) (by rw [length_append, length_singleton]; omega)
    rw [append_assoc] at next
    cases later with
    | nil =>
      rw [intercalate_singleton, ← append_nil one, here argvMax tokens [] fits (.inl rfl)]
      exact next
    | cons _ _ =>
      rw [intercalate_cons_cons, append_assoc, here argvMax tokens _ fits (.inr rfl)]
      exact (words_space rfl).trans next

variable (arguments : List CString)

theorem quotedLine_eq : quotedLine arguments = [0x20].intercalate (arguments.map quoted) := by
  induction arguments with
  | nil => rfl
  | cons argument arguments ih =>
    cases arguments with
    | nil => exact (intercalate_singleton).symm
    | cons next arguments =>
      rw [map_cons, map_cons, intercalate_cons_cons, ← map_cons, ← ih, append_assoc]
      rfl

theorem words_quotedLine (room : tokens.length + arguments.length ≤ argvMax) :
    words argvMax tokens (quotedLine arguments) = ⟨tokens ++ arguments.map CString.bytes, .ok, 0, []⟩ := by
  rw [quotedLine_eq]
  refine words_joined ?_ (by rwa [length_map])
  exact forall₂_map_left_iff.mpr (forall₂_map_right_iff.mpr (forall₂_same.mpr fun argument _ => readsAs_quoted argument))

theorem quoted_noNul : ∀ b ∈ quoted argument, b ≠ 0 := by
  intro b there
  unfold quoted at there
  rcases mem_cons.mp there with rfl | there
  · decide
  · rcases mem_append.mp there with there | there
    · obtain ⟨ch, inside, there⟩ := mem_flatMap.mp there
      have shown := argument.noNul ch inside
      split at there
      · rcases mem_cons.mp there with rfl | there
        · decide
        · rwa [mem_singleton.mp there]
      · rwa [mem_singleton.mp there]
    · rw [mem_singleton.mp there]
      decide

theorem quotedLine_noNul : ∀ b ∈ quotedLine arguments, b ≠ 0 := by
  induction arguments with
  | nil => exact nofun
  | cons argument arguments ih =>
    cases arguments with
    | nil => exact quoted_noNul argument
    | cons next arguments =>
      intro b there
      rcases mem_append.mp there with there | there
      · exact quoted_noNul argument b there
      · rcases mem_cons.mp there with rfl | there
        · decide
        · exact ih b there

def commandLine : CString := ⟨quotedLine arguments, quotedLine_noNul arguments⟩

/-- The words and the error are those of the line as it was, nothing is written ahead of the
reading, and quoted arguments are read back. -/
theorem tokenize_words (line : CString) (argvMax : Nat) (some : 0 < argvMax) :
    Agrees line.strlen (tokenize line argvMax) (words argvMax [] line.bytes) ∧
      ∀ arguments : List CString, arguments.length ≤ argvMax →
        (tokenize (commandLine arguments) argvMax).error = .ok ∧
          (tokenize (commandLine arguments) argvMax).strings = arguments.map CString.bytes := by
  refine ⟨tokenize_agrees line argvMax some, fun arguments room => ?_⟩
  have agrees := tokenize_agrees (commandLine arguments) argvMax some
  have back : words argvMax [] (commandLine arguments).bytes = ⟨arguments.map CString.bytes, .ok, 0, []⟩ :=
    words_quotedLine arguments (by rw [length_nil]; omega)
  rw [back] at agrees
  exact ⟨agrees.error, agrees.whole agrees.error⟩

/-- `a "b` -/
def openLine : CString := .ofBytes [0x61, 0x20, 0x22, 0x62]

theorem tokenize_words_open : Agrees 4 (tokenize openLine 2) (words 2 [] openLine.bytes) ∧
    (tokenize openLine 2).error = .unterminatedDoubleQuote :=
  ⟨(tokenize_words openLine 2 (by decide)).1, by decide⟩

end SolarOs.Shell
