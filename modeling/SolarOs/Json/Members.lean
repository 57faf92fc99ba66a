import SolarOs.Json.Scanner
import SolarOs.Library.JsonGrammar

/-! The scanner follows the grammar: it finds the first member of an object that has the name. -/
namespace SolarOs.Json
open TextScan JsonGrammar List

variable {p rest t w : Text} {v : List (Option UInt8)} {n : Nat} {closing : List UInt8} {b : UInt8}

def scanned (v : List (Option UInt8)) : List UInt8 := v.map (·.getD 0x3f)

theorem isSpace_of_space (space : Space w) (h : b ∈ w) : isSpace b = true := by
  have every : ∀ b ∈ [0x20, 0x09, 0x0a, (0x0d : UInt8)], isSpace b = true := by decide
  exact every b (space b h)

theorem skipWs_space (space : Space w) (other : isSpace b = false) : skipWs (w ++ b :: rest) = .ok (b :: rest) := by
  induction w with
  | nil =>
    rw [nil_append, skipWs, other]
    rfl
  | cons c w ih =>
    rw [cons_append, skipWs, isSpace_of_space space mem_cons_self]
    exact ih fun b h => space b (mem_cons_of_mem _ h)

theorem isXdigit_isHex : isXdigit = isHex := rfl

theorem skipDigits_hex {h : UInt8} {k : Nat} (hex : isHex h = true) : skipDigits (k + 1) (h :: p) = skipDigits k p := by
  have other : h ≠ 0 := by
    rintro rfl
    exact absurd hex (by decide)
  rw [skipDigits, if_neg]
  rw [isXdigit_isHex, hex]
  simp [other]

theorem unescape_escapes {e b : UInt8} (h : (e, b) ∈ escapes) : e ≠ 0x75 ∧ unescape e = some b := by
  have every : ∀ pair ∈ escapes, pair.1 ≠ 0x75 ∧ unescape pair.1 = some pair.2 := by decide
  exact every _ h

theorem scanStringFrom_chars (chars : Chars t v) (out : Out) (rest : Text) :
    scanStringFrom out (t ++ 0x22 :: rest) = ((scanned v).foldl Out.put out, .ok rest) := by
  induction chars generalizing out with
  | nil =>
    rw [scanStringFrom]
    rfl
  | @raw b t v low quote backslash _ ih =>
    have read : stringByte (b :: (t ++ 0x22 :: rest)) = .ok (some b, t ++ 0x22 :: rest) := by
      have other : b ≠ 0 := by
        rintro rfl
        exact absurd low (by decide)
      rw [stringByte, if_neg other, if_neg quote, if_neg (UInt8.not_lt.mpr low), if_neg backslash]
    rw [cons_append, scanStringFrom, read]
    exact ih _
  | @escape e b t v letter _ ih =>
    obtain ⟨one, known⟩ := unescape_escapes letter
    have read : stringByte (0x5c :: e :: (t ++ 0x22 :: rest)) = .ok (some b, t ++ 0x22 :: rest) := by
      show escapedByte (e :: (t ++ 0x22 :: rest)) = _
      rw [escapedByte, if_neg one, known]
    rw [cons_append, cons_append, scanStringFrom, read]
    exact ih _
  | @codePoint h₁ h₂ h₃ h₄ t v hex _ ih =>
    have digits : skipDigits 4 (h₁ :: h₂ :: h₃ :: h₄ :: (t ++ 0x22 :: rest)) = .ok (t ++ 0x22 :: rest) := by
      rw [skipDigits_hex (hex h₁ (by simp)), skipDigits_hex (hex h₂ (by simp)), skipDigits_hex (hex h₃ (by simp)),
        skipDigits_hex (hex h₄ (by simp)), skipDigits]
    have read : stringByte (0x5c :: 0x75 :: h₁ :: h₂ :: h₃ :: h₄ :: (t ++ 0x22 :: rest)) =
        .ok (some 0x3f, t ++ 0x22 :: rest) := by
      show escapedByte (0x75 :: _) = _
      rw [escapedByte, if_pos rfl, digits]
      rfl
    simp only [cons_append]
    rw [scanStringFrom, read]
    exact ih _

theorem scanString_quoted (chars : Chars t v) {size : Nat} (some : size ≠ 0) (rest : Text) :
    scanString size (quoted t ++ rest) = ((scanned v).foldl Out.put ⟨size, [], false⟩, .ok rest) := by
  rw [quoted, cons_append, append_assoc, singleton_append, scanString, if_neg (by simp [some])]
  exact scanStringFrom_chars chars _ rest

def Plain (b : UInt8) : Prop := b ≠ 0 ∧ b ≠ 0x22 ∧ b ≠ 0x7b ∧ b ≠ 0x5b ∧ b ≠ 0x7d ∧ b ≠ 0x5d

instance (b : UInt8) : Decidable (Plain b) := inferInstanceAs (Decidable (_ ∧ _))

theorem skipNested_plain (plain : Plain b) : skipNested closing (b :: p) = skipNested closing p := by
  obtain ⟨nul, quote, brace, bracket, brace', bracket'⟩ := plain
  conv_lhs => rw [skipNested.eq_def]
  simp only
  rw [if_neg nul, if_neg quote, if_neg (not_or.mpr ⟨brace, bracket⟩), if_neg (not_or.mpr ⟨brace', bracket'⟩)]

theorem skipNested_plains (plain : ∀ b ∈ t, Plain b) : skipNested closing (t ++ p) = skipNested closing p := by
  induction t with
  | nil => rfl
  | cons b t ih =>
    rw [cons_append, skipNested_plain (plain b mem_cons_self)]
    exact ih fun c h => plain c (mem_cons_of_mem _ h)

theorem skipNested_space (space : Space w) : skipNested closing (w ++ p) = skipNested closing p := by
  refine skipNested_plains fun b h => ?_
  have every : ∀ b ∈ [0x20, 0x09, 0x0a, (0x0d : UInt8)], Plain b := by decide
  exact every b (space b h)

theorem skipNested_string (chars : Chars t v) : skipNested closing (quoted t ++ p) = skipNested closing p := by
  have read := scanString_quoted chars Nat.one_ne_zero p
  rw [quoted, cons_append] at read ⊢
  conv_lhs => rw [skipNested.eq_def]
  simp only
  rw [if_neg (by decide), if_pos trivial]
  split
  · rename_i stop scanned
    rw [read] at scanned
    cases scanned
  · rename_i q scanned
    rw [read] at scanned
    cases scanned
    rfl

theorem skipNested_open (opens : b = 0x7b ∨ b = 0x5b) (room : closing.length < nestingMax) :
    skipNested closing (b :: p) = skipNested (closer b :: closing) p := by
  have other : b ≠ 0 ∧ b ≠ 0x22 := by rcases opens with rfl | rfl <;> decide
  conv_lhs => rw [skipNested.eq_def]
  simp only
  rw [if_neg other.1, if_neg other.2, if_pos opens, if_neg (by omega)]

theorem skipNested_close (closes : b = 0x7d ∨ b = 0x5d) :
    skipNested (b :: closing) (b :: p) = if closing = [] then .ok p else skipNested closing p := by
  have other : b ≠ 0 ∧ b ≠ 0x22 ∧ ¬(b = 0x7b ∨ b = 0x5b) := by rcases closes with rfl | rfl <;> decide
  conv_lhs => rw [skipNested.eq_def]
  simp only [if_neg other.1, if_neg other.2.1, if_neg other.2.2, if_pos closes, ne_eq, not_true_eq_false, if_false]

def Scalar (b : UInt8) : Prop := Plain b ∧ b ≠ 0x2c ∧ isSpace b = false

instance (b : UInt8) : Decidable (Scalar b) := inferInstanceAs (Decidable (_ ∧ _))

theorem scalar_digit (digit : JsonGrammar.isDigit b = true) : Scalar b := by
  have every : ∀ n < 256, JsonGrammar.isDigit (UInt8.ofNat n) = true → Scalar (UInt8.ofNat n) := by decide +kernel
  have := every b.toNat b.toNat_lt
  rw [UInt8.ofNat_toNat] at this
  exact this digit

theorem scalar_digits (digits : Digits t) : ∀ b ∈ t, Scalar b := fun b h => scalar_digit (digits.2 b h)

theorem scalar_sign (sign : Sign t) : ∀ b ∈ t, Scalar b := by
  rcases sign with rfl | rfl
  · exact nofun
  · decide

theorem scalar_number (number : Number t) : t ≠ [] ∧ ∀ b ∈ t, Scalar b := by
  obtain ⟨s, w, f, e, sign, whole, fraction, exponent, rfl⟩ := number
  have some : w ≠ [] ∧ ∀ b ∈ w, Scalar b := by
    rcases whole with rfl | ⟨digits, -⟩
    · exact ⟨cons_ne_nil _ _, by decide⟩
    · exact ⟨digits.1, scalar_digits digits⟩
  refine ⟨by simp [some.1], fun b h => ?_⟩
  rcases mem_append.mp h with h | inExponent
  · rcases mem_append.mp h with h | inFraction
    · rcases mem_append.mp h with inSign | inWhole
      · exact scalar_sign sign b inSign
      · exact some.2 b inWhole
    · rcases fraction with rfl | ⟨d, digits, rfl⟩
      · exact nomatch inFraction
      · rcases mem_cons.mp inFraction with rfl | digit
        · decide
        · exact scalar_digits digits b digit
  · rcases exponent with rfl | ⟨letter, s', d, isE, sign', digits, rfl⟩
    · exact nomatch inExponent
    · rcases mem_cons.mp inExponent with rfl | h
      · rcases isE with rfl | rfl <;> decide
      · rcases mem_append.mp h with inSign | digit
        · rcases sign' with sign' | rfl
          · exact scalar_sign sign' b inSign
          · rw [mem_singleton.mp inSign]
            decide
        · exact scalar_digits digits b digit

theorem scalar_literal (h : t ∈ literals) : t ≠ [] ∧ ∀ b ∈ t, Scalar b := by
  have every : ∀ t ∈ literals, t ≠ [] ∧ ∀ b ∈ t, Scalar b := by decide
  exact every t h

theorem skipNested_derives {kind : Kind} (derives : Derives kind n t) (some : closing ≠ [])
    (room : closing.length + n ≤ nestingMax) (p : Text) : skipNested closing (t ++ p) = skipNested closing p := by
  have comma : ∀ {closing p}, skipNested closing (0x2c :: p) = skipNested closing p := skipNested_plain (by decide)
  have colon : ∀ {closing p}, skipNested closing (0x3a :: p) = skipNested closing p := skipNested_plain (by decide)
  induction derives generalizing closing p with
  | literal h => exact skipNested_plains fun b hb => ((scalar_literal h).2 b hb).1
  | number h => exact skipNested_plains fun b hb => ((scalar_number h).2 b hb).1
  | string chars => exact skipNested_string chars
  | emptyArray space =>
    rw [cons_append, append_assoc, skipNested_open (.inr rfl) (by omega), skipNested_space space]
    exact (skipNested_close (.inr rfl)).trans (if_neg some)
  | array _ ih =>
    rw [cons_append, append_assoc, skipNested_open (.inr rfl) (by omega),
      ih (cons_ne_nil _ _) (by rw [length_cons]; omega)]
    exact (skipNested_close (.inr rfl)).trans (if_neg some)
  | emptyObject space =>
    rw [cons_append, append_assoc, skipNested_open (.inl rfl) (by omega), skipNested_space space]
    exact (skipNested_close (.inl rfl)).trans (if_neg some)
  | object _ ih =>
    rw [cons_append, append_assoc, skipNested_open (.inl rfl) (by omega),
      ih (cons_ne_nil _ _) (by rw [length_cons]; omega)]
    exact (skipNested_close (.inl rfl)).trans (if_neg some)
  | element before _ after ih =>
    simp only [append_assoc]
    rw [skipNested_space before, ih some room, skipNested_space after]
  | elements before _ after _ ih ih' =>
    simp only [append_assoc, cons_append]
    rw [skipNested_space before, ih some room, skipNested_space after, comma, ih' some room]
  | member before chars between gap _ after ih =>
    simp only [append_assoc, cons_append]
    rw [skipNested_space before, skipNested_string chars, skipNested_space between, colon, skipNested_space gap,
      ih some room, skipNested_space after]
  | members before chars between gap _ after _ ih ih' =>
    simp only [append_assoc, cons_append]
    rw [skipNested_space before, skipNested_string chars, skipNested_space between, colon, skipNested_space gap,
      ih some room, skipNested_space after, comma, ih' some room]

theorem skipScalar_scalars {c : UInt8} (scalar : ∀ b ∈ t, Scalar b) (space : Space w) (ends : c = 0x2c ∨ c = 0x7d) :
    skipScalar (t ++ (w ++ c :: rest)) = .ok (c :: rest) := by
  have passes : ∀ b : UInt8, (Scalar b ∨ isSpace b = true) → ¬(b = 0 ∨ b = 0x2c ∨ b = 0x7d) := by
    intro b known ends
    rcases ends with rfl | rfl | rfl <;> exact absurd known (by decide)
  have skips : ∀ u : Text, (∀ b ∈ u, Scalar b ∨ isSpace b = true) →
      skipScalar (u ++ c :: rest) = .ok (c :: rest) := by
    intro u known
    induction u with
    | nil => rw [nil_append, skipScalar, if_pos (.inr ends)]
    | cons b u ih =>
      rw [cons_append, skipScalar, if_neg (passes b (known b mem_cons_self))]
      exact ih fun b h => known b (mem_cons_of_mem _ h)
  rw [← append_assoc]
  refine skips _ fun b h => ?_
  rcases mem_append.mp h with h | h
  · exact .inl (scalar b h)
  · exact .inr (isSpace_of_space space h)

theorem value_start (derives : Derives .value n t) : ∃ b u, t = b :: u ∧ isSpace b = false := by
  have first : ∀ {t : Text}, (t ≠ [] ∧ ∀ b ∈ t, Scalar b) → ∃ b u, t = b :: u ∧ isSpace b = false := by
    rintro (_ | ⟨b, u⟩) ⟨some, scalar⟩
    · exact absurd rfl some
    · exact ⟨b, u, rfl, (scalar b mem_cons_self).2.2⟩
  cases derives with
  | literal h => exact first (scalar_literal h)
  | number h => exact first (scalar_number h)
  | string => exact ⟨_, _, rfl, rfl⟩
  | emptyArray => exact ⟨_, _, rfl, rfl⟩
  | array => exact ⟨_, _, rfl, rfl⟩
  | emptyObject => exact ⟨_, _, rfl, rfl⟩
  | object => exact ⟨_, _, rfl, rfl⟩

theorem skipWs_self (other : isSpace b = false) : skipWs (b :: p) = .ok (b :: p) := @skipWs_space p [] b nofun other

theorem skipValue_scalar {c : UInt8} (some : t ≠ []) (scalar : ∀ b ∈ t, Scalar b) (space : Space w)
    (ends : c = 0x2c ∨ c = 0x7d) : skipValue (t ++ (w ++ c :: rest)) = .ok (c :: rest) := by
  obtain ⟨b, u, rfl⟩ := exists_cons_of_ne_nil some
  obtain ⟨⟨nul, quote, brace, bracket, brace', -⟩, comma, other⟩ := scalar b mem_cons_self
  rw [skipValue, cons_append, skipWs_self other]
  show (if b = 0 then _ else _) = _
  rw [if_neg nul, if_neg quote, if_neg (not_or.mpr ⟨brace, bracket⟩), if_neg (not_or.mpr ⟨comma, brace'⟩)]
  exact skipScalar_scalars (fun b h => scalar b (mem_cons_of_mem _ h)) space ends

theorem skipValue_nested (opens : b = 0x7b ∨ b = 0x5b)
    (passes : skipNested [closer b] (t ++ closer b :: p) = skipNested [closer b] (closer b :: p)) :
    skipValue (b :: (t ++ closer b :: p)) = .ok p := by
  have other : isSpace b = false ∧ b ≠ 0 ∧ b ≠ 0x22 := by rcases opens with rfl | rfl <;> decide
  have closes : closer b = 0x7d ∨ closer b = 0x5d := by rcases opens with rfl | rfl <;> decide
  rw [skipValue, skipWs_self other.1]
  show (if b = 0 then _ else _) = _
  rw [if_neg other.2.1, if_neg other.2.2, if_pos opens, passes]
  exact (skipNested_close closes).trans (if_pos rfl)

theorem skipValue_derives {c : UInt8} (derives : Derives .value n t) (room : n ≤ nestingMax) (space : Space w)
    (ends : c = 0x2c ∨ c = 0x7d) : (skipValue (t ++ (w ++ c :: rest)) >>= skipWs) = .ok (c :: rest) := by
  have other : isSpace c = false := by rcases ends with rfl | rfl <;> rfl
  have after : skipWs (w ++ c :: rest) = .ok (c :: rest) := skipWs_space space other
  have scalar : t ≠ [] → (∀ b ∈ t, Scalar b) → (skipValue (t ++ (w ++ c :: rest)) >>= skipWs) = .ok (c :: rest) := by
    intro some scalar
    rw [skipValue_scalar some scalar space ends]
    exact skipWs_self other
  have nested : ∀ {b : UInt8} {u : Text}, (b = 0x7b ∨ b = 0x5b) →
      (∀ p, skipNested [closer b] (u ++ p) = skipNested [closer b] p) →
      (skipValue (b :: (u ++ [closer b]) ++ (w ++ c :: rest)) >>= skipWs) = .ok (c :: rest) := by
    intro b u opens passes
    rw [cons_append, append_assoc, singleton_append, skipValue_nested opens (passes _)]
    exact after
  cases derives with
  | literal h => exact scalar (scalar_literal h).1 (scalar_literal h).2
  | number h => exact scalar (scalar_number h).1 (scalar_number h).2
  | @string _ u v chars =>
    have read := scanString_quoted chars Nat.one_ne_zero (w ++ c :: rest)
    have skips : skipValue (quoted u ++ (w ++ c :: rest)) = (scanString 1 (quoted u ++ (w ++ c :: rest))).2 := rfl
    rw [skips, read]
    exact after
  | emptyArray inner => exact nested (.inr rfl) fun p => skipNested_space inner
  | array elements => exact nested (.inr rfl) (skipNested_derives elements (cons_ne_nil _ _) (by
      rw [length_singleton]
      omega))
  | emptyObject inner => exact nested (.inl rfl) fun p => skipNested_space inner
  | object members => exact nested (.inl rfl) (skipNested_derives members (cons_ne_nil _ _) (by
      rw [length_singleton]
      omega))

theorem put_fits {size : Nat} {written : List UInt8} (bytes : List UInt8)
    (fits : written.length + bytes.length < size) :
    bytes.foldl Out.put ⟨size, written, false⟩ = ⟨size, written ++ bytes, false⟩ := by
  induction bytes generalizing written with
  | nil => simp
  | cons b bytes ih =>
    rw [length_cons] at fits
    have room : written.length + 1 < size := by omega
    have fits' : (written ++ [b]).length + bytes.length < size := by
      rw [length_append, length_singleton]
      omega
    have step : Out.put ⟨size, written, false⟩ b = ⟨size, written ++ [b], false⟩ := if_pos room
    rw [foldl_cons, step, ih fits', append_assoc, singleton_append]

theorem put_truncated {out : Out} (bytes : List UInt8) (h : out.truncated = true) :
    (bytes.foldl Out.put out).truncated = true := by
  induction bytes generalizing out with
  | nil => exact h
  | cons b bytes ih =>
    refine ih ?_
    rw [Out.put]
    split
    · exact h
    · rfl

theorem put_overflow {out : Out} (bytes : List UInt8) (room : out.bytes.length < out.size)
    (long : out.size ≤ out.bytes.length + bytes.length) : (bytes.foldl Out.put out).truncated = true := by
  induction bytes generalizing out with
  | nil => exact absurd long (Nat.not_le.mpr room)
  | cons b bytes ih =>
    rw [length_cons] at long
    rw [foldl_cons, Out.put]
    split
    · rename_i more
      have length : (out.bytes ++ [b]).length = out.bytes.length + 1 := length_append
      exact ih (length ▸ more) (by simp only [length]; omega)
    · exact put_truncated bytes rfl

variable {key : CString}

theorem scanned_name (short : key.strlen ≤ 63) (known : none ∉ v) :
    (¬((scanned v).foldl Out.put ⟨64, [], false⟩).truncated ∧
      ((scanned v).foldl Out.put ⟨64, [], false⟩).bytes = key.bytes) ↔ v = key.bytes.map some := by
  have bytes : scanned v = key.bytes ↔ v = key.bytes.map some := by
    constructor
    · intro same
      rw [← same, scanned, map_map]
      refine (map_id v).symm.trans (map_congr_left fun b h => ?_)
      cases b with
      | none => exact absurd h known
      | some b => rfl
    · rintro rfl
      rw [scanned, map_map]
      exact map_id _
  rw [← bytes]
  by_cases fits : (scanned v).length < 64
  · have room : ([] : List UInt8).length + (scanned v).length < 64 := by
      rw [length_nil, Nat.zero_add]
      exact fits
    rw [put_fits _ room]
    simp
  · have long : 64 ≤ ([] : List UInt8).length + (scanned v).length := by
      rw [length_nil]
      omega
    have past := @put_overflow ⟨64, [], false⟩ (scanned v) (by decide) long
    constructor
    · exact fun both => absurd past both.1
    · intro same
      rw [same] at fits
      have : key.bytes.length ≤ 63 := short
      omega

theorem scanMember_lead (m : Member n) (p : Text) : scanMember (m.lead ++ (m.value ++ p)) =
      .ok ((scanned m.name).foldl Out.put ⟨64, [], false⟩, m.value ++ p) := by
  obtain ⟨before, between, gap, -⟩ := m.spaces
  obtain ⟨b, u, value, other⟩ := value_start m.derives
  have read := scanString_quoted m.keyed (by decide : 64 ≠ 0) (m.between ++ 0x3a :: (m.gap ++ (m.value ++ p)))
  have spaces : skipWs (m.lead ++ (m.value ++ p)) =
      .ok (quoted m.key ++ (m.between ++ 0x3a :: (m.gap ++ (m.value ++ p)))) := by
    have other : isSpace 0x22 = false := rfl
    simp only [Member.lead, quoted, append_assoc, cons_append]
    exact skipWs_space before other
  have after : skipWs (m.gap ++ (m.value ++ p)) = .ok (m.value ++ p) := by
    rw [value, cons_append]
    exact skipWs_space gap other
  have colon : skipWs (m.between ++ 0x3a :: (m.gap ++ (m.value ++ p))) = .ok (0x3a :: (m.gap ++ (m.value ++ p))) :=
    skipWs_space between rfl
  rw [scanMember, spaces, ok_bind, if_neg (by simp [quoted]), read, ok_bind, colon, ok_bind]
  rw [expect, if_pos rfl, ok_bind, after]
  rfl

theorem skipMember_comma {c : UInt8} (derives : Derives .value n t) (room : n ≤ nestingMax) (space : Space w)
    (ends : c = 0x2c ∨ c = 0x7d) :
    skipMember (t ++ (w ++ c :: rest)) = if c = 0x2c then .ok rest else .error .null := by
  have skips := @skipValue_derives rest t w n c derives room space ends
  have assoc : skipMember (t ++ (w ++ c :: rest)) = (skipValue (t ++ (w ++ c :: rest)) >>= skipWs) >>= expect 0x2c :=
    (bind_assoc _ _ _).symm
  rw [assoc, skips, ok_bind, expect]

theorem findMember_member {name : Out} {value : Text} (scan : scanMember p = .ok (name, value)) : findMember key p =
      if ¬name.truncated ∧ name.bytes = key.bytes then .ok value
      else skipMember value >>= findMember key := by
  cases p with
  | nil => cases scan
  | cons ch rest =>
    have some : ch ≠ 0 := by
      rintro rfl
      cases scan
    rw [findMember, if_neg some]
    split
    · rename_i stop failed
      rw [scan] at failed
      cases failed
    · rename_i name' value' read
      rw [scan] at read
      cases read
      split
      · rfl
      · split
        · rename_i stop failed
          rw [failed]
          rfl
        · rename_i q skipped
          rw [skipped]
          rfl

theorem findMember_body (short : key.strlen ≤ 63) (room : n ≤ nestingMax) (m : Member n) (ms : List (Member n))
    (known : ∀ m' ∈ m :: ms, none ∉ m'.name) (tail : Text) : findMember key (body m ms ++ tail) =
      match valueOf (key.bytes.map some) (m :: ms) with
      | some value => .ok (value ++ tail)
      | none => .error .null := by
  have named := scanned_name short (known m mem_cons_self)
  induction ms generalizing m with
  | nil =>
    have text : body m [] ++ tail = m.lead ++ (m.value ++ (m.after ++ 0x7d :: tail)) := by
      simp only [body, following, append_assoc, cons_append, nil_append]
    rw [text, findMember_member (scanMember_lead m _)]
    simp only [named, valueOf]
    split
    · simp only [following, append_assoc, cons_append, nil_append]
    · rw [skipMember_comma m.derives room m.spaces.2.2.2 (.inr rfl)]
      rfl
  | cons m' ms ih =>
    have text : body m (m' :: ms) ++ tail = m.lead ++ (m.value ++ (m.after ++ 0x2c :: (body m' ms ++ tail))) := by
      simp only [body, following, append_assoc, cons_append]
    have rest := fun m'' h => known m'' (mem_cons_of_mem _ h)
    rw [text, findMember_member (scanMember_lead m _)]
    simp only [named]
    rw [valueOf]
    split
    · simp only [following, body, append_assoc, cons_append]
    · rw [skipMember_comma m.derives room m.spaces.2.2.2 (.inl rfl), if_pos rfl, ok_bind]
      exact ih m' rest (scanned_name short (rest m' mem_cons_self))

theorem findMember_empty (space : Space w) (tail : Text) : findMember key (w ++ 0x7d :: tail) = .error .null := by
  have closed : scanMember (w ++ 0x7d :: tail) = .error .null := by
    rw [scanMember, skipWs_space space rfl, ok_bind]
    rfl
  cases text : w ++ 0x7d :: tail with
  | nil => exact absurd text (append_ne_nil_of_right_ne_nil _ (cons_ne_nil _ _))
  | cons ch p =>
    rw [text] at closed
    rw [findMember]
    split
    · rfl
    · split
      · rename_i stop failed
        cases failed.symm.trans closed
        rfl
      · rename_i read
        cases read.symm.trans closed

theorem memberValue_inside (some : key.bytes ≠ []) (short : key.strlen ≤ 63) (room : n ≤ nestingMax)
    {ms : List (Member n)} {lead : Text} (space : Space lead) (inside : Inside ms t)
    (known : ∀ m ∈ ms, none ∉ m.name) (tail : Text) : memberValue (lead ++ 0x7b :: (t ++ tail)) key =
      match valueOf (key.bytes.map .some) ms with
      | .some value => .ok (value ++ tail)
      | none => .error .null := by
  rw [memberValue, if_neg some, skipWs_space space rfl, ok_bind, expect, if_pos rfl, ok_bind]
  cases inside with
  | empty inner =>
    rw [append_assoc]
    exact findMember_empty inner tail
  | some m ms => exact findMember_body short room m ms known tail

/-- Every text of an object has members; the scanner finds the start of the value of the first
one with the name, as long as their values nest no deeper than it follows; and on no string does
it read past the terminator. -/
theorem memberValue_first (key : CString) (some : key.bytes ≠ []) (short : key.strlen ≤ 63) :
    (∀ (n : Nat) (t : Text), Derives .value (n + 1) (0x7b :: t) → ∃ ms : List (Member n), Inside ms t) ∧
      (∀ (n : Nat) (ms : List (Member n)) (lead t tail : Text), n ≤ nestingMax → Space lead → Inside ms t →
        (∀ m ∈ ms, none ∉ m.name) →
          memberValue (lead ++ 0x7b :: (t ++ tail)) key =
            match valueOf (key.bytes.map .some) ms with
            | .some value => .ok (value ++ tail)
            | none => .error .null) ∧
      ∀ json : CString, memberValue json.text key ≠ .error .overrun :=
  ⟨fun _ _ derives => derives.inside,
    fun _ _ _ _ tail room space inside known => memberValue_inside some short room space inside known tail,
    fun json => (memberValue_within key json.text_live).ne_overrun⟩

/-- The member `"a":1`. -/
theorem memberValue_first_one :
    memberValue [0x7b, 0x22, 0x61, 0x22, 0x3a, 0x31, 0x7d, 0] ⟨[0x61], by decide⟩ = .ok [0x31, 0x7d, 0] := by
  have number : Number [0x31] :=
    ⟨[], [0x31], [], [], .inl rfl, .inr ⟨⟨cons_ne_nil _ _, by decide⟩, by decide⟩, .inl rfl, .inl rfl, rfl⟩
  let m : Member 0 := ⟨[], [0x61], [some 0x61], [], [], [0x31], [], ⟨nofun, nofun, nofun, nofun⟩,
    .raw (by decide) (by decide) (by decide) .nil, .number number⟩
  have first := (memberValue_first ⟨[0x61], by decide⟩ (cons_ne_nil _ _) (by decide)).2.1 0 [m] [] _ [0]
    (by decide) nofun (.some m []) (by simp [m])
  simpa [m, body, following, Member.lead, quoted, valueOf] using first

/-- A member can have the empty name, but none is found. -/
theorem memberValue_empty_name :
    ∃ m : Member 0, m.name = [] ∧ memberValue (0x7b :: (body m [] ++ [0])) ⟨[], nofun⟩ = .error .null := by
  have zero : Number [0x30] := ⟨[], [0x30], [], [], .inl rfl, .inl rfl, .inl rfl, .inl rfl, rfl⟩
  exact ⟨⟨[], [], [], [], [], [0x30], [], ⟨nofun, nofun, nofun, nofun⟩, .nil, .number zero⟩, rfl, rfl⟩

end SolarOs.Json
