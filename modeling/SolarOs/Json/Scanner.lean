import SolarOs.Library.CString
import SolarOs.Esp

/-! The scanner of bounded JSON objects, and the escaping of strings for them. -/
namespace SolarOs.Json
open TextScan List

def nestingMax : Nat := 16

def isSpace (ch : UInt8) : Bool := ch = 0x20 || (0x09 ≤ ch && ch ≤ 0x0d)

def isDigit (ch : UInt8) : Bool := 0x30 ≤ ch && ch ≤ 0x39

def isXdigit (ch : UInt8) : Bool := isDigit ch || (0x41 ≤ ch && ch ≤ 0x46) || (0x61 ≤ ch && ch ≤ 0x66)

def skipWs : Text → Scan Text
  | [] => .error .overrun
  | ch :: p => if isSpace ch then skipWs p else .ok (ch :: p)

/-- The digits of `\u` in `json_scan_string`. -/
def skipDigits : Nat → Text → Scan Text
  | 0, p => .ok p
  | _ + 1, [] => .error .overrun
  | n + 1, ch :: p => if ch = 0 ∨ ¬isXdigit ch then .error .null else skipDigits n p

/-- The escapes with one letter in `json_scan_string`. -/
def unescape (ch : UInt8) : Option UInt8 :=
  if ch = 0x22 ∨ ch = 0x5c ∨ ch = 0x2f then some ch
  else if ch = 0x62 then some 0x08
  else if ch = 0x66 then some 0x0c
  else if ch = 0x6e then some 0x0a
  else if ch = 0x72 then some 0x0d
  else if ch = 0x74 then some 0x09
  else none

/-- The part of `json_scan_string` after a backslash. -/
def escapedByte : Text → Scan (Option UInt8 × Text)
  | [] => .error .overrun
  | ch :: p =>
    if ch = 0x75 then (skipDigits 4 p).map fun p => (some 0x3f, p)
    else
      match unescape ch with
      | some ch => .ok (some ch, p)
      | none => .error .null

/-- What one turn of the loop in `json_scan_string` reads: a byte of the string, or its end. -/
def stringByte : Text → Scan (Option UInt8 × Text)
  | [] => .error .overrun
  | ch :: p =>
    if ch = 0 then .error .null
    else if ch = 0x22 then .ok (none, p)
    else if ch < 0x20 then .error .null
    else if ch = 0x5c then escapedByte p
    else .ok (some ch, p)

/-- The buffer that a string is read to: its size, the bytes put into it, and whether some did
not fit. -/
structure Out where
  size : Nat
  bytes : List UInt8
  truncated : Bool
  deriving DecidableEq

def Out.put (out : Out) (ch : UInt8) : Out :=
  if out.bytes.length + 1 < out.size then { out with bytes := out.bytes ++ [ch] }
  else { out with truncated := true }

section Shorter

variable {p q : Text} {ch : Option UInt8}

theorem skipDigits_suffix {n : Nat} (h : skipDigits n p = .ok q) : q <:+ p := by
  induction n generalizing p with
  | zero =>
    cases h
    exact suffix_refl _
  | succ n ih =>
    cases p with
    | nil => exact nomatch h
    | cons byte p =>
      rw [skipDigits] at h
      split at h
      · exact nomatch h
      · exact (ih h).trans (suffix_cons ..)

theorem escapedByte_suffix (h : escapedByte p = .ok (ch, q)) : q <:+ p := by
  cases p with
  | nil => exact nomatch h
  | cons letter p =>
    rw [escapedByte] at h
    split at h
    · cases digits : skipDigits 4 p with
      | error stop =>
        rw [digits] at h
        exact nomatch h
      | ok r =>
        rw [digits] at h
        cases h
        exact (skipDigits_suffix digits).trans (suffix_cons ..)
    · split at h
      · cases h
        exact suffix_cons ..
      · exact nomatch h

theorem stringByte_suffix (h : stringByte p = .ok (ch, q)) : q <:+ p ∧ q.length < p.length := by
  cases p with
  | nil => exact nomatch h
  | cons byte p =>
    have later : q <:+ p := by
      rw [stringByte] at h
      split at h
      · exact nomatch h
      · split at h
        · cases h
          exact suffix_refl _
        · split at h
          · exact nomatch h
          · split at h
            · exact escapedByte_suffix h
            · cases h
              exact suffix_refl _
    exact ⟨later.trans (suffix_cons ..), Nat.lt_succ_of_le later.length_le⟩

end Shorter

/-- The loop of `json_scan_string`. -/
def scanStringFrom (out : Out) (p : Text) : Out × Scan Text :=
  match _h : stringByte p with
  | .error stop => (out, .error stop)
  | .ok (none, p) => (out, .ok p)
  | .ok (some ch, p) => scanStringFrom (out.put ch) p
termination_by p.length
decreasing_by exact (stringByte_suffix _h).2

/-- `json_scan_string`, for a buffer of that size. -/
def scanString (size : Nat) : Text → Out × Scan Text
  | [] => (⟨size, [], false⟩, .error .overrun)
  | ch :: p =>
    if ch ≠ 0x22 ∨ size = 0 then (⟨size, [], false⟩, .error .null) else scanStringFrom ⟨size, [], false⟩ p

theorem scanStringFrom_suffix {out : Out} {p q : Text} (h : (scanStringFrom out p).2 = .ok q) :
    q <:+ p ∧ q.length < p.length := by
  fun_induction scanStringFrom out p with
  | case1 => exact nomatch h
  | case2 out p q' read =>
    cases h
    exact stringByte_suffix read
  | case3 out p ch q' read ih =>
    obtain ⟨suffix, shorter⟩ := stringByte_suffix read
    obtain ⟨suffix', shorter'⟩ := ih h
    exact ⟨suffix'.trans suffix, by omega⟩

theorem scanString_suffix {size : Nat} {p q : Text} (h : (scanString size p).2 = .ok q) :
    q <:+ p ∧ q.length < p.length := by
  cases p with
  | nil => exact nomatch h
  | cons ch p =>
    rw [scanString] at h
    split at h
    · exact nomatch h
    · obtain ⟨suffix, shorter⟩ := scanStringFrom_suffix h
      exact ⟨suffix.trans (suffix_cons ..), by rw [length_cons]; omega⟩

def closer (ch : UInt8) : UInt8 := if ch = 0x7b then 0x7d else 0x5d

/-- The loop over nested values in `json_scan_skip_value`, with the brackets that close them,
innermost first. -/
def skipNested (closing : List UInt8) (p : Text) : Scan Text :=
  match p with
  | [] => .error .overrun
  | ch :: rest =>
    if ch = 0 then .error .null
    else if ch = 0x22 then
      match _h : (scanString 1 (ch :: rest)).2 with
      | .error stop => .error stop
      | .ok p => skipNested closing p
    else if ch = 0x7b ∨ ch = 0x5b then
      if closing.length ≥ nestingMax then .error .null else skipNested (closer ch :: closing) rest
    else if ch = 0x7d ∨ ch = 0x5d then
      match closing with
      | [] => .error .null
      | top :: below =>
        if ch ≠ top then .error .null
        else if below = [] then .ok rest
        else skipNested below rest
    else skipNested closing rest
termination_by p.length
decreasing_by
  · exact (scanString_suffix _h).2
  all_goals simp

/-- The loop over a scalar in `json_scan_skip_value`. -/
def skipScalar : Text → Scan Text
  | [] => .error .overrun
  | ch :: p => if ch = 0 ∨ ch = 0x2c ∨ ch = 0x7d then .ok (ch :: p) else skipScalar p

def skipValue (p : Text) : Scan Text := do
  let p ← skipWs p
  match p with
  | [] => .error .overrun
  | ch :: rest =>
    if ch = 0 then .error .null
    else if ch = 0x22 then (scanString 1 (ch :: rest)).2
    else if ch = 0x7b ∨ ch = 0x5b then skipNested [closer ch] rest
    else if ch = 0x2c ∨ ch = 0x7d then .error .null
    else skipScalar rest

def expect (byte : UInt8) : Text → Scan Text
  | [] => .error .overrun
  | ch :: p => if ch = byte then .ok p else .error .null

/-- One turn of the loop in `json_scan_member_value` up to the value: the name, and where the
value starts. -/
def scanMember (p : Text) : Scan (Out × Text) := do
  let p ← skipWs p
  if p.head? = some 0x7d then .error .null
  else
    let p' ← (scanString 64 p).2
    let p' ← skipWs p'
    let p' ← expect 0x3a p'
    let p' ← skipWs p'
    return ((scanString 64 p).1, p')

def skipMember (p : Text) : Scan Text := do
  let p ← skipValue p
  let p ← skipWs p
  expect 0x2c p

theorem skipWs_suffix {p q : Text} (h : skipWs p = .ok q) : q <:+ p := by
  induction p with
  | nil => exact nomatch h
  | cons ch p ih =>
    rw [skipWs] at h
    split at h
    · exact (ih h).trans (suffix_cons ..)
    · cases h
      exact suffix_refl _

theorem expect_suffix {byte : UInt8} {p q : Text} (h : expect byte p = .ok q) : q <:+ p ∧ q.length < p.length := by
  cases p with
  | nil => exact nomatch h
  | cons ch p =>
    rw [expect] at h
    split at h
    · cases h
      exact ⟨suffix_cons .., Nat.lt_succ_self _⟩
    · exact nomatch h

theorem of_bind_ok {α β : Type} {x : Scan α} {f : α → Scan β} {b : β} (h : x >>= f = .ok b) :
    ∃ a, x = .ok a ∧ f a = .ok b := by
  cases x with
  | error stop => exact nomatch h
  | ok a => exact ⟨a, rfl, h⟩

theorem scanMember_suffix {p q : Text} {name : Out} (h : scanMember p = .ok (name, q)) :
    q <:+ p ∧ q.length < p.length := by
  obtain ⟨p₁, spaces, h⟩ := of_bind_ok h
  split at h
  · exact nomatch h
  · obtain ⟨p₂, scanned, h⟩ := of_bind_ok h
    obtain ⟨p₃, spaces₂, h⟩ := of_bind_ok h
    obtain ⟨p₄, colon, h⟩ := of_bind_ok h
    obtain ⟨p₅, spaces₃, h⟩ := of_bind_ok h
    cases h
    have h₁ := skipWs_suffix spaces
    obtain ⟨h₂, shorter⟩ := scanString_suffix scanned
    have h₃ := skipWs_suffix spaces₂
    have h₄ := (expect_suffix colon).1
    have rest := ((skipWs_suffix spaces₃).trans h₄).trans h₃
    refine ⟨(rest.trans h₂).trans h₁, ?_⟩
    have := rest.length_le
    have := h₁.length_le
    omega

theorem skipNested_suffix {closing : List UInt8} {p q : Text} (h : skipNested closing p = .ok q) : q <:+ p := by
  fun_induction skipNested closing p with
  | case1 => exact nomatch h
  | case2 => exact nomatch h
  | case3 => exact nomatch h
  | case4 _ _ _ _ scanned ih => exact (ih h).trans (scanString_suffix scanned).1
  | case5 => exact nomatch h
  | case6 closing ch rest _ _ _ _ ih => exact (ih h).trans (suffix_cons ..)
  | case7 => exact nomatch h
  | case8 => exact nomatch h
  | case9 =>
    cases h
    exact suffix_cons ..
  | case10 ch rest _ _ _ _ top below _ _ ih => exact (ih h).trans (suffix_cons ..)
  | case11 closing ch rest _ _ _ _ ih => exact (ih h).trans (suffix_cons ..)

theorem skipScalar_suffix {p q : Text} (h : skipScalar p = .ok q) : q <:+ p := by
  induction p with
  | nil => exact nomatch h
  | cons ch p ih =>
    rw [skipScalar] at h
    split at h
    · cases h
      exact suffix_refl _
    · exact (ih h).trans (suffix_cons ..)

theorem skipValue_suffix {p q : Text} (h : skipValue p = .ok q) : q <:+ p := by
  obtain ⟨p₁, spaces, h⟩ := of_bind_ok h
  refine List.IsSuffix.trans ?_ (skipWs_suffix spaces)
  cases p₁ with
  | nil => exact nomatch h
  | cons ch rest =>
    simp only at h
    split at h
    · exact nomatch h
    · split at h
      · exact (scanString_suffix h).1
      · split at h
        · exact (skipNested_suffix h).trans (suffix_cons ..)
        · split at h
          · exact nomatch h
          · exact (skipScalar_suffix h).trans (suffix_cons ..)

theorem skipMember_suffix {p q : Text} (h : skipMember p = .ok q) : q <:+ p := by
  obtain ⟨p₁, value, h⟩ := of_bind_ok h
  obtain ⟨p₂, spaces, h⟩ := of_bind_ok h
  exact ((expect_suffix h).1.trans (skipWs_suffix spaces)).trans (skipValue_suffix value)

/-- The loop of `json_scan_member_value`. -/
def findMember (key : CString) (p : Text) : Scan Text :=
  match p with
  | [] => .error .overrun
  | ch :: rest =>
    if ch = 0 then .error .null
    else
      match _h : scanMember (ch :: rest) with
      | .error stop => .error stop
      | .ok (member, value) =>
        if ¬member.truncated ∧ member.bytes = key.bytes then .ok value
        else
          match _h' : skipMember value with
          | .error stop => .error stop
          | .ok p => findMember key p
termination_by p.length
decreasing_by exact lt_of_le_of_lt (skipMember_suffix _h').length_le (scanMember_suffix _h).2

def memberValue (json : Text) (key : CString) : Scan Text :=
  if key.bytes = [] then .error .null
  else do
    let p ← skipWs json
    let p ← expect 0x7b p
    findMember key p

/-- `solar_os_json_scan_object_string`: whether it succeeds, and the buffer. -/
def objectString (json : Text) (key : CString) (size : Nat) : Bool × Out :=
  if size = 0 then (false, ⟨0, [], false⟩)
  else
    match memberValue json key with
    | .error _ => (false, ⟨size, [], false⟩)
    | .ok value =>
      if value.head? ≠ some 0x22 then (false, ⟨size, [], false⟩)
      else
        let (out, scanned) := scanString size value
        match scanned >>= skipWs with
        | .error _ => (false, out)
        | .ok p => (p.head? = some 0x2c || p.head? = some 0x7d, out)

/-- `%x` of a number below sixteen. -/
def hexDigit (n : UInt8) : UInt8 := if n < 10 then 0x30 + n else 0x57 + n

/-- What stands for a byte in `solar_os_json_escape_string`. -/
def escapeChunk (ch : UInt8) : List UInt8 :=
  if ch = 0x22 then [0x5c, 0x22]
  else if ch = 0x5c then [0x5c, 0x5c]
  else if ch = 0x08 then [0x5c, 0x62]
  else if ch = 0x0c then [0x5c, 0x66]
  else if ch = 0x0a then [0x5c, 0x6e]
  else if ch = 0x0d then [0x5c, 0x72]
  else if ch = 0x09 then [0x5c, 0x74]
  else if ch < 0x20 then [0x5c, 0x75, 0x30, 0x30, hexDigit (ch / 16), hexDigit (ch % 16)]
  else [ch]

/-- The loop of `solar_os_json_escape_string`, after that many bytes were written. -/
def escapeFrom (written : List UInt8) (outLen : Nat) : List UInt8 → Except EspErr (List UInt8)
  | [] => .ok written
  | ch :: source =>
    if written.length + (escapeChunk ch).length ≥ outLen then .error .invalidSize
    else escapeFrom (written ++ escapeChunk ch) outLen source

/-- `solar_os_json_escape_string`: the string in the buffer. -/
def escapeString (source : CString) (outLen : Nat) : Except EspErr (List UInt8) :=
  if outLen = 0 then .error .invalidArg else escapeFrom [] outLen source.bytes

variable {p : Text} {byte : UInt8}

theorem skipWs_within (live : 0 ∈ p) : Within p (skipWs p) := by
  induction p with
  | nil => exact nomatch live
  | cons ch p ih =>
    rw [skipWs]
    split
    · rename_i space
      have other : ch ≠ 0 := by
        rintro rfl
        exact absurd space (by decide)
      exact (ih (live_tail live other)).mono (suffix_cons ..)
    · exact within_self live

theorem skipDigits_within {n : Nat} (live : 0 ∈ p) : Within p (skipDigits n p) := by
  induction n generalizing p with
  | zero => exact within_self live
  | succ n ih =>
    cases p with
    | nil => exact nomatch live
    | cons ch p =>
      rw [skipDigits]
      split
      · exact within_null _
      · rename_i digit
        exact (ih (live_tail live fun nul => digit (.inl nul))).mono (suffix_cons ..)

theorem escapedByte_within (live : 0 ∈ p) : WithinValue p (escapedByte p) := by
  cases p with
  | nil => exact nomatch live
  | cons ch p =>
    rw [escapedByte]
    split
    · rename_i letter
      have other : ch ≠ 0 := by
        rintro rfl
        exact absurd letter (by decide)
      have digits := @skipDigits_within p 4 (live_tail live other)
      cases scanned : skipDigits 4 p with
      | error stop =>
        rw [scanned] at digits
        exact digits
      | ok q =>
        rw [scanned] at digits
        exact ⟨digits.1.trans (suffix_cons ..), digits.2⟩
    · split
      · rename_i known
        have other : ch ≠ 0 := by
          rintro rfl
          exact nomatch known
        exact ⟨suffix_cons .., live_tail live other⟩
      · exact within_null _

theorem stringByte_within (live : 0 ∈ p) : WithinValue p (stringByte p) := by
  cases p with
  | nil => exact nomatch live
  | cons ch p =>
    rw [stringByte]
    split
    · exact within_null _
    · rename_i other
      have later := live_tail live other
      split
      · exact ⟨suffix_cons .., later⟩
      · split
        · exact within_null _
        · split
          · exact (escapedByte_within later).mono (suffix_cons ..)
          · exact ⟨suffix_cons .., later⟩

theorem scanStringFrom_within {out : Out} (live : 0 ∈ p) : Within p (scanStringFrom out p).2 := by
  fun_induction scanStringFrom out p with
  | case1 out p stop read =>
    have within := stringByte_within live
    rw [read] at within
    exact within
  | case2 out p q read =>
    have within := stringByte_within live
    rw [read] at within
    exact within
  | case3 out p ch q read ih =>
    have within := stringByte_within live
    rw [read] at within
    exact (ih within.2).mono within.1

theorem scanString_within {size : Nat} (live : 0 ∈ p) : Within p (scanString size p).2 := by
  cases p with
  | nil => exact nomatch live
  | cons ch p =>
    rw [scanString]
    split
    · exact within_null _
    · rename_i quote
      have other : ch ≠ 0 := by
        rintro rfl
        exact quote (.inl (by decide))
      exact (scanStringFrom_within (live_tail live other)).mono (suffix_cons ..)

theorem skipNested_within {closing : List UInt8} (live : 0 ∈ p) : Within p (skipNested closing p) := by
  fun_induction skipNested closing p with
  | case1 => exact nomatch live
  | case2 => exact within_null _
  | case3 _ _ _ stop scanned =>
    have within := @scanString_within _ 1 live
    rw [scanned] at within
    exact within
  | case4 _ _ _ _ scanned ih =>
    have within := @scanString_within _ 1 live
    rw [scanned] at within
    exact (ih within.2).mono within.1
  | case5 => exact within_null _
  | case6 _ _ _ other _ _ _ ih => exact (ih (live_tail live other)).mono (suffix_cons ..)
  | case7 => exact within_null _
  | case8 => exact within_null _
  | case9 _ _ other => exact ⟨suffix_cons .., live_tail live other⟩
  | case10 _ _ other _ _ _ _ _ _ _ ih => exact (ih (live_tail live other)).mono (suffix_cons ..)
  | case11 _ _ _ other _ _ _ ih => exact (ih (live_tail live other)).mono (suffix_cons ..)

section
variable (live : 0 ∈ p)
include live

theorem skipScalar_within : Within p (skipScalar p) := by
  induction p with
  | nil => exact nomatch live
  | cons ch p ih =>
    rw [skipScalar]
    split
    · exact within_self live
    · rename_i other
      exact (ih (live_tail live fun nul => other (.inl nul))).mono (suffix_cons ..)

theorem skipValue_within : Within p (skipValue p) := by
  refine (skipWs_within live).bind fun q _ live => ?_
  cases q with
  | nil => exact nomatch live
  | cons ch rest =>
    simp only
    split
    · exact within_null _
    · rename_i other
      have later := live_tail live other
      split
      · exact scanString_within live
      · split
        · exact (skipNested_within later).mono (suffix_cons ..)
        · split
          · exact within_null _
          · exact (skipScalar_within later).mono (suffix_cons ..)

theorem expect_within (other : byte ≠ 0) : Within p (expect byte p) := by
  cases p with
  | nil => exact nomatch live
  | cons ch p =>
    rw [expect]
    split
    · rename_i same
      exact ⟨suffix_cons .., live_tail live (same ▸ other)⟩
    · exact within_null _

theorem skipMember_within : Within p (skipMember p) :=
  (skipValue_within live).bind fun _ _ live => (skipWs_within live).bind fun _ _ live => expect_within live (by decide)

theorem scanMember_within : WithinValue p (scanMember p) := by
  refine (skipWs_within live).bindValue fun q _ live => ?_
  split
  · exact within_null _
  · exact (scanString_within live).bindValue fun _ _ live => (skipWs_within live).bindValue fun _ _ live =>
      (expect_within live (by decide)).bindValue fun _ _ live => (skipWs_within live).bindValue fun r _ live =>
        within_self live

end

theorem findMember_within {key : CString} (live : 0 ∈ p) : Within p (findMember key p) := by
  fun_induction findMember key p with
  | case1 => exact nomatch live
  | case2 => exact within_null _
  | case3 ch rest _ stop scanned =>
    have within := scanMember_within live
    rw [scanned] at within
    exact within
  | case4 ch rest _ member value scanned =>
    have within := scanMember_within live
    rw [scanned] at within
    exact within
  | case5 ch rest _ member value scanned _ stop skipped =>
    have within := scanMember_within live
    rw [scanned] at within
    have within' := skipMember_within within.2
    rw [skipped] at within'
    exact within'
  | case6 ch rest _ member value scanned _ q skipped ih =>
    have within := scanMember_within live
    rw [scanned] at within
    have within' := skipMember_within within.2
    rw [skipped] at within'
    exact ((ih within'.2).mono within'.1).mono within.1

theorem memberValue_within (key : CString) (live : 0 ∈ p) : Within p (memberValue p key) := by
  rw [memberValue]
  split
  · exact within_null _
  · exact (skipWs_within live).bind fun _ _ live => (expect_within live (by decide)).bind fun _ _ live =>
      findMember_within live

end SolarOs.Json
