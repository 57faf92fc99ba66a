import SolarOs.Json.Members

/-! What is escaped is scanned back, but for the control bytes that have no escape with one
letter. -/
namespace SolarOs.Json
open TextScan JsonGrammar List

def byCodePoint (ch : UInt8) : Bool := ch < 0x20 && !(ch ∈ [0x08, 0x09, 0x0a, 0x0c, (0x0d : UInt8)])

def restored (ch : UInt8) : UInt8 := if byCodePoint ch then 0x3f else ch

variable {t : Text} {v : List (Option UInt8)}

theorem chars_escapeChunk (ch : UInt8) (chars : Chars t v) :
    Chars (escapeChunk ch ++ t) ((if byCodePoint ch then none else some ch) :: v) := by
  have letter : ∀ {e : UInt8}, byCodePoint ch = false → (e, ch) ∈ escapes →
      Chars ([0x5c, e] ++ t) ((if byCodePoint ch then none else some ch) :: v) := by
    intro e kept known
    rw [kept]
    exact .escape known chars
  unfold escapeChunk
  -- the seven bytes with a letter of their own
  iterate 7
    split
    · rename_i same
      subst same
      exact letter rfl (by decide)
  rename_i quote backslash b f n r tab
  split
  · rename_i control
    have point : byCodePoint ch = true := by
      simp [byCodePoint, control, b, f, n, r, tab]
    have hex : ∀ k < 0x20, isHex (hexDigit (UInt8.ofNat k / 16)) = true ∧ isHex (hexDigit (UInt8.ofNat k % 16)) = true := by
      decide
    have digits := hex ch.toNat (UInt8.lt_iff_toNat_lt.mp control)
    rw [UInt8.ofNat_toNat] at digits
    rw [point]
    refine .codePoint ?_ chars
    simp only [mem_cons, not_mem_nil, or_false]
    rintro h (rfl | rfl | rfl | rfl)
    · rfl
    · rfl
    · exact digits.1
    · exact digits.2
  · rename_i low
    have kept : byCodePoint ch = false := by
      simp [byCodePoint, low]
    rw [kept]
    exact .raw (UInt8.not_lt.mp low) quote backslash chars

theorem chars_escape (source : List UInt8) :
    Chars (source.flatMap escapeChunk) (source.map fun ch => if byCodePoint ch then none else some ch) := by
  induction source with
  | nil => exact .nil
  | cons ch source ih =>
    rw [flatMap_cons]
    exact chars_escapeChunk ch ih

theorem scanned_escape (source : List UInt8) :
    scanned (source.map fun ch => if byCodePoint ch then none else some ch) = source.map restored := by
  rw [scanned, map_map]
  refine map_congr_left fun ch _ => ?_
  simp only [Function.comp, restored]
  split <;> rfl

theorem escapeFrom_ok {written source e : List UInt8} {outLen : Nat}
    (h : escapeFrom written outLen source = .ok e) : e = written ++ source.flatMap escapeChunk := by
  induction source generalizing written with
  | nil =>
    cases h
    simp
  | cons ch source ih =>
    rw [escapeFrom] at h
    split at h
    · exact nomatch h
    · rw [ih h, append_assoc, flatMap_cons]

theorem escapeString_ok {source : CString} {outLen : Nat} {e : List UInt8} (h : escapeString source outLen = .ok e) :
    e = source.bytes.flatMap escapeChunk := by
  rw [escapeString] at h
  split at h
  · exact nomatch h
  · exact escapeFrom_ok h

def Printable (ch : UInt8) : Prop := 0x20 ≤ ch ∧ ch ≤ 0x7e ∧ ch ≠ 0x22 ∧ ch ≠ 0x5c

instance (ch : UInt8) : Decidable (Printable ch) := inferInstanceAs (Decidable (_ ∧ _))

theorem chars_printable {bytes : List UInt8} (printable : ∀ ch ∈ bytes, Printable ch) : Chars bytes (bytes.map some) := by
  induction bytes with
  | nil => exact .nil
  | cons ch bytes ih =>
    obtain ⟨low, -, quote, backslash⟩ := printable ch mem_cons_self
    exact .raw low quote backslash (ih fun c h => printable c (mem_cons_of_mem _ h))

def objectOf (key value : List UInt8) : Text := 0x7b :: (quoted key ++ 0x3a :: (quoted value ++ [0x7d, 0]))

theorem objectString_escaped (source key : CString) {size : Nat} (printable : ∀ ch ∈ key.bytes, Printable ch)
    (some : key.bytes ≠ []) (short : key.strlen ≤ 63) (room : source.strlen < size) :
    objectString (objectOf key.bytes (source.bytes.flatMap escapeChunk)) key size =
      (true, ⟨size, source.bytes.map restored, false⟩) := by
  have chars := chars_escape source.bytes
  let m : Member 0 := ⟨[], key.bytes, key.bytes.map .some, [], [], quoted (source.bytes.flatMap escapeChunk), [],
    ⟨nofun, nofun, nofun, nofun⟩, chars_printable printable, .string chars⟩
  have known : ∀ m' ∈ [m], none ∉ m'.name := by
    intro m' h
    rw [mem_singleton.mp h]
    simp [m]
  have found := @memberValue_inside _ 0 key some short (Nat.zero_le _) [m] [] nofun (.some m []) known [0]
  have text : [] ++ 0x7b :: (body m [] ++ [0]) = objectOf key.bytes (source.bytes.flatMap escapeChunk) := by
    simp [m, body, following, Member.lead, objectOf]
  have value : valueOf (key.bytes.map .some) [m] = .some (quoted (source.bytes.flatMap escapeChunk) ++ [0x7d]) := by
    simp [m, valueOf, following]
  rw [text, value] at found
  have positive : size ≠ 0 := by omega
  have read := scanString_quoted chars positive [0x7d, 0]
  rw [scanned_escape] at read
  have fits : ([] : List UInt8).length + (source.bytes.map restored).length < size := by
    rw [length_nil, Nat.zero_add, length_map]
    exact room
  rw [put_fits _ fits, nil_append] at read
  rw [objectString, if_neg positive, found]
  simp only [append_assoc, singleton_append]
  rw [read]
  rfl

theorem map_restored_iff (bytes : List UInt8) : bytes.map restored = bytes ↔ ∀ ch ∈ bytes, byCodePoint ch = false := by
  have one : ∀ ch, restored ch = ch ↔ byCodePoint ch = false := by
    intro ch
    rw [restored]
    cases point : byCodePoint ch with
    | false => simp
    | true =>
      refine iff_of_false (fun same => ?_) (by decide)
      rw [if_pos rfl] at same
      exact absurd (same ▸ point) (by decide)
  induction bytes with
  | nil => simp
  | cons ch bytes ih => simp [one, ih]

/-- A string that was escaped into an object is scanned back whole, with a question mark for
every byte that was escaped by its code point. -/
theorem escape_scan (source key : CString) (outLen size : Nat) (e : List UInt8)
    (printable : ∀ ch ∈ key.bytes, Printable ch) (some : key.bytes ≠ []) (short : key.strlen ≤ 63)
    (escaped : escapeString source outLen = .ok e) (room : source.strlen < size) :
    objectString (objectOf key.bytes e) key size = (true, ⟨size, source.bytes.map restored, false⟩) ∧
      (source.bytes.map restored = source.bytes ↔ ∀ ch ∈ source.bytes, byCodePoint ch = false) := by
  rw [escapeString_ok escaped]
  exact ⟨objectString_escaped source key printable some short room, map_restored_iff source.bytes⟩

/-- A line break and a quote. -/
theorem escape_scan_line : objectString (objectOf [0x6b] [0x5c, 0x6e, 0x5c, 0x22]) ⟨[0x6b], by decide⟩ 3 =
      (true, ⟨3, [0x0a, 0x22], false⟩) :=
  (escape_scan ⟨[0x0a, 0x22], by decide⟩ ⟨[0x6b], by decide⟩ 5 3 [0x5c, 0x6e, 0x5c, 0x22] (by decide)
    (cons_ne_nil _ _) (by decide) (by decide) (by decide)).1

/-- The byte 1 is escaped, and a question mark is scanned. -/
theorem escape_scan_control : escapeString ⟨[0x01], by decide⟩ 8 = .ok [0x5c, 0x75, 0x30, 0x30, 0x30, 0x31] ∧
      objectString (objectOf [0x6b] [0x5c, 0x75, 0x30, 0x30, 0x30, 0x31]) ⟨[0x6b], by decide⟩ 8 =
        (true, ⟨8, [0x3f], false⟩) :=
  ⟨rfl, objectString_escaped ⟨[0x01], by decide⟩ ⟨[0x6b], by decide⟩ (by decide) (cons_ne_nil _ _) (by decide)
    (by decide)⟩

end SolarOs.Json
