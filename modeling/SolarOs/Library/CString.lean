import Mathlib.Data.List.Basic
import Mathlib.Data.List.Infix

/-! Strings of bytes that end at the first zero byte, and the classes of bytes of the C locale. -/

-- What holds of the bytes of a string is decided along the string, not over all the bytes there are.
instance (priority := 1100) decidableForallMem {α : Type} {p : α → Prop} [DecidablePred p] (l : List α) : Decidable (∀ a ∈ l, p a) :=
  List.decidableBAll p l

structure CString where
  bytes : List UInt8
  noNul : ∀ b ∈ bytes, b ≠ 0
  deriving DecidableEq

namespace CString

def strlen (s : CString) : Nat := s.bytes.length

/-- The length, but never more than `max`. -/
def strnlen (s : CString) (max : Nat) : Nat := min s.bytes.length max

/-- What fits a buffer of `size` bytes, the terminator included. -/
def strlcpy (s : CString) (size : Nat) : CString where
  bytes := s.bytes.take (size - 1)
  noNul := fun b hb => s.noNul b (List.mem_of_mem_take hb)

def ofBytes (bytes : List UInt8) : CString where
  bytes := bytes.takeWhile (· ≠ 0)
  noNul := fun b hb => by
    simpa using List.all_eq_true.mp List.all_takeWhile b hb

def empty : CString where
  bytes := []
  noNul := by simp

theorem ext_bytes {s t : CString} (h : s.bytes = t.bytes) : s = t := by
  cases s
  cases t
  cases h
  rfl

theorem strlcpy_of_lt {s : CString} {size : Nat} (h : s.strlen < size) : s.strlcpy size = s := by
  apply ext_bytes
  exact List.take_of_length_le (by unfold strlen at h; omega)

end CString

namespace Ctype

def isSpace (ch : UInt8) : Bool := ch = 0x20 || (0x09 ≤ ch && ch ≤ 0x0d)

def isDigit (ch : UInt8) : Bool := 0x30 ≤ ch && ch ≤ 0x39

def isAlpha (ch : UInt8) : Bool := (0x41 ≤ ch && ch ≤ 0x5a) || (0x61 ≤ ch && ch ≤ 0x7a)

def toLower (ch : UInt8) : UInt8 := if 0x41 ≤ ch ∧ ch ≤ 0x5a then ch + 0x20 else ch

end Ctype

/-! Scanners of a text in memory that ends with a zero byte. A pointer into the text is what
is left of it; reading where nothing is left is an overrun. -/
namespace TextScan

abbrev Text := List UInt8

/-- Why a scanner gives no pointer: it returned none, or it read past the end of the memory. -/
inductive Stop where
  | null
  | overrun
  deriving DecidableEq, Repr

abbrev Scan := Except Stop

theorem ok_bind {α β : Type} (a : α) (f : α → Scan β) : ((.ok a : Scan α) >>= f) = f a := rfl

def Within (p : Text) : Scan Text → Prop
  | .ok q => q <:+ p ∧ 0 ∈ q
  | .error stop => stop = .null

def WithinValue {α : Type} (p : Text) (x : Scan (α × Text)) : Prop := Within p (x.map Prod.snd)

section Within

variable {p q : Text} {x : Scan Text} {f : Text → Scan Text} {byte : UInt8}

theorem within_null (p : Text) : Within p (.error .null) := rfl

theorem within_self (live : 0 ∈ p) : Within p (.ok p) := ⟨List.suffix_refl p, live⟩

theorem Within.mono (h : Within q x) (suffix : q <:+ p) : Within p x := by
  cases x with
  | error stop => exact h
  | ok r => exact ⟨h.1.trans suffix, h.2⟩

theorem Within.bind (h : Within p x) (next : ∀ q, q <:+ p → 0 ∈ q → Within q (f q)) : Within p (x >>= f) := by
  cases x with
  | error stop => exact h
  | ok q => exact (next q h.1 h.2).mono h.1

theorem Within.bindValue {α : Type} {f : Text → Scan (α × Text)} (h : Within p x)
    (next : ∀ q, q <:+ p → 0 ∈ q → WithinValue q (f q)) : WithinValue p (x >>= f) := by
  cases x with
  | error stop => exact h
  | ok q => exact (next q h.1 h.2).mono h.1

theorem Within.ne_overrun (h : Within p x) : x ≠ .error .overrun := by
  rintro rfl
  exact nomatch (show Stop.overrun = .null from h)

theorem live_tail (live : 0 ∈ byte :: p) (other : byte ≠ 0) : 0 ∈ p := by
  rcases List.mem_cons.mp live with nul | later
  · exact absurd nul.symm other
  · exact later

end Within

end TextScan

def CString.text (s : CString) : TextScan.Text := s.bytes ++ [0]

theorem CString.text_live (s : CString) : 0 ∈ s.text := List.mem_append_right _ List.mem_cons_self
