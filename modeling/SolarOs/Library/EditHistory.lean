import Mathlib.Data.List.Basic

/-! Texts linked by edits: what replacing a span does, when two edits in a row are
one, and which changes keep a recorded history applicable. -/
namespace EditHistory
open List

variable {α : Type*}

/-- `text` with `count` elements at `offset` replaced. -/
def splice (text : List α) (offset count : Nat) (insert : List α) : List α :=
  text.take offset ++ insert ++ text.drop (offset + count)

structure Edit (α : Type*) where
  offset : Nat
  removed : List α
  inserted : List α

def Edit.Leads (e : Edit α) (t t' : List α) : Prop :=
  ∃ before after, before.length = e.offset ∧ t = before ++ e.removed ++ after ∧
    t' = before ++ e.inserted ++ after

variable {e : Edit α} {first second t t' t'' : List α} {texts : List (List α)} {edits : List (Edit α)}

theorem Edit.Leads.splice {t t' : List α} (h : e.Leads t t') : splice t e.offset e.removed.length e.inserted = t' := by
  obtain ⟨before, after, hlength, rfl, rfl⟩ := h
  have front : (before ++ e.removed ++ after).take e.offset = before := by
    rw [append_assoc, ← hlength, take_left]
  have back : (before ++ e.removed ++ after).drop (e.offset + e.removed.length) = after := by
    rw [← hlength, ← length_append, drop_left]
  rw [EditHistory.splice, front, back]

def Edit.inverse (e : Edit α) : Edit α where
  offset := e.offset
  removed := e.inserted
  inserted := e.removed

theorem Edit.Leads.inverse {t t' : List α} (h : e.Leads t t') : e.inverse.Leads t' t := by
  obtain ⟨before, after, hlength, ht, ht'⟩ := h
  exact ⟨before, after, hlength, ht', ht⟩

theorem Edit.Leads.le_length {t t' : List α} (h : e.Leads t t') : e.offset + e.removed.length ≤ t.length := by
  obtain ⟨before, after, hlength, rfl, -⟩ := h
  simp only [length_append]
  omega

inductive Chain : List (List α) → List (Edit α) → Prop
  | single (t : List α) : Chain [t] []
  | cons {e : Edit α} {t t' : List α} {texts : List (List α)} {edits : List (Edit α)}
      (lead : e.Leads t t') (rest : Chain (t' :: texts) edits) : Chain (t :: t' :: texts) (e :: edits)

theorem Chain.length (h : Chain texts edits) : texts.length = edits.length + 1 := by
  induction h with
  | single t => rfl
  | cons _ _ ih => simp only [length_cons, ih]

theorem Chain.leads (h : Chain texts edits) {i : Nat} (he : edits[i]? = some e) :
    ∃ t t', texts[i]? = some t ∧ texts[i + 1]? = some t' ∧ e.Leads t t' := by
  induction h generalizing i with
  | single t => cases he
  | @cons e' t t' texts edits lead rest ih =>
    cases i with
    | zero =>
      cases he
      exact ⟨t, t', rfl, rfl, lead⟩
    | succ i => exact ih he

theorem Chain.take (h : Chain texts edits) (n : Nat) : Chain (texts.take (n + 1)) (edits.take n) := by
  induction h generalizing n with
  | single t => simpa using Chain.single t
  | @cons e t t' texts edits lead rest ih =>
    cases n with
    | zero => simpa using Chain.single t
    | succ n =>
      have shorter := ih n
      rw [take_succ_cons] at shorter ⊢
      exact .cons lead shorter

theorem Chain.tail (h : Chain texts (e :: edits)) : Chain texts.tail edits := by
  cases h with
  | cons _ rest => exact rest

theorem Chain.snoc {t t' : List α} (h : Chain texts edits) (hlast : texts.getLast? = some t) (lead : e.Leads t t') :
    Chain (texts ++ [t']) (edits ++ [e]) := by
  induction h with
  | single t₀ =>
    cases hlast
    exact .cons lead (.single t')
  | cons lead' _ ih => exact .cons lead' (ih (by simpa using hlast))

theorem Chain.relast {e e' : Edit α} {t'' : List α} (h : Chain texts (edits ++ [e]))
    (further : ∀ t t', e.Leads t t' → texts.getLast? = some t' → e'.Leads t t'') :
    Chain (texts.dropLast ++ [t'']) (edits ++ [e']) := by
  induction edits generalizing texts with
  | nil =>
    cases h with
    | @cons _ t t' rest _ lead tail =>
      cases tail
      exact .cons (further t t' lead rfl) (.single t'')
  | cons first edits ih =>
    cases h with
    | @cons _ t t' rest _ lead tail =>
      have shorter := ih tail fun s s' hs hlast => further s s' hs (by simpa using hlast)
      cases rest with
      | nil =>
        have := tail.length
        simp at this
      | cons t₂ rest => exact .cons lead (by simpa using shorter)

end EditHistory
