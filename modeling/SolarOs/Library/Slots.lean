import Mathlib.Algebra.BigOperators.Group.Finset.Piecewise
import Mathlib.Data.Finset.Card
import Mathlib.Data.Fintype.Card
import Mathlib.Data.List.FinRange
import Mathlib.Logic.Function.Basic

/-! Tables with a fixed number of slots, each empty or holding a record. -/

abbrev Slots (n : Nat) (α : Type*) := Fin n → Option α

namespace Slots
open Function Finset

variable {n : Nat} {α κ : Type*} {s : Slots n α}

def empty : Slots n α := fun _ => none

section
variable (s : Slots n α)

variable (want : α → Bool)

def find : Option (Fin n) :=
  (List.finRange n).find? fun i => (s i).any want

def free : Option (Fin n) := (List.finRange n).find? fun i => (s i).isNone

def put (i : Fin n) (a : α) : Slots n α := update s i (some a)

def clear (i : Fin n) : Slots n α := update s i none

def modify (i : Fin n) (f : α → α) : Slots n α := update s i ((s i).map f)

def change (f : α → α) : Slots n α :=
  fun i => (s i).map fun a => if want a then f a else a

def drop : Slots n α := fun i => (s i).filter fun a => !want a

def tally : Nat :=
  (Finset.univ.filter fun i => (s i).any want).card

def count : Nat := s.tally fun _ => true

def Holds (a : α) : Prop := ∃ i, s i = some a

def Distinct (key : α → κ) : Prop :=
  ∀ i j a b, s i = some a → s j = some b → key a = key b → i = j

end

section
variable {want : α → Bool}

variable {i : Fin n}

theorem find_some (h : s.find want = some i) : ∃ a, s i = some a ∧ want a = true := by
  have hit := List.find?_some h
  cases hi : s i with
  | none => simp [hi] at hit
  | some a =>
    rw [hi] at hit
    exact ⟨a, rfl, hit⟩

theorem find_none (h : s.find want = none) {a : α} (hi : s i = some a) : want a = false := by
  have miss := List.find?_eq_none.mp h i (List.mem_finRange i)
  rw [hi] at miss
  simpa using miss

theorem find_isSome (want : α → Bool) {a : α} (hi : s i = some a)
    (wanted : want a = true) : ∃ j, s.find want = some j := by
  cases h : s.find want with
  | none => simp [find_none h hi] at wanted
  | some j => exact ⟨j, rfl⟩

theorem free_some (h : s.free = some i) : s i = none := by
  simpa using List.find?_some h

theorem free_none (h : s.free = none) (i : Fin n) : ∃ a, s i = some a := by
  have full := List.find?_eq_none.mp h i (List.mem_finRange i)
  cases hi : s i with
  | none => simp [hi] at full
  | some a => exact ⟨a, rfl⟩

@[simp] theorem put_same (i : Fin n) (a : α) : s.put i a i = some a := update_self ..

theorem put_of_ne {i j : Fin n} (h : j ≠ i) (a : α) : s.put i a j = s j := update_of_ne h ..

theorem put_apply (i j : Fin n) (a : α) : s.put i a j = if j = i then some a else s j :=
  update_apply ..

@[simp] theorem clear_same (i : Fin n) : s.clear i i = none := update_self ..

theorem clear_of_ne {i j : Fin n} (h : j ≠ i) : s.clear i j = s j := update_of_ne h ..

theorem clear_apply (i j : Fin n) : s.clear i j = if j = i then none else s j :=
  update_apply ..

theorem clear_some {i j : Fin n} {a : α} : s.clear i j = some a ↔ j ≠ i ∧ s j = some a := by
  rw [clear_apply]
  split <;> simp_all

theorem modify_apply (i j : Fin n) (f : α → α) : s.modify i f j = if j = i then (s j).map f else s j := by
  rw [modify, update_apply]
  split
  · rename_i same
    rw [same]
  · rfl

theorem drop_some {a : α} : s.drop want i = some a ↔ s i = some a ∧ want a = false := by
  simp [drop, Option.filter_eq_some_iff]

theorem change_some {f : α → α} {b : α} :
    s.change want f i = some b ↔ ∃ a, s i = some a ∧ (if want a then f a else a) = b := by
  simp [change]

end

theorem tally_update (want : α → Bool) (i : Fin n) (x : Option α) :
    tally (update s i x) want + (if (s i).any want then 1 else 0) =
      s.tally want + (if x.any want then 1 else 0) := by
  have others : ∑ j ∈ Finset.univ.erase i, (if (update s i x j).any want then 1 else 0) =
      ∑ j ∈ Finset.univ.erase i, if (s j).any want then 1 else 0 :=
    sum_congr rfl fun j hj => by rw [update_of_ne (ne_of_mem_erase hj)]
  rw [tally, tally, card_filter, card_filter,
    ← add_sum_erase _ _ (mem_univ i), ← add_sum_erase _ _ (mem_univ i),
    others, update_self]
  omega

theorem count_put {i : Fin n} (h : s i = none) (a : α) : (s.put i a).count = s.count + 1 := by
  have := tally_update (s := s) (fun _ => true) i (some a)
  rw [h] at this
  exact this

theorem count_clear {i : Fin n} {a : α} (h : s i = some a) : (s.clear i).count + 1 = s.count := by
  have := tally_update (s := s) (fun _ => true) i none
  rw [h] at this
  exact this

theorem count_congr {t : Slots n α} (h : ∀ i, (t i).isSome = (s i).isSome) : t.count = s.count := by
  unfold count tally
  congr 1
  ext i
  cases hs : s i <;> cases ht : t i <;> simp_all

theorem count_drop (want : α → Bool) : (s.drop want).count + s.tally want = s.count := by
  have split : (Finset.univ.filter fun i => (s i).any fun _ => true) =
      (Finset.univ.filter fun i => (s.drop want i).any fun _ => true) ∪
        (Finset.univ.filter fun i => (s i).any want) := by
    ext i
    cases hi : s i with
    | none => simp [drop, hi]
    | some a => cases hw : want a <;> simp [drop, hi, hw]
  have apart : Disjoint (Finset.univ.filter fun i => (s.drop want i).any fun _ => true)
      (Finset.univ.filter fun i => (s i).any want) := by
    rw [disjoint_filter]
    intro i _ kept
    cases hi : s i with
    | none => simp
    | some a => cases hw : want a <;> simp_all [drop]
  unfold count
  rw [tally, tally, tally, split, card_union_of_disjoint apart]

variable {key : α → κ}

theorem Distinct.replace (h : s.Distinct key) {i : Fin n} {a : α}
    (fresh : ∀ j b, j ≠ i → s j = some b → key b ≠ key a) : (s.put i a).Distinct key := by
  intro j k b c hj hk same
  rw [put_apply] at hj hk
  split at hj <;> split at hk
  · rename_i hji hki
    exact hji.trans hki.symm
  · rename_i hki
    cases hj
    exact absurd same.symm (fresh k c hki hk)
  · rename_i hji _
    cases hk
    exact absurd same (fresh j b hji hj)
  · exact h j k b c hj hk same

theorem Distinct.put (h : s.Distinct key) {i : Fin n} {a : α}
    (fresh : ∀ j b, s j = some b → key b ≠ key a) : (s.put i a).Distinct key :=
  h.replace fun j b _ => fresh j b

theorem Distinct.of_keys (h : s.Distinct key) {t : Slots n α}
    (old : ∀ i b, t i = some b → ∃ a, s i = some a ∧ key a = key b) : t.Distinct key := by
  intro i j b c hi hj same
  obtain ⟨a, ha, hab⟩ := old i b hi
  obtain ⟨d, hd, hdc⟩ := old j c hj
  exact h i j a d ha hd (by rw [hab, hdc, same])

theorem Distinct.find_eq [DecidableEq κ] (h : s.Distinct key) {i j : Fin n} {a : α} {k : κ}
    (hj : s.find (fun b => key b = k) = some j) (hi : s i = some a) (ha : key a = k) : i = j := by
  obtain ⟨b, hb, same⟩ := find_some hj
  exact h i j a b hi hb (ha.trans (of_decide_eq_true same).symm)

end Slots
