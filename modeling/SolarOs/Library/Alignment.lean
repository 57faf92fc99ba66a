import Mathlib.Order.Lattice.Nat

/-! Two lists aligned from left to right by keeping, replacing, deleting and inserting letters
and by exchanging neighbours, and the least cost of doing so. -/

variable {α : Type*}

inductive Edits : List α → List α → Nat → Prop
  | nil : Edits [] [] 0
  | keep {s t : List α} {n : Nat} (h : Edits s t n) (a : α) : Edits (s ++ [a]) (t ++ [a]) n
  | substitute {s t : List α} {n : Nat} (h : Edits s t n) (a b : α) : Edits (s ++ [a]) (t ++ [b]) (n + 1)
  | delete {s t : List α} {n : Nat} (h : Edits s t n) (a : α) : Edits (s ++ [a]) t (n + 1)
  | insert {s t : List α} {n : Nat} (h : Edits s t n) (b : α) : Edits s (t ++ [b]) (n + 1)
  | transpose {s t : List α} {n : Nat} (h : Edits s t n) (a b : α) : Edits (s ++ [a, b]) (t ++ [b, a]) (n + 1)

namespace Edits
open List

variable {s t : List α} {m n : Nat} {a b : α}

theorem symm (h : Edits s t n) : Edits t s n := by
  induction h with
  | nil => exact nil
  | keep h a ih => exact ih.keep a
  | substitute h a b ih => exact ih.substitute b a
  | delete h a ih => exact ih.insert a
  | insert h b ih => exact ih.delete b
  | transpose h a b ih => exact ih.transpose b a

theorem length_le (h : Edits s t n) : s.length ≤ t.length + n ∧ t.length ≤ s.length + n := by
  induction h with
  | nil => exact ⟨Nat.le_refl 0, Nat.le_refl 0⟩
  | keep h a ih | substitute h a b ih | delete h a ih | insert h b ih | transpose h a b ih =>
    simp only [length_append, length_cons, length_nil]
    omega

theorem ends {u v : List α} (h : Edits u v m) (left : u = s ++ [a]) (right : v = t ++ [b]) : a = b ∧ Edits s t m ∨
      ∃ n, m = n + 1 ∧ (Edits s t n ∨ Edits s (t ++ [b]) n ∨ Edits (s ++ [a]) t n ∨
        ∃ s' t', s = s' ++ [b] ∧ t = t' ++ [a] ∧ Edits s' t' n) := by
  cases h with
  | nil => exact absurd left.symm (append_ne_nil_of_right_ne_nil s (cons_ne_nil a []))
  | keep h x =>
    obtain ⟨rfl, last⟩ := append_inj' left rfl
    obtain ⟨rfl, last'⟩ := append_inj' right rfl
    exact .inl ⟨head_eq_of_cons_eq (last.symm.trans last'), h⟩
  | substitute h x y =>
    obtain ⟨rfl, -⟩ := append_inj' left rfl
    obtain ⟨rfl, -⟩ := append_inj' right rfl
    exact .inr ⟨_, rfl, .inl h⟩
  | delete h x =>
    obtain ⟨rfl, -⟩ := append_inj' left rfl
    exact .inr ⟨_, rfl, .inr (.inl (right ▸ h))⟩
  | insert h y =>
    obtain ⟨rfl, -⟩ := append_inj' right rfl
    exact .inr ⟨_, rfl, .inr (.inr (.inl (left ▸ h)))⟩
  | @transpose s' t' n h x y =>
    have left : (s' ++ [x]) ++ [y] = s ++ [a] := by rw [append_assoc]; exact left
    have right : (t' ++ [y]) ++ [x] = t ++ [b] := by rw [append_assoc]; exact right
    obtain ⟨rfl, last⟩ := append_inj' left rfl
    obtain ⟨rfl, last'⟩ := append_inj' right rfl
    cases last
    cases last'
    exact .inr ⟨_, rfl, .inr (.inr (.inr ⟨s', t', rfl, rfl, h⟩))⟩

noncomputable def distance (s t : List α) : Nat := sInf {n | Edits s t n}

end Edits
