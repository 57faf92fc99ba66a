import Mathlib.Data.List.Basic
import Mathlib.Data.List.Nodup

/-! Singly linked lists in a store: what is met from a pointer on along `next`, and what
stays of it when an element is taken out. -/
namespace LinkedList
open List

variable {κ : Type*} {next next' : κ → Option κ} {start : Option κ} {xs ys : List κ} {x : κ}

/-- From `start` on one meets these elements, and then the end. -/
def Chain (next : κ → Option κ) : Option κ → List κ → Prop
  | start, [] => start = none
  | start, x :: xs => start = some x ∧ Chain next (next x) xs

/-- The first of at most `fuel` elements that passes the test. -/
def find (next : κ → Option κ) (test : κ → Bool) : Nat → Option κ → Option κ
  | 0, _ => none
  | _ + 1, none => none
  | fuel + 1, some x => if test x then some x else find next test fuel (next x)

/-- At most `fuel` elements from a pointer on. -/
def toList (next : κ → Option κ) : Nat → Option κ → List κ
  | 0, _ => []
  | _ + 1, none => []
  | fuel + 1, some x => x :: toList next fuel (next x)

/-- The element before `x` among at most `fuel`, where `previous` is before the first one;
nothing when `x` is not met. -/
def before [DecidableEq κ] (next : κ → Option κ) (x : κ) :
    Nat → Option κ → Option κ → Option (Option κ)
  | 0, _, _ => none
  | _ + 1, _, none => none
  | fuel + 1, previous, some y =>
    if y = x then some previous else before next x fuel (some y) (next y)

theorem Chain.unique (h : Chain next start xs) (h' : Chain next start ys) : xs = ys := by
  induction xs generalizing start ys with
  | nil =>
    cases ys with
    | nil => rfl
    | cons y ys => exact nomatch h.symm.trans h'.1
  | cons x xs ih =>
    cases ys with
    | nil => exact nomatch h.1.symm.trans h'
    | cons y ys =>
      obtain rfl : x = y := Option.some.inj (h.1.symm.trans h'.1)
      rw [ih h.2 h'.2]

theorem Chain.head (h : Chain next start xs) : start = xs.head? := by
  cases xs with
  | nil => exact h
  | cons x xs => exact h.1

theorem Chain.rest (h : Chain next start (xs ++ x :: ys)) : Chain next (next x) ys := by
  induction xs generalizing start with
  | nil => exact h.2
  | cons y xs ih => exact ih h.2

theorem Chain.suffix (h : Chain next start (xs ++ ys)) : Chain next ys.head? ys := by
  induction xs generalizing start with
  | nil =>
    have first : start = ys.head? := h.head
    rw [← first]
    exact h
  | cons x xs ih => exact ih h.2

theorem Chain.nodup (h : Chain next start xs) : xs.Nodup := by
  induction xs generalizing start with
  | nil => exact nodup_nil
  | cons x xs ih =>
    refine nodup_cons.mpr ⟨fun again => ?_, ih h.2⟩
    -- met again, `x` would be followed by all that follows it the first time
    obtain ⟨first, last, rfl⟩ := append_of_mem again
    have same : first ++ x :: last = last := h.2.unique h.2.rest
    have length := congrArg List.length same
    rw [length_append, length_cons] at length
    omega

theorem Chain.congr (h : Chain next start xs) (same : ∀ y ∈ xs, next' y = next y) : Chain next' start xs := by
  induction xs generalizing start with
  | nil => exact h
  | cons x xs ih =>
    refine ⟨h.1, ?_⟩
    rw [same x mem_cons_self]
    exact ih h.2 fun y there => same y (mem_cons_of_mem _ there)

theorem Chain.toList (h : Chain next start xs) {fuel : Nat} (enough : xs.length ≤ fuel) :
    LinkedList.toList next fuel start = xs := by
  induction xs generalizing start fuel with
  | nil =>
    rw [show start = none from h]
    cases fuel <;> rfl
  | cons x xs ih =>
    cases fuel with
    | zero => exact absurd enough (Nat.not_succ_le_zero _)
    | succ fuel => rw [h.1, LinkedList.toList, ih h.2 (Nat.le_of_succ_le_succ enough)]

section Unlink
variable [DecidableEq κ]

theorem Chain.before (h : Chain next start (xs ++ x :: ys)) (previous : Option κ) {fuel : Nat}
    (enough : xs.length < fuel) : LinkedList.before next x fuel previous start = some (xs.getLast?.or previous) := by
  induction xs generalizing start previous fuel with
  | nil =>
    cases fuel with
    | zero => exact absurd enough (Nat.not_lt_zero _)
    | succ fuel =>
      rw [h.1, LinkedList.before, if_pos rfl]
      rfl
  | cons y xs ih =>
    have other : y ≠ x := by
      rintro rfl
      exact (nodup_cons.mp h.nodup).1 (mem_append_right _ mem_cons_self)
    cases fuel with
    | zero => exact absurd enough (Nat.not_lt_zero _)
    | succ fuel =>
      rw [h.1, LinkedList.before, if_neg other, ih h.2 (some y) (Nat.lt_of_succ_lt_succ enough), getLast?_cons]
      cases xs.getLast? <;> rfl

theorem Chain.unlink (h : Chain next start (xs ++ x :: ys))
    (relinked : ∀ y ∈ xs ++ ys, next' y = if xs.getLast? = some y then next x else next y) :
    Chain next' (if xs = [] then next x else start) (xs ++ ys) := by
  induction xs generalizing start with
  | nil => exact h.2.congr fun y there => relinked y there
  | cons z xs ih =>
    rw [if_neg (cons_ne_nil z xs)]
    refine ⟨h.1, ?_⟩
    have fresh : z ∉ xs ++ x :: ys := (nodup_cons.mp h.nodup).1
    have later : ∀ y ∈ xs ++ ys, next' y = if xs.getLast? = some y then next x else next y := by
      intro y there
      rw [relinked y (mem_cons_of_mem _ there), getLast?_cons]
      cases last : xs.getLast? with
      | some w => rfl
      | none =>
        have other : z ≠ y := by
          rintro rfl
          rw [mem_append] at there
          exact fresh (mem_append.mpr (there.imp_right (mem_cons_of_mem _)))
        simp [other]
    have step := ih h.2 later
    rw [relinked z mem_cons_self, getLast?_cons]
    cases xs with
    | nil => simpa using step
    | cons w ws =>
      have last : (w :: ws).getLast? = some ((w :: ws).getLast (cons_ne_nil w ws)) := getLast?_eq_some_getLast _
      have other : (w :: ws).getLast (cons_ne_nil w ws) ≠ z := fun same =>
        fresh (mem_append_left _ (same ▸ getLast_mem _))
      rw [if_neg (cons_ne_nil w ws)] at step
      rw [last, Option.getD_some, if_neg fun same => other (Option.some.inj same)]
      exact step

end Unlink
end LinkedList
