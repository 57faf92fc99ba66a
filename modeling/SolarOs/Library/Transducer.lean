import Mathlib.Data.List.Basic

/-! Machines that read letters one by one and write words: what they write does not depend on
how the input is cut, one may read what another writes, and one may carry out another. -/
namespace Transducer
open List

variable {S T A B C : Type*}

def feed (step : S → A → S × List B) : S → List A → S × List B
  | s, [] => (s, [])
  | s, a :: as => ((feed step (step s a).1 as).1, (step s a).2 ++ (feed step (step s a).1 as).2)

section
variable {step : S → A → S × List B}

@[simp] theorem feed_nil (s : S) : feed step s [] = (s, []) := rfl

theorem feed_cons (s : S) (a : A) (as : List A) :
    feed step s (a :: as) = ((feed step (step s a).1 as).1, (step s a).2 ++ (feed step (step s a).1 as).2) := rfl

theorem feed_singleton (s : S) (a : A) : feed step s [a] = step s a := by
  rw [feed_cons, feed_nil, append_nil]

theorem feed_append (s : S) (first second : List A) : feed step s (first ++ second) =
      ((feed step (feed step s first).1 second).1,
        (feed step s first).2 ++ (feed step (feed step s first).1 second).2) := by
  induction first generalizing s with
  | nil => rfl
  | cons a as ih => rw [cons_append, feed_cons, ih, feed_cons, append_assoc]

theorem length_feed_le (one : ∀ s a, (step s a).2.length ≤ 1) (s : S) (as : List A) :
    (feed step s as).2.length ≤ as.length := by
  induction as generalizing s with
  | nil => exact Nat.le_refl 0
  | cons a as ih =>
    have first := one s a
    have rest := ih (step s a).1
    rw [feed_cons, length_append, length_cons]
    omega

end

def cascade (first : S → A → S × List B) (second : T → B → T × List C) (s : S × T) (a : A) : (S × T) × List C :=
  (((first s.1 a).1, (feed second s.2 (first s.1 a).2).1), (feed second s.2 (first s.1 a).2).2)

theorem cascade_of {first : S → A → S × List B} (second : T → B → T × List C) {s s' : S} {a : A} {word : List B}
    (h : first s a = (s', word)) (t : T) :
    cascade first second (s, t) a = ((s', (feed second t word).1), (feed second t word).2) := by
  rw [cascade, h]

theorem feed_cascade (first : S → A → S × List B) (second : T → B → T × List C) (s : S) (t : T) (as : List A) :
    feed (cascade first second) (s, t) as =
      (((feed first s as).1, (feed second t (feed first s as).2).1), (feed second t (feed first s as).2).2) := by
  induction as generalizing s t with
  | nil => rfl
  | cons a as ih => rw [feed_cons, feed_cons, feed_append, cascade, ih]

end Transducer

/-! Readers of a stream whose every element can be an error instead, such as a missed
deadline: what a reader takes from the stream, and how readers compose. -/
namespace Reading
open List

variable {ε τ α β : Type}

/-- What comes in, element by element. -/
abbrev Feed (ε τ : Type) := List (Except ε τ)

/-- A reader takes what it needs from the feed. -/
abbrev Reader (ε τ : Type) := ExceptT ε (StateM (Feed ε τ))

section Steps

variable {x : Reader ε τ α} {f : α → Reader ε τ β} {feed rest : Feed ε τ}

theorem bind_ok {a : α} (h : x feed = (.ok a, rest)) : (x >>= f) feed = f a rest := by
  show ExceptT.bindCont f (x feed).1 (x feed).2 = _
  rw [h]
  rfl

theorem bind_error {err : ε} (h : x feed = (.error err, rest)) : (x >>= f) feed = (.error err, rest) := by
  show ExceptT.bindCont f (x feed).1 (x feed).2 = _
  rw [h]
  rfl

theorem of_bind_ok {b : β} (h : (x >>= f) feed = (.ok b, rest)) :
    ∃ a rest', x feed = (.ok a, rest') ∧ f a rest' = (.ok b, rest) := by
  rcases read : x feed with ⟨_ | a, rest'⟩
  · rw [bind_error read] at h
    cases h
  · rw [bind_ok read] at h
    exact ⟨a, rest', rfl, h⟩

end Steps

def Reads (x : Reader ε τ α) (elements : List τ) (a : α) : Prop :=
  ∀ rest : Feed ε τ, x (elements.map .ok ++ rest) = (.ok a, rest)

section Reads

variable {x : Reader ε τ α} {f : α → Reader ε τ β} {xs ys : List τ} {a : α} {b : β}

theorem Reads.bind (hx : Reads x xs a) (hf : Reads (f a) ys b) : Reads (x >>= f) (xs ++ ys) b := by
  intro rest
  rw [map_append, append_assoc, bind_ok (hx _), hf rest]

theorem Reads.pure (a : α) : Reads (ε := ε) (τ := τ) (Pure.pure a) [] a := fun _ => rfl

theorem Reads.last (hx : Reads x xs a) (hf : Reads (f a) [] b) : Reads (x >>= f) xs b :=
  append_nil xs ▸ hx.bind hf

end Reads

end Reading
