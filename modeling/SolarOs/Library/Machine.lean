import Mathlib.Data.List.Basic

/-! Runs of a deterministic machine whose events are allowed or not by the state
they meet, and the induction rule for what every such run keeps. -/
namespace Machine

variable {State Event : Type*} (step : State → Event → State) (allowed : State → Event → Prop)

def run (s : State) (events : List Event) : State := events.foldl step s

def Admits : State → List Event → Prop
  | _, [] => True
  | s, e :: events => allowed s e ∧ Admits (step s e) events

instance [∀ s e, Decidable (allowed s e)] : ∀ s events, Decidable (Admits step allowed s events)
  | _, [] => .isTrue trivial
  | s, e :: events =>
    have := instDecidableAdmits (step s e) events
    inferInstanceAs (Decidable (_ ∧ _))

variable {step allowed}

@[simp] theorem run_nil (s : State) : run step s [] = s := rfl

@[simp] theorem run_cons (s : State) (e : Event) (events : List Event) :
    run step s (e :: events) = run step (step s e) events := rfl

theorem run_append (s : State) (first second : List Event) :
    run step s (first ++ second) = run step (run step s first) second :=
  List.foldl_append

theorem admits_append {s : State} {first second : List Event} : Admits step allowed s (first ++ second) ↔
      Admits step allowed s first ∧ Admits step allowed (run step s first) second := by
  induction first generalizing s with
  | nil => simp [Admits]
  | cons e events ih => simp [Admits, ih, and_assoc]

theorem run_induct {P : State → Prop} (keep : ∀ s e, P s → allowed s e → P (step s e))
    {s : State} {events : List Event} (hs : P s) (h : Admits step allowed s events) : P (run step s events) := by
  induction events generalizing s with
  | nil => exact hs
  | cons e events ih => exact ih (keep s e hs h.1) h.2

theorem run_always {P : State → Prop} (keep : ∀ s e, P s → P (step s e)) {s : State}
    (hs : P s) (events : List Event) : P (run step s events) := by
  induction events generalizing s with
  | nil => exact hs
  | cons e events ih => exact ih (keep s e hs)

theorem admits_iff_always (Inv Good : State → Prop) (keep : ∀ s e, Inv s → Inv (step s e))
    (exact : ∀ s e, Inv s → Good s → (Good (step s e) ↔ allowed s e)) {s : State}
    {events : List Event} (hinv : Inv s) (hgood : Good s) :
    Admits step allowed s events ↔ ∀ n, Good (run step s (events.take n)) := by
  induction events generalizing s with
  | nil => simp [Admits, hgood]
  | cons e events ih =>
    constructor
    · intro ⟨now, later⟩ n
      cases n with
      | zero => exact hgood
      | succ n => exact (ih (keep s e hinv) ((exact s e hinv hgood).mpr now)).mp later n
    · intro always
      have next : Good (step s e) := always 1
      exact ⟨(exact s e hinv hgood).mp next, (ih (keep s e hinv) next).mpr fun n => always (n + 1)⟩

end Machine
