import SolarOs.EspNow.Sending
import SolarOs.Library.Rights

/-! One send after another: where the send that is under way has come to, how far the
driver has been stopped or started, and which operations go with each. -/
namespace SolarOs.EspNow
open Program

variable {w : World}

/-- What a program that is between two operations of a send or a result has done. -/
inductive Stage where
  | sending
  | refused
  | owing
  | taking

inductive Nap where
  | asleep (seen : Bool)
  | silenced
  | initialised
  | started

abbrev Rights := Multiset Stage × Multiset Nap

inductive Phase where
  | idle
  | sending
  | refused
  | waiting
  | lost
  | queued (success : Bool)
  | taking
  deriving DecidableEq

namespace Phase

def rights : Phase → Multiset Stage
  | .sending => {.sending}
  | .refused => {.refused}
  | .lost => {.owing}
  | .taking => {.taking}
  | _ => 0

def queue : Phase → List Bool
  | .queued success => [success]
  | _ => []

def tail : Phase → List (Option Bool)
  | .waiting => [none]
  | .lost => [some false]
  | .queued success => [some success]
  | _ => []

def out : Phase → Bool
  | .sending => true
  | .waiting => true
  | _ => false

end Phase

inductive Mode where
  | awake
  | drowsy (seen : Bool)
  | silenced
  | down
  | initialised
  | started

namespace Mode

def rights : Mode → Multiset Nap
  | .drowsy seen => {.asleep seen}
  | .silenced => {.silenced}
  | .initialised => {.initialised}
  | .started => {.started}
  | _ => 0

def suspended : Mode → Bool
  | .awake => false
  | _ => true

def up : Mode → Bool
  | .down => false
  | _ => true

def active : Mode → Bool
  | .awake => true
  | .drowsy _ => true
  | .started => true
  | _ => false

end Mode

def World.outcomes (w : World) : List (Option Bool) := w.sends.map Send.outcome

structure World.In (w : World) (phase : Phase) : Prop where
  queue : w.txQueue = phase.queue
  outcomes : w.outcomes = w.results.map some ++ phase.tail
  unanswered : w.unanswered = decide (phase ≠ .idle)

structure World.Runs (w : World) (mode : Mode) : Prop where
  suspended : w.suspended = mode.suspended
  up : w.driverUp = mode.up
  active : w.callbacksActive = mode.active

def World.Shown (w : World) (phase : Phase) : Mode → Prop
  | .awake => phase.out = true → w.sendInflight = true
  | .drowsy true => True
  | _ => phase.out = false

def Inv (w : World) (total : Rights) : Prop :=
  ∃ phase mode, total = (phase.rights, mode.rights) ∧ w.In phase ∧ w.Runs mode ∧ w.Shown phase mode

/-- What the operations take and give. -/
inductive Deals : {β : Type} → Op β → Deal Rights β → Prop
  | findPeer : Deals .findPeer ⟨0, fun _ => 0, fun _ => True⟩
  | beginSend :
    Deals .beginSend ⟨0, fun begun => if begun then ({.sending}, 0) else 0, fun _ => True⟩
  | espNowSend (frame : Nat) :
    Deals (.espNowSend frame)
      ⟨({.sending}, 0), fun error => if error = .ok then 0 else ({.refused}, 0), fun _ => True⟩
  | failSend : Deals .failSend ⟨({.refused}, 0), fun _ => 0, fun _ => True⟩
  | readQueue : Deals .readQueue ⟨0, fun _ => 0, fun _ => True⟩
  | receive :
    Deals .receive ⟨0, fun event => if event.isSome then ({.taking}, 0) else 0, fun _ => True⟩
  | clearInflight : Deals .clearInflight ⟨({.taking}, 0), fun _ => 0, fun _ => True⟩
  | report (send : Nat) (success : Bool) :
    Deals (.report send success) ⟨0, fun _ => 0, fun full => full = false⟩
  | suspend :
    Deals .suspend
      ⟨0, fun seen => (0, (seen.map Nap.asleep).elim 0 fun nap => {nap}), fun _ => True⟩
  | silence (seen : Bool) :
    Deals (.silence seen)
      ⟨(0, {.asleep seen}), fun _ => (if seen then {.owing} else 0, {.silenced}), fun _ => True⟩
  | deinit : Deals .deinit ⟨(0, {.silenced}), fun _ => 0, fun _ => True⟩
  | pushFailed : Deals .pushFailed ⟨({.owing}, 0), fun _ => 0, fun _ => True⟩
  | readSuspended : Deals .readSuspended ⟨0, fun _ => 0, fun _ => True⟩
  | reapplyProtocol : Deals .reapplyProtocol ⟨0, fun _ => 0, fun _ => True⟩
  | initDriver :
    Deals .initDriver ⟨0, fun error => if error = .ok then (0, {.initialised}) else 0, fun _ => True⟩
  | registerPeers : Deals .registerPeers ⟨0, fun _ => 0, fun _ => True⟩
  | activate : Deals .activate ⟨(0, {.initialised}), fun _ => (0, {.started}), fun _ => True⟩
  | abort : Deals .abort ⟨(0, {.initialised}), fun _ => 0, fun _ => True⟩
  | wake : Deals (.finishResume .ok) ⟨(0, {.started}), fun _ => 0, fun _ => True⟩
  | stayDown (error : EspErr) (failed : error ≠ .ok) :
    Deals (.finishResume error) ⟨0, fun _ => 0, fun _ => True⟩

/-- A sleep that has found a send in flight stops the driver while the send awaits its
callback, and the driver is started only when it has been stopped. -/
def SleepsWell {α : Type} : Op α → World → Env → Prop
  | .silence seen, w, _ => seen = true → ∃ send, w.awaits send
  | .initDriver, w, e => e.error = .ok → w.driverUp = false
  | _, _, _ => True

/-- Besides, a send begins only when the result of the one before has been taken, also
after a sleep. -/
def InTurn {α : Type} : Op α → World → Env → Prop
  | .beginSend, w, _ => w.suspended = false → w.sendInflight = false → w.unanswered = false
  | op, w, e => SleepsWell op w e

def Stage.phase : Stage → Phase
  | .sending => .sending
  | .refused => .refused
  | .owing => .lost
  | .taking => .taking

def Nap.mode : Nap → Mode
  | .asleep seen => .drowsy seen
  | .silenced => .silenced
  | .initialised => .initialised
  | .started => .started

theorem Phase.of_rights {rest : Multiset Stage} {stage : Stage} {phase : Phase}
    (h : rest + {stage} = phase.rights) : rest = 0 ∧ phase = stage.phase := by
  cases phase <;> first
    | exact absurd h add_singleton_ne_zero
    | obtain ⟨none, rfl⟩ := alone_of_add h
      exact ⟨none, rfl⟩

theorem Mode.of_rights {rest : Multiset Nap} {nap : Nap} {mode : Mode}
    (h : rest + {nap} = mode.rights) : rest = 0 ∧ mode = nap.mode := by
  cases mode <;> first
    | exact absurd h add_singleton_ne_zero
    | obtain ⟨none, rfl⟩ := alone_of_add h
      exact ⟨none, rfl⟩

theorem Inv.phase {rest : Rights} {stage : Stage} (h : Inv w (rest + ({stage}, 0))) :
    ∃ mode, rest = (0, mode.rights) ∧ w.In stage.phase ∧ w.Runs mode ∧ w.Shown stage.phase mode := by
  obtain ⟨phase, mode, total, stands, runs, shown⟩ := h
  obtain ⟨none, rfl⟩ := Phase.of_rights (congrArg Prod.fst total)
  refine ⟨mode, ?_, stands, runs, shown⟩
  ext1
  · exact none
  · exact (add_zero rest.2).symm.trans (congrArg Prod.snd total)

theorem Inv.mode {rest : Rights} {nap : Nap} (h : Inv w (rest + (0, {nap}))) :
    ∃ phase, rest = (phase.rights, 0) ∧ w.In phase ∧ w.Runs nap.mode ∧ w.Shown phase nap.mode := by
  obtain ⟨phase, mode, total, stands, runs, shown⟩ := h
  obtain ⟨none, rfl⟩ := Mode.of_rights (congrArg Prod.snd total)
  refine ⟨phase, ?_, stands, runs, shown⟩
  ext1
  · exact (add_zero rest.1).symm.trans (congrArg Prod.fst total)
  · exact none

theorem Inv.congr {total : Rights} (h : Inv w total) {w' : World} (queue : w'.txQueue = w.txQueue)
    (sends : w'.sends = w.sends) (results : w'.results = w.results)
    (unanswered : w'.unanswered = w.unanswered) (suspended : w'.suspended = w.suspended)
    (up : w'.driverUp = w.driverUp) (active : w'.callbacksActive = w.callbacksActive)
    (inflight : w'.sendInflight = w.sendInflight) : Inv w' total := by
  obtain ⟨phase, mode, same, stands, runs, shown⟩ := h
  refine ⟨phase, mode, same, ⟨queue ▸ stands.queue, ?_, unanswered ▸ stands.unanswered⟩,
    ⟨suspended ▸ runs.suspended, up ▸ runs.up, active ▸ runs.active⟩, ?_⟩
  · rw [World.outcomes, sends, results]
    exact stands.outcomes
  · unfold World.Shown at shown ⊢
    rwa [inflight]

end SolarOs.EspNow
