import SolarOs.Jobs.Model

/-! A worker that ends tells the job table with `markStopped`: when a job is still shown as
running for a worker that has ended. -/
namespace SolarOs.Jobs
open Program

variable {jobs : List Job} {w : World}

/-- A job's runtime between and inside its lifecycle operations. -/
structure Runtime.Settled (r : Runtime) : Prop where
  busy : r.lifecycleBusy = true → r.state ≠ .running
  numbered : r.lifecycleBusy = true ∨ r.state = .running ∨ r.state = .waiting → r.generation ≠ 0

def World.Settled (w : World) : Prop := ∀ index, (w.runtime index).Settled

def World.NoneDead (w : World) : Prop :=
  ∀ worker ∈ w.workers, worker.ended = true →
    ¬((w.runtime worker.index).state = .running ∧
      (w.runtime worker.index).generation = worker.generation)

/-- The job that the section is about to show as running. -/
def publishes {α : Type} : Op α → World → Option Nat
  | .finishStart index generation none .ok, w =>
    if (w.runtime index).generation = generation ∧ (w.runtime index).lifecycleBusy then some index
    else none
  | .finishRetry index generation pending .ok, w =>
    if (w.runtime index).generation = generation ∧ (w.runtime index).state = .waiting ∧
        (w.runtime index).lifecycleBusy ∧ (w.runtime index).pendingStart = some pending then
      some index
    else none
  | _, _ => none

def Unended {α : Type} (op : Op α) (w : World) (_ : Env) : Prop :=
  ∀ index, publishes op w = some index → ∀ worker ∈ w.workers, worker.index = index →
    worker.generation = (w.runtime index).generation → worker.ended = false

theorem nextGeneration_ne_zero (generation : UInt32) : nextGeneration generation ≠ 0 := by
  unfold nextGeneration
  split <;> grind

namespace World

theorem runtime_put (index : Nat) (r : Runtime) (i : Nat) :
    (w.put index r).runtime i = if i = index then r else w.runtime i := by
  simp only [put, Function.update_apply]

end World

open World

/-- What a section may do to a runtime; `shown` when it is about to show the job as running. -/
inductive Change (shown : Prop) (r r' : Runtime) : Prop
  | stay (state : r'.state = r.state) (generation : r'.generation = r.generation)
    (busy : r'.lifecycleBusy = r.lifecycleBusy)
  | begin (state : r'.state = .stopped) (generation : r'.generation = nextGeneration r.generation)
  | rest (state : r'.state = .stopped) (busy : r'.lifecycleBusy = false)
  | claim (state : r.state = .waiting ∧ r'.state = .waiting) (generation : r'.generation = r.generation)
  | finish (was : r.lifecycleBusy = true) (busy : r'.lifecycleBusy = false)
    (generation : r'.generation = r.generation)
    (state : r'.state ≠ .running ∨ r'.state = r.state ∨ shown)

variable {shown : Prop}

theorem Change.refl (r : Runtime) : Change shown r r := .stay rfl rfl rfl

theorem change_put (s : Nat → Prop) {index : Nat} {r : Runtime} (h : Change (s index) (w.runtime index) r) (i : Nat) :
    Change (s i) (w.runtime i) ((w.put index r).runtime i) := by
  rw [runtime_put]
  split
  · rename_i same
    rw [same]
    exact h
  · exact .refl _

theorem Change.settled {r r' : Runtime} (h : r.Settled) (change : Change shown r r') : r'.Settled := by
  cases change with
  | stay state generation busy => exact ⟨by rw [state, busy]; exact h.busy,
      by rw [state, busy, generation]; exact h.numbered⟩
  | begin state generation =>
    exact ⟨by simp [state], fun _ => by rw [generation]; exact nextGeneration_ne_zero _⟩
  | rest state busy => exact ⟨by simp [state], by simp [state, busy]⟩
  | claim state generation =>
    exact ⟨by simp [state], fun _ => by rw [generation]; exact h.numbered (.inr (.inr state.1))⟩
  | finish was busy generation state =>
    exact ⟨by simp [busy], fun _ => by rw [generation]; exact h.numbered (.inl was)⟩

theorem beginStart_change (task : Task) (name : String) (i : Nat) :
    Change shown (w.runtime i) ((w.beginStart jobs task name).1.runtime i) := by
  unfold beginStart
  cases jobIndexByName jobs name with
  | none => exact .refl _
  | some index =>
    cases hjob : jobs[index]? with
    | none => simpa only [hjob] using .refl _
    | some job =>
      simp only [hjob]
      split
      · exact .refl _
      · split
        · exact .refl _
        · refine change_put (fun _ => shown) ?_ i
          exact .begin rfl rfl

theorem beginStop_change (task : Task) (name : String) (i : Nat) :
    Change shown (w.runtime i) ((w.beginStop jobs task name).1.runtime i) := by
  unfold beginStop
  cases jobIndexByName jobs name with
  | none => exact .refl _
  | some index =>
    simp only
    split
    · exact .refl _
    · rename_i idle
      split
      · refine change_put (fun _ => shown) ?_ i
        exact .rest rfl (by simpa using idle)
      · split <;> exact change_put (fun _ => shown) (by exact .begin rfl rfl) i

theorem queuePending_change (index : Nat) (generation : UInt32) (pending i : Nat) :
    Change shown (w.runtime i) ((w.queuePending index generation pending).1.runtime i) := by
  simp only [queuePending]
  split
  · rename_i held
    refine change_put (fun _ => shown) ?_ i
    exact .finish held.2 rfl rfl (.inl (by simp))
  · exact .refl _

theorem finishStart_change (index : Nat) (generation : UInt32) (newPending : Option Nat) (result : EspErr) (i : Nat) :
    Change (publishes (.finishStart index generation newPending result) w = some i) (w.runtime i)
      ((w.finishStart index generation newPending result).1.runtime i) := by
  simp only [finishStart]
  split
  · rename_i held
    cases newPending with
    | some pending =>
      refine change_put (fun i => publishes (.finishStart index generation _ result) w = some i) ?_ i
      exact .finish held.2 rfl rfl (.inl (by simp))
    | none =>
      refine change_put (fun i => publishes (.finishStart index generation _ result) w = some i) ?_ i
      refine .finish held.2 rfl rfl ?_
      cases result with
      | ok => exact .inr (.inr (if_pos held))
      | _ => exact .inl (by simp)
  · exact .refl _

theorem finishStop_change (index : Nat) (generation : UInt32) (i : Nat) :
    Change shown (w.runtime i) ((w.finishStop index generation).runtime i) := by
  simp only [finishStop]
  split
  · rename_i held
    refine change_put (fun _ => shown) ?_ i
    exact .finish held.2 rfl rfl (.inr (.inl rfl))
  · exact .refl _

theorem markStopped_change (name : String) (generation : UInt32) (error : EspErr) (i : Nat) :
    Change shown (w.runtime i) ((w.markStopped jobs name generation error).1.runtime i) := by
  unfold markStopped
  cases jobIndexByName jobs name with
  | none => exact .refl _
  | some index =>
    simp only
    split
    · exact .refl _
    · rename_i live
      simp only [not_or] at live
      refine change_put (fun _ => shown) ?_ i
      exact .rest rfl (by simpa using live.2.2)

theorem claimRetry_change (index : Nat) (generation : UInt32) (pending i : Nat) :
    Change shown (w.runtime i) ((w.claimRetry index generation pending).1.runtime i) := by
  simp only [claimRetry]
  split
  · rename_i queued
    refine change_put (fun _ => shown) ?_ i
    exact .claim ⟨queued.2.1, queued.2.1⟩ rfl
  · exact .refl _

theorem finishRetry_change (index : Nat) (generation : UInt32) (pending : Nat) (result : EspErr) (i : Nat) :
    Change (publishes (.finishRetry index generation pending result) w = some i) (w.runtime i)
      ((w.finishRetry index generation pending result).1.runtime i) := by
  simp only [finishRetry]
  split
  · rename_i held
    split
    · refine change_put (fun i => publishes (.finishRetry index generation pending result) w = some i) ?_ i
      refine .finish held.2.2.1 rfl rfl ?_
      cases result with
      | ok => exact .inr (.inr (if_pos held))
      | _ => exact .inl (by simp)
    · refine change_put (fun i => publishes (.finishRetry index generation pending result) w = some i) ?_ i
      exact .finish held.2.2.1 rfl rfl (.inr (.inl rfl))
  · exact .refl _

theorem beginCallback_change (index : Nat) (due : Bool) (i : Nat) :
    Change shown (w.runtime i) ((w.beginCallback jobs index due).1.runtime i) := by
  simp only [beginCallback]
  split
  · refine change_put (fun _ => shown) ?_ i
    exact .stay rfl rfl rfl
  · exact .refl _

theorem endCallback_change (index i : Nat) : Change shown (w.runtime i) ((w.endCallback jobs index).1.runtime i) := by
  simp only [endCallback]
  split
  · split <;> exact change_put (fun _ => shown) (by exact .stay rfl rfl rfl) i
  · refine change_put (fun _ => shown) ?_ i
    exact .stay rfl rfl rfl

theorem runtime_free (pending : Nat) : (w.free pending).runtime = w.runtime := by
  unfold free
  split <;> rfl

theorem runtime_createPending (args : List String) (block : Option Nat) :
    (w.createPending args block).1.runtime = w.runtime := by
  unfold createPending
  split
  · split <;> rfl
  · rfl

variable {α : Type}

theorem act_change (jobs : List Job) (op : Op α) (w : World) (e : Env) (i : Nat) :
    Change (publishes op w = some i) (w.runtime i) ((act jobs op w e).1.runtime i) := by
  cases op with
  | createPending args =>
    show Change _ _ ((w.createPending args e.block).1.runtime i)
    rw [runtime_createPending]
    exact .refl _
  | free pending =>
    show Change _ _ ((w.free pending).runtime i)
    rw [runtime_free]
    exact .refl _
  | beginStart task name => exact beginStart_change task name i
  | queuePending index generation pending =>
    exact queuePending_change index generation pending i
  | finishStart index generation newPending result =>
    exact finishStart_change index generation newPending result i
  | beginStop task name => exact beginStop_change task name i
  | finishStop index generation =>
    exact finishStop_change index generation i
  | markStopped name generation error =>
    exact markStopped_change name generation error i
  | claimRetry index generation pending =>
    exact claimRetry_change index generation pending i
  | finishRetry index generation pending result =>
    exact finishRetry_change index generation pending result i
  | beginCallback index => exact beginCallback_change index e.due i
  | endCallback index => exact endCallback_change index i
  | spawn index =>
    show Change _ _ ((if e.spawns then w.spawn index else w).runtime i)
    split <;> exact .refl _
  | _ => exact .refl _

theorem act_settled (op : Op α) (w : World) (e : Env) (h : w.Settled) :
    (act jobs op w e).1.Settled := fun i => (act_change jobs op w e i).settled (h i)

theorem publishes_shows (jobs : List Job) {op : Op α} {index : Nat}
    (h : publishes op w = some index) (e : Env) : (act jobs op w e).1.workers = w.workers ∧
      ((act jobs op w e).1.runtime index).state = .running ∧
      ((act jobs op w e).1.runtime index).generation = (w.runtime index).generation := by
  unfold publishes at h
  split at h
  · rename_i at_ generation
    split at h
    · rename_i held
      cases h
      simp [act, finishStart, held, put]
    · cases h
  · rename_i at_ generation pending
    split at h
    · rename_i held
      cases h
      simp [act, finishRetry, held, put]
    · cases h
  · cases h

theorem workers_free (pending : Nat) : (w.free pending).workers = w.workers := by
  unfold free
  split <;> rfl

theorem workers_createPending (args : List String) (block : Option Nat) :
    (w.createPending args block).1.workers = w.workers := by
  unfold createPending
  split
  · split <;> rfl
  · rfl

theorem workers_beginStart (task : Task) (name : String) : (w.beginStart jobs task name).1.workers = w.workers := by
  unfold beginStart
  cases jobIndexByName jobs name with
  | none => rfl
  | some index =>
    cases hjob : jobs[index]? with
    | none => simp only [hjob]
    | some job =>
      simp only [hjob]
      split
      · rfl
      · split <;> rfl

theorem workers_beginStop (task : Task) (name : String) : (w.beginStop jobs task name).1.workers = w.workers := by
  unfold beginStop
  cases jobIndexByName jobs name with
  | none => rfl
  | some index =>
    simp only
    split
    · rfl
    · split
      · rfl
      · split <;> rfl

def marks {α : Type} : Op α → Bool
  | .markStopped .. => true
  | _ => false

theorem act_workers (op : Op α) (w : World) (e : Env) (unmarked : marks op = false) :
    ∀ worker ∈ (act jobs op w e).1.workers, worker.ended = true → worker ∈ w.workers := by
  have same : ∀ w' : World, w'.workers = w.workers →
      ∀ worker ∈ w'.workers, worker.ended = true → worker ∈ w.workers := by
    intro w' h worker member _
    rwa [h] at member
  cases op with
  | createPending args => exact same _ (workers_createPending args e.block)
  | free pending => exact same _ (workers_free pending)
  | beginStart task name => exact same _ (workers_beginStart task name)
  | queuePending index generation pending =>
    exact same _ (by simp only [act, queuePending]; split <;> rfl)
  | finishStart index generation newPending result =>
    refine same _ ?_
    simp only [act, finishStart]
    split
    · cases newPending <;> rfl
    · rfl
  | beginStop task name => exact same _ (workers_beginStop task name)
  | finishStop index generation =>
    exact same _ (by simp only [act, finishStop]; split <;> rfl)
  | markStopped name generation error => cases unmarked
  | claimRetry index generation pending =>
    exact same _ (by simp only [act, claimRetry]; split <;> rfl)
  | finishRetry index generation pending result =>
    refine same _ ?_
    simp only [act, finishRetry]
    split
    · split <;> rfl
    · rfl
  | beginCallback index => exact same _ (by simp only [act, beginCallback]; split <;> rfl)
  | endCallback index =>
    refine same _ ?_
    simp only [act, endCallback]
    split
    · split <;> rfl
    · rfl
  | spawn index =>
    intro worker member ended
    simp only [act] at member
    split at member
    · rcases List.mem_append.mp member with old | new
      · exact old
      · rw [List.mem_singleton.mp new] at ended
        cases ended
    · exact member
  | _ => exact same _ rfl

theorem markStopped_noneDead (settled : w.Settled) (h : w.NoneDead) (name : String)
    (generation : UInt32) (error : EspErr) : (w.markStopped jobs name generation error).1.NoneDead := by
  unfold markStopped
  cases jobIndexByName jobs name with
  | none => exact h
  | some index =>
    have old : ∀ worker ∈ (w.endWorkers index generation).workers, worker.ended = true →
        (worker.index = index ∧ worker.generation = generation) ∨
          worker ∈ w.workers := by
      intro worker member ended
      obtain ⟨was, hwas, made⟩ := List.mem_map.mp member
      split at made
      · rename_i mine
        subst made
        exact .inl mine
      · subst made
        exact .inr hwas
    simp only
    split
    · rename_i refused
      intro worker member ended running
      rcases old worker member ended with ⟨mine, numbered⟩ | was
      · rw [mine, numbered] at running
        rcases refused with zero | other | busy
        · exact (settled index).numbered (.inr (.inl running.1)) (running.2.trans zero)
        · exact other running.2
        · exact (settled index).busy busy running.1
      · exact h worker was ended running
    · intro worker member ended running
      simp only [note, runtime_put] at running
      split at running
      · simp at running
      · rename_i away
        rcases old worker member ended with ⟨mine, numbered⟩ | was
        · exact away mine
        · exact h worker was ended running

theorem act_noneDead (op : Op α) (w : World) (e : Env) (settled : w.Settled)
    (h : w.NoneDead) : (act jobs op w e).1.NoneDead ↔ Unended op w e := by
  constructor
  · intro none index shown worker member mine numbered
    obtain ⟨workers, state, generation⟩ := publishes_shows jobs shown e
    by_contra ended
    refine none worker (by rwa [workers]) (by simpa using ended) ?_
    rw [mine]
    exact ⟨state, generation.trans numbered.symm⟩
  · intro unended
    cases marked : marks op with
    | true =>
      cases op with
      | markStopped name generation error => exact markStopped_noneDead settled h name generation error
      | _ => cases marked
    | false =>
      intro worker member ended running
      have was := act_workers op w e marked worker member ended
      cases act_change jobs op w e worker.index with
      | stay state generation busy =>
        rw [state, generation] at running
        exact h worker was ended running
      | begin state generation => simp [state] at running
      | rest state busy => simp [state] at running
      | claim state generation => simp [state.2] at running
      | finish busy idle generation state =>
        rcases state with still | same | shown
        · exact still running.1
        · rw [same] at running
          exact (settled worker.index).busy busy running.1
        · have := unended worker.index shown worker was rfl (running.2.symm.trans generation)
          rw [this] at ended
          cases ended

theorem initial_settled : World.initial.Settled :=
  fun _ => ⟨nofun, by simp [World.initial, Runtime.initial]⟩

theorem initial_noneDead : World.initial.NoneDead := nofun

/-- However the calls take turns, no job is ever shown as running for a worker that has
ended exactly when no start shows its job as running after its worker's `markStopped`. -/
theorem running_is_live (jobs : List Job) (turns : List (Turn Call Env)) :
    Machine.Admits (takeTurn jobs) (Pool.Allowed enabled Unended) boot turns ↔
      ∀ n, (Machine.run (takeTurn jobs) boot (turns.take n)).state.NoneDead :=
  Machine.admits_iff_always (fun pool : Calls => pool.state.Settled)
    (fun pool : Calls => pool.state.NoneDead)
    (fun pool t settled => Pool.turn_always act_settled pool t settled)
    (fun pool t settled none => Pool.turn_exact act_noneDead pool t settled none)
    initial_settled initial_noneDead

def telnetd : Job where
  name := "telnetd"
  start := true
  stop := true
  event := false
  workerStackBytes := 6144

/-- There is memory, drivers start, and a start creates a worker. -/
def plenty : Env where
  canCreate := true
  block := none
  due := false
  result := .ok
  spawns := true
  requests := []

def earlyExit : List (Turn Call Env) :=
  [.start (.start 0 "telnetd" []), .step 0 plenty, .step 0 plenty, .step 0 plenty, .step 0 plenty,
    .step 0 plenty, .start (.markStopped "telnetd" 1 .fail), .step 1 plenty, .step 0 plenty,
    .step 0 plenty]

/-- A start then shows the job as running, and nothing is left to correct it. -/
theorem exit_lost : ¬∀ (jobs : List Job) (turns : List (Turn Call Env)),
    (Machine.run (takeTurn jobs) boot turns).quiet = true →
      (Machine.run (takeTurn jobs) boot turns).state.NoneDead := by
  intro h
  have dead := h [telnetd] earlyExit (by decide)
  exact dead ⟨0, 1, true⟩ (by decide) rfl (by decide)

end SolarOs.Jobs
