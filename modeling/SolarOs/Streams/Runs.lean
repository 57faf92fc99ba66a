import SolarOs.Streams.Counting

/-! Runs of the calls on the stream registry: handles are counted right in every run in which
counts and generations do not come round, and a run in which a generation does. -/
namespace SolarOs.Streams
open Program Function Option Multiset Machine Slots

def decideClosedOnce {β : Type} (w : World) : (op : Op β) → Decidable (ClosedOnce op w)
  | .handleValid h =>
    inferInstanceAs (Decidable (h ∈ w.issued ∧ (h ∈ w.opened ∨ h.registration ≠ w.registrations h.slot)))
  | .access h _ => inferInstanceAs (Decidable (h ∈ w.issued))
  | .register _ | .unregister _ | .beginOpen .. | .driverOpen _ | .abandon _ | .closeFunction _
  | .driverClose _ | .finish _ | .driverAccess .. => .isTrue trivial

theorem within_begin_iff (w : World) (id : Text) :
    ((w.find id).bind w.table).all (fun entry => entry.activeHandles.toNat + 1 < 2 ^ 32) = true ↔
      ∀ i entry, w.find id = some i → w.table i = some entry → entry.activeHandles.toNat + 1 < 2 ^ 32 := by
  constructor
  · intro all i entry found there
    rw [found, bind_some, there, all_some] at all
    exact of_decide_eq_true all
  · intro all
    cases found : w.find id with
    | none => rfl
    | some i =>
      rw [bind_some]
      cases there : w.table i with
      | none => rfl
      | some entry =>
        rw [all_some]
        exact decide_eq_true (all i entry found there)

def decideWithin {β : Type} (w : World) : (op : Op β) → Decidable (Within op w)
  | .beginOpen id _ _ =>
    decidable_of_iff _ (within_begin_iff w id)
  | .handleValid h | .access h _ =>
    inferInstanceAs (Decidable (w.registrations h.slot < h.registration + Generation.period))
  | .register _ | .unregister _ | .driverOpen _ | .abandon _ | .closeFunction _
  | .driverClose _ | .finish _ | .driverAccess .. => .isTrue trivial

def Proper (pool : Calls) (t : Turn Call Env) : Prop :=
  Pool.Allowed enabled (fun op w (_ : Env) => ClosedOnce op w) pool t

def InRange (pool : Calls) (t : Turn Call Env) : Prop :=
  Pool.Allowed enabled (fun op w (_ : Env) => ClosedOnce op w ∧ Within op w) pool t

instance (pool : Calls) (t : Turn Call Env) : Decidable (Proper pool t) :=
  Pool.decideAllowed enabled (fun op w (_ : Env) => ClosedOnce op w) (fun op w _ => decideClosedOnce w op) pool t

instance (pool : Calls) (t : Turn Call Env) : Decidable (InRange pool t) :=
  Pool.decideAllowed enabled (fun op w (_ : Env) => ClosedOnce op w ∧ Within op w)
    (fun op w _ => @instDecidableAnd _ _ (decideClosedOnce w op) (decideWithin w op)) pool t

theorem boot_inv : Inv boot.state 0 := by
  have none : boot.state.outstanding = 0 := by simp [World.outstanding, boot]
  refine ⟨rfl, rfl, ⟨?_, ?_, ?_, rfl⟩, fun _ => rfl, ?_, ?_, ?_⟩
  · intro i entry there
    cases there
  · intro i entry there
    cases there
  · intro h hh
    rw [none] at hh
    exact absurd hh (notMem_zero h)
  · intro i entry there
    cases there
  · exact fun h hh => absurd hh (notMem_zero h)
  · intro h hh
    rw [none] at hh
    exact absurd hh (notMem_zero h)

/-- Whatever calls overlap, an entry's count is the number of opens of it in progress or
succeeded and not yet closed, an exclusive stream has at most one, no handle outlives its
registration, and none is accepted in a later one. -/
theorem handles_accounted {turns : List (Turn Call Env)}
    (admitted : Machine.Admits (Pool.turn act enabled body) InRange boot turns) :
    (Machine.run (Pool.turn act enabled body) boot turns).state.Accounted := by
  have begins : Pool.Backed Deals Clean Inv boot := ⟨0, rfl, boot_inv⟩
  obtain ⟨total, -, inv⟩ := Pool.run_backed operations_honour body_clean begins admitted
  exact inv.accounted

def console : Driver where
  id := [99]
  provider := [112]
  device := []
  kind := .bytes
  direction := .duplex
  sharing := .exclusive
  unit := []
  format := [114]
  summary := []
  audio := ⟨0, 0, 0⟩
  hasOpen := true
  hasClose := false
  hasRead := true
  hasWrite := true
  hasReadScalar := false
  hasReadCsv := false

def firstHandle : Handle := ⟨[99], .bytes, .source, ⟨0, by decide⟩, 1, 1⟩

/-- The console is registered, opened, read and closed; an open that the driver refuses follows. -/
def useConsole : List (Turn Call Env) :=
  [.start (.register console), .step 0 ⟨.ok⟩, .start (.openEx [99] [97] none), .step 1 ⟨.ok⟩, .step 1 ⟨.ok⟩,
    .start (.access firstHandle .read), .step 2 ⟨.ok⟩, .step 2 ⟨.ok⟩, .start (.close firstHandle),
    .step 3 ⟨.ok⟩, .step 3 ⟨.ok⟩, .step 3 ⟨.ok⟩, .start (.openEx [99] [97] none), .step 4 ⟨.ok⟩,
    .step 4 ⟨.fail⟩, .step 4 ⟨.ok⟩, .start (.unregister [99]), .step 5 ⟨.ok⟩]

theorem handles_accounted_console : (Machine.run (Pool.turn act enabled body) boot useConsole).state.Accounted :=
  handles_accounted (by decide)

attribute [ext] World

abbrev firstSlot : Fin streamMax := ⟨0, by decide⟩

/-- The console, registered so often, without handles that count. -/
def registered (registrations : Nat) (issued : Multiset Handle) : World where
  table := Slots.empty.put firstSlot ⟨console, 0, []⟩
  generations := update (fun _ => 0) firstSlot (Generation.after registrations)
  registrations := update (fun _ => 0) firstSlot registrations
  opening := 0
  opened := 0
  closing := 0
  issued := issued
  mistaken := false

theorem registered_again (n : Nat) (issued : Multiset Handle) :
    (((registered n issued).unregister [99]).1.register console).1 = registered (n + 1) issued := by
  have there : find (empty.put firstSlot ⟨console, 0, []⟩) (fun entry : Entry => entry.driver.id = [99]) =
      some firstSlot := by decide
  have gone : find (empty : Slots streamMax Entry) (fun entry : Entry => entry.driver.id = console.id) =
      none := by decide
  have free : free (empty : Slots streamMax Entry) = some firstSlot := by decide
  have cleared : (empty.put firstSlot (⟨console, 0, []⟩ : Entry)).clear firstSlot = empty := by
    rw [clear, put, update_idem]
    exact update_eq_self firstSlot empty
  have unregistered : ((registered n issued).unregister [99]).1 =
      { registered n issued with table := empty } := by
    have found : (registered n issued).find [99] = some firstSlot := there
    have idle : ¬((registered n issued).table firstSlot).any (fun entry => entry.activeHandles ≠ 0) = true := by
      simp [registered]
    rw [World.unregister, found]
    dsimp only
    rw [if_neg idle]
    rw [show (registered n issued).table = empty.put firstSlot ⟨console, 0, []⟩ from rfl, cleared]
  have found : World.find { registered n issued with table := empty } console.id = none := gone
  rw [unregistered, World.register, found]
  rw [free]
  simp only [registered, isSome_none, Bool.false_eq_true, if_false, update_self, update_idem, Generation.next_after]

def atOnce (thread : Nat) (c : Call) : List (Turn Call Env) := [.start c, .step thread ⟨.ok⟩]

def renewals (thread : Nat) : Nat → List (Turn Call Env)
  | 0 => []
  | n + 1 => atOnce thread (.unregister [99]) ++ (atOnce (thread + 1) (.register console) ++ renewals (thread + 2) n)

theorem run_atOnce {pool : Calls} {c : Call} {β : Type} {op : Op β} {next : β → Program Op EspErr}
    (starts : body c = .call op next) (once : ClosedOnce op pool.state) :
    let after := run (Pool.turn act enabled body) pool (atOnce pool.threads.length c)
    Admits (Pool.turn act enabled body) Proper pool (atOnce pool.threads.length c) ∧
      after.state = (act op pool.state ⟨.ok⟩).1 ∧ after.threads.length = pool.threads.length + 1 := by
  have run : run (Pool.turn act enabled body) pool [.start c, .step pool.threads.length ⟨.ok⟩] = _ :=
    Pool.run_first starts (⟨.ok⟩ : Env) trivial
  refine ⟨Pool.admits_first starts _ once, ?_, ?_⟩
  · rw [atOnce, run]
  · rw [atOnce, run]
    simp

theorem run_renewals (pool : Calls) (issued : Multiset Handle) (registrations n : Nat)
    (state : pool.state = registered registrations issued) :
    let turns := renewals pool.threads.length n
    let after := run (Pool.turn act enabled body) pool turns
    Admits (Pool.turn act enabled body) Proper pool turns ∧
      after.state = registered (registrations + n) issued ∧ after.threads.length = pool.threads.length + 2 * n := by
  induction n generalizing pool registrations with
  | zero => exact ⟨trivial, state, rfl⟩
  | succ n ih =>
    have first : body (.unregister [99]) = .call (.unregister [99]) .done := rfl
    have second : body (.register console) = .call (.register console) .done := by
      have valid : console.valid = true := by decide
      simp only [body, Streams.register, valid, Bool.not_true, Bool.false_eq_true, if_false, invoke]
    obtain ⟨proper, unregistered, length⟩ := run_atOnce first trivial
    rw [renewals]
    simp only [admits_append, run_append]
    generalize run (Pool.turn act enabled body) pool (atOnce pool.threads.length (.unregister [99])) =
      pool' at *
    obtain ⟨proper', again, length'⟩ := run_atOnce second trivial
    rw [← length]
    generalize run (Pool.turn act enabled body) pool' (atOnce pool'.threads.length (.register console)) =
      pool'' at *
    have state'' : pool''.state = registered (registrations + 1) issued := by
      rw [again, unregistered, state]
      exact registered_again registrations issued
    obtain ⟨proper'', last, length''⟩ := ih pool'' (registrations + 1) state''
    rw [show pool.threads.length + 2 = pool''.threads.length by omega]
    refine ⟨⟨proper, proper', proper''⟩, ?_, by omega⟩
    rw [last, Nat.add_right_comm, Nat.add_assoc]

def openAndClose : List (Turn Call Env) :=
  [.start (.register console), .step 0 ⟨.ok⟩, .start (.openEx [99] [97] none), .step 1 ⟨.ok⟩, .step 1 ⟨.ok⟩,
    .start (.close firstHandle), .step 2 ⟨.ok⟩, .step 2 ⟨.ok⟩, .step 2 ⟨.ok⟩]

def comeRound : List (Turn Call Env) :=
  openAndClose ++ (renewals 3 Generation.period ++ [.start (.access firstHandle .read), .step (3 + 2 * Generation.period) ⟨.ok⟩])

theorem stale_handle_accepted : Machine.Admits (Pool.turn act enabled body) Proper boot comeRound ∧
      ¬(Machine.run (Pool.turn act enabled body) boot comeRound).state.Accounted := by
  have before : Machine.Admits (Pool.turn act enabled body) Proper boot openAndClose := by decide
  have state : (Machine.run (Pool.turn act enabled body) boot openAndClose).state = registered 1 {firstHandle} := by
    rw [World.ext_iff]
    refine ⟨funext ?_, funext ?_, funext ?_, ?_, ?_, ?_, ?_, ?_⟩ <;> decide
  have length : (Machine.run (Pool.turn act enabled body) boot openAndClose).threads.length = 3 := by decide
  rw [comeRound]
  simp only [Machine.admits_append, Machine.run_append]
  generalize Machine.run (Pool.turn act enabled body) boot openAndClose = pool at *
  obtain ⟨proper, last, threads⟩ := run_renewals pool {firstHandle} 1 Generation.period state
  rw [length] at proper last threads
  generalize Machine.run (Pool.turn act enabled body) pool (renewals 3 Generation.period) = pool' at *
  obtain ⟨next, starts⟩ : ∃ next, body (.access firstHandle .read) = .call (.access firstHandle .read) next := ⟨_, rfl⟩
  have issued : firstHandle ∈ pool'.state.issued := by
    rw [last]
    exact mem_singleton_self firstHandle
  obtain ⟨proper', used, -⟩ := run_atOnce starts issued
  rw [atOnce, threads] at proper' used
  refine ⟨⟨before, proper, proper'⟩, fun accounted => ?_⟩
  have accepted : (registered (1 + Generation.period) {firstHandle}).accepts firstHandle = true := by
    have same : (registered (1 + Generation.period) {firstHandle}).generations firstSlot = 1 := by
      have same : Generation.after (1 + Generation.period) = 1 := Generation.after_period Nat.one_pos
      simp only [registered, update_self, same]
    rw [World.accepts, Bool.and_eq_true]
    exact ⟨rfl, decide_eq_true same⟩
  have unmistaken := accounted.unmistaken
  rw [used, last] at unmistaken
  simp only [act, if_pos accepted, World.noteAccepted, Bool.or_eq_false_iff] at unmistaken
  have mistaken : firstHandle.registration ≠ (registered (1 + Generation.period) {firstHandle}).registrations firstSlot := by
    have later : (registered (1 + Generation.period) {firstHandle}).registrations firstSlot = 1 + Generation.period := by
      simp only [registered, update_self]
    rw [later]
    exact Nat.ne_of_lt (Nat.lt_add_of_pos_right (by decide))
  exact mistaken (bne_eq_false_iff_eq.mp unmistaken.2)

end SolarOs.Streams
