import SolarOs.EspNow.LinkJob

/-! Runs: the results that are taken are those of the sends, and the link job notes every
frame once. -/
namespace SolarOs.EspNow
open Program Machine

def AtDesk (held : LinkRights) : Prop := ∃ p, held = (0, {.read p})

theorem takeSendResult_entitled (p : Pending) (waits : p.send = true) : Entitled LinkDeals
      (fun take (held : LinkRights) => (take = .error .timeout ∧ held = (0, {.read p})) ∨
        ∃ success, take = .ok success ∧ held = (0, {.answered p success}))
      takeSendResult (0, {.read p}) := by
  refine Entitled.freely LinkDeals.readQueue fun running brought => ?_
  subst brought
  refine Entitled.alone (LinkDeals.receive p waits) fun event _ => ?_
  cases event with
  | none => exact .inl ⟨rfl, rfl⟩
  | some success =>
    refine Entitled.alone (LinkDeals.clearInflight p success) fun _ _ => ?_
    exact .inr ⟨success, rfl, rfl⟩

theorem processPendingSend_entitled (nowMs : UInt32) :
    Entitled LinkDeals (fun (_ : Unit) held => AtDesk held) (processPendingSend nowMs) (0, {.ready}) := by
  refine Entitled.alone LinkDeals.pending fun p _ => ?_
  obtain ⟨send, reported, sinceMs, frame⟩ := p
  cases send with
  | false => exact ⟨_, rfl⟩
  | true =>
    refine (takeSendResult_entitled _ rfl).bind fun take held taken => ?_
    rcases taken with ⟨rfl, rfl⟩ | ⟨success, rfl, rfl⟩
    · show Entitled _ _ (if !reported ∧ nowMs - sinceMs ≥ linkSendTimeoutMs then _ else _) _
      split
      · rename_i overdue
        refine Entitled.alone (LinkDeals.noteTimeout _ rfl (by simpa using overdue.1)) fun _ _ => ?_
        refine Entitled.alone (LinkDeals.report ⟨true, reported, sinceMs, frame⟩) fun _ _ => ?_
        exact ⟨_, rfl⟩
      · exact ⟨_, rfl⟩
    · cases reported with
      | true =>
        refine Entitled.alone (LinkDeals.settleLate ⟨true, true, sinceMs, frame⟩ success rfl) fun _ _ => ?_
        exact ⟨_, rfl⟩
      | false =>
        refine Entitled.alone (LinkDeals.noteAnswer ⟨true, false, sinceMs, frame⟩ success rfl) fun _ _ => ?_
        refine Entitled.alone (LinkDeals.settle ⟨true, false, sinceMs, frame⟩) fun _ _ => ?_
        exact ⟨_, rfl⟩

theorem send_entitled (p : Pending) (destination : UInt32) (length frame : Nat) : Entitled LinkDeals
      (fun error (held : LinkRights) =>
        held = (0, if error = .ok then {.accepted p frame} else {.holding p frame}))
      (send destination length frame) (0, {.holding p frame}) := by
  unfold send
  split
  · exact rfl
  · have rest : ∀ known : Bool, Entitled LinkDeals
        (fun error (held : LinkRights) =>
          held = (0, if error = .ok then {.accepted p frame} else {.holding p frame}))
        (do
          if known then
            let begun ← invoke .beginSend
            if begun then
              let error ← invoke (.espNowSend frame)
              if error ≠ .ok then
                invoke .failSend
                return error
              else return .ok
            else return EspErr.invalidState
          else return .notFound) (0, {.holding p frame}) := by
      intro known
      cases known with
      | false => exact rfl
      | true =>
        refine Entitled.alone (LinkDeals.beginSend p frame) fun begun _ => ?_
        cases begun with
        | false => exact rfl
        | true =>
          refine Entitled.alone (LinkDeals.espNowSend p frame) fun error _ => ?_
          by_cases ok : error = .ok
          · subst ok
            exact rfl
          · show Entitled _ _ (if error ≠ .ok then _ else _) (if error = .ok then _ else _)
            rw [if_pos ok, if_neg ok]
            refine Entitled.alone (LinkDeals.failSend p frame) fun _ _ => ?_
            show _ = (_, if error = .ok then _ else _)
            rw [if_neg ok]
    split
    · exact rest true
    · exact Entitled.freely (LinkDeals.background .findPeer _ trivial .findPeer) fun known _ => rest known

theorem startNextSend_entitled (nowMs : UInt32) (p : Pending) :
    Entitled LinkDeals (fun (_ : Unit) held => AtDesk held) (startNextSend nowMs) (0, {.read p}) := by
  refine Entitled.alone (LinkDeals.again p) fun q same => ?_
  subst same
  obtain ⟨pending, reported, sinceMs, last⟩ := q
  cases pending with
  | true => exact ⟨_, rfl⟩
  | false =>
    refine Entitled.alone (LinkDeals.takeTx _ rfl) fun taken _ => ?_
    cases taken with
    | none => exact ⟨_, rfl⟩
    | some frame =>
      have noting : ∀ (error : EspErr) (held : LinkRights),
          held = (0, if error = .ok then {.accepted ⟨false, reported, sinceMs, last⟩ frame.id}
            else {.holding ⟨false, reported, sinceMs, last⟩ frame.id}) →
          Entitled LinkDeals (fun (_ : Unit) held => AtDesk held)
            (if error ≠ .ok then invoke (.note frame.id error)
            else invoke (.setPending ⟨true, false, nowMs, frame.id⟩)) held := by
        intro error held same
        by_cases ok : error = .ok
        · rw [same, if_pos ok, if_neg (not_not.mpr ok)]
          refine Entitled.alone (LinkDeals.expect _ frame.id nowMs) fun _ _ => ?_
          exact ⟨_, rfl⟩
        · rw [same, if_neg ok, if_pos ok]
          refine Entitled.alone (LinkDeals.noteError _ frame.id error ok) fun _ _ => ?_
          exact ⟨_, rfl⟩
      obtain ⟨id, length, decoded⟩ := frame
      cases decoded with
      | ok destination => exact (send_entitled _ destination length id).bind noting
      | error error => exact noting error.val _ (by rw [if_neg error.property]; rfl)

theorem round_entitled : Entitled LinkDeals (fun (_ : Unit) (held : LinkRights) => held = 0) round 0 := by
  refine Entitled.alone LinkDeals.beginRound fun nowMs _ => ?_
  refine (processPendingSend_entitled nowMs).bind fun _ held desk => ?_
  obtain ⟨p, rfl⟩ := desk
  refine (startNextSend_entitled nowMs p).bind fun _ held desk => ?_
  obtain ⟨p, rfl⟩ := desk
  refine Entitled.alone (LinkDeals.endRound p) fun _ _ => ?_
  exact rfl

theorem sendCallback_background (send : Nat) (success : Bool) : Only Background (sendCallback send success) := by
  refine ⟨trivial, fun full => ?_⟩
  cases full with
  | false => trivial
  | true => exact ⟨trivial, fun _ => trivial⟩

theorem prepareSleep_background : Only Background prepareSleep := by
  refine ⟨trivial, fun inflight => ?_⟩
  cases inflight with
  | none => trivial
  | some seen =>
    refine ⟨trivial, fun _ => ⟨trivial, fun error => ?_⟩⟩
    cases seen with
    | false => trivial
    | true => exact ⟨trivial, fun _ => trivial⟩

theorem driverStart_background : Only Background driverStart := by
  refine ⟨trivial, fun error => ?_⟩
  show Only _ (if error ≠ .ok then _ else _)
  split
  · trivial
  · refine ⟨trivial, fun registered => ?_⟩
    show Only _ (if registered ≠ .ok then _ else _)
    split
    · exact ⟨trivial, fun _ => trivial⟩
    · exact ⟨trivial, fun _ => trivial⟩

theorem resume_background : Only Background resume := by
  refine ⟨trivial, fun suspended => ?_⟩
  cases suspended with
  | false => trivial
  | true =>
    refine ⟨trivial, fun protocol => ?_⟩
    show Only _ (if protocol = .ok then _ else _)
    split
    · exact driverStart_background.bind fun _ => ⟨trivial, fun _ => trivial⟩
    · exact ⟨trivial, fun _ => trivial⟩

theorem Clean.beside {p : Program Op Unit} (only : Only Background p) (clean : Clean p) :
    Entitled LinkDeals (fun (_ : Unit) (held : LinkRights) => held = 0) p 0 := by
  refine (Entitled.beside (fun op deal aside h => .background op deal aside h) only clean).mono ?_
  rintro _ held ⟨own, rfl, rfl⟩
  rfl

theorem linkBody_entitled (c : LinkCall) :
    Entitled LinkDeals (fun (_ : Unit) (held : LinkRights) => held = 0) (linkBody c) 0 := by
  cases c with
  | round => exact round_entitled
  | callback send success => exact Clean.beside (sendCallback_background send success) (sendCallback_clean send success)
  | prepareSleep =>
    exact Clean.beside (prepareSleep_background.bind fun _ => trivial) (body_clean .prepareSleep)
  | resume => exact Clean.beside (resume_background.bind fun _ => trivial) (body_clean .resume)

/-- The link job notes every frame it takes once, unless it still waits for its result, and
notes a success only of a frame that the driver has reported. -/
structure World.Reported (w : World) : Prop where
  once : ∀ (j : Nat) (ns : List EspErr), w.notes[j]? = some ns → ns.length ≤ 1
  all : w.inRound = false → ∀ j : Nat, w.notes[j]? = some [] →
    w.pending.send = true ∧ w.pending.reported = false ∧ w.pending.frame = j
  honest : ∀ (j : Nat) (ns : List EspErr), w.notes[j]? = some ns → .ok ∈ ns →
    ∃ s ∈ w.sends, s.frame = j ∧ s.outcome = some true

variable {w : World}

theorem World.NotedBut.once {frame : Option Nat} (h : w.NotedBut frame) :
    ∀ (j : Nat) (ns : List EspErr), w.notes[j]? = some ns → ns.length ≤ 1 := by
  intro j ns there
  rw [h.1 j ns there]
  split <;> decide

theorem World.NotedBut.open {frame : Option Nat} (h : w.NotedBut frame) {j : Nat}
    (unnoted : w.notes[j]? = some []) : frame = some j := by
  have length := h.1 j [] unnoted
  by_contra other
  rw [if_neg other] at length
  cases length

theorem World.Resting.noted (h : w.Resting) : ∃ frame, w.NotedBut frame := by
  unfold World.Resting at h
  split at h
  · exact ⟨_, h.2⟩
  · exact ⟨_, h.2⟩

theorem World.Books.noted {desk : Option Desk} (h : w.Books desk) : ∃ frame, w.NotedBut frame := by
  cases desk with
  | none => exact World.Resting.noted h
  | some desk =>
    cases desk with
    | ready => exact World.Resting.noted h
    | read p => exact h.2.noted
    | received p success => exact ⟨_, h.2⟩
    | answered p success => exact ⟨_, h.2.2⟩
    | noted p => exact ⟨_, h.2⟩
    | late p => exact ⟨_, h.2.2⟩
    | holding p frame => exact ⟨_, h.2.2.2⟩
    | sending p frame => exact ⟨_, h.2.2⟩
    | refused p frame => exact ⟨_, h.2.2⟩
    | accepted p frame => exact ⟨_, h.2⟩

theorem World.Keeps.reported {desk : Option Desk} (h : w.Keeps desk) : w.Reported where
  once := by
    obtain ⟨frame, noted⟩ := h.books.noted
    exact noted.once
  all := by
    intro idle j unnoted
    have none : desk = none := by
      have := h.inRound.symm.trans idle
      cases desk with
      | none => rfl
      | some _ => cases this
    subst none
    have resting : w.Resting := h.books
    unfold World.Resting at resting
    split at resting
    · rename_i waits
      have open' := resting.2.open unnoted
      split at open'
      · cases open'
      · rename_i unreported
        exact ⟨waits, by simpa using unreported, Option.some.inj open'⟩
    · cases resting.2.open unnoted
  honest := by
    intro j ns there ok
    exact ⟨_, h.honest j ns there ok, rfl, rfl⟩

theorem finish_takeSendResult (w : World) (env : Nat → Env) (running : w.running = true) :
    finish act takeSendResult w env =
      match w.txQueue with
      | [] => (w, .error .timeout)
      | success :: later =>
        ({ w with
            txQueue := later, results := w.results ++ [success], sendInflight := false
            unanswered := false }, .ok success) := by
  show finish act (if w.running then _ else _) w _ = _
  rw [if_pos running, finish_invoke_bind]
  cases queue : w.txQueue with
  | nil | cons success later =>
    simp only [act, queue]
    rfl

theorem overdue_noted (w : World) (env : Nat → Env) (nowMs : UInt32) (running : w.running = true)
    (waits : w.pending.send = true) (unreported : w.pending.reported = false)
    (overdue : nowMs - w.pending.sinceMs ≥ linkSendTimeoutMs) (unnoted : w.notes[w.pending.frame]? = some []) :
    ∃ result, (finish act (processPendingSend nowMs) w env).1.notes[w.pending.frame]? = some [result] := by
  have noted : ∀ result, (w.notes.modify w.pending.frame (· ++ [result]))[w.pending.frame]? = some [result] := by
    intro result
    simp [unnoted]
  unfold processPendingSend
  rw [finish_invoke_bind]
  simp only [act, waits, if_true]
  obtain ⟨later, same⟩ := finish_bind takeSendResult _ w fun n => env (n + 1)
  rw [same, finish_takeSendResult w _ running]
  cases queue : w.txQueue with
  | nil =>
    simp only [unreported, overdue]
    exact ⟨_, noted .timeout⟩
  | cons success rest =>
    simp only [unreported]
    exact ⟨_, noted (answer success)⟩
theorem started_inv : Inv started.state 0 :=
  ⟨.idle, .awake, rfl, ⟨rfl, rfl, rfl⟩, ⟨rfl, rfl, rfl⟩, nofun⟩

theorem started_keeps : started.state.Keeps none := by
  refine ⟨rfl, rfl, ?_, ?_⟩
  · intro j ns there
    cases there
  · refine .free rfl rfl ⟨?_, nofun⟩
    intro j ns there
    cases there

/-- While sleeps stop the driver only before the callback they wait for, and a send that
follows such a sleep waits for its result, results and sends match; for the link job the
latter comes by itself, and it notes every frame once and the one it waits for in time. -/
theorem results_match (turns : List (Turn Call Env)) (linkTurns : List (Turn LinkCall Env)) (w : World)
    (env : Nat → Env) (nowMs : UInt32) :
    (Machine.Admits (Pool.turn act enabled body) (Pool.Allowed enabled InTurn) started turns →
        (run (Pool.turn act enabled body) started turns).state.Matched) ∧
      (Machine.Admits (Pool.turn act enabled linkBody) (Pool.Allowed enabled SleepsWell) started linkTurns →
        (run (Pool.turn act enabled linkBody) started linkTurns).state.Matched ∧
          (run (Pool.turn act enabled linkBody) started linkTurns).state.Reported) ∧
        (w.running = true → w.pending.send = true → w.pending.reported = false →
          nowMs - w.pending.sinceMs ≥ linkSendTimeoutMs → w.notes[w.pending.frame]? = some [] →
            ∃ result, (finish act (processPendingSend nowMs) w env).1.notes[w.pending.frame]? = some [result]) := by
  refine ⟨?_, ?_, overdue_noted w env nowMs⟩
  · intro admitted
    have begins : Pool.Backed Deals (fun (_ : Unit) (held : Rights) => held = 0) Inv started := ⟨0, rfl, started_inv⟩
    obtain ⟨total, -, phase, mode, -, stands, -⟩ := Pool.run_backed operations_honour body_clean begins admitted
    exact stands.matched
  · intro admitted
    have begins : Pool.Backed LinkDeals (fun (_ : Unit) (held : LinkRights) => held = 0) LinkInv started :=
      ⟨0, rfl, started_inv, none, rfl, started_keeps⟩
    obtain ⟨total, -, ⟨phase, mode, -, stands, -⟩, desk, -, keeps⟩ :=
      Pool.run_backed link_operations_honour linkBody_entitled begins admitted
    exact ⟨stands.matched, keeps.reported⟩

def steps (C : Type) (thread count : Nat) : List (Turn C Env) :=
  List.replicate count (.step thread ⟨0, true, .ok, some (1, .ok broadcast)⟩)

def sendAndTake : List (Turn Call Env) :=
  .start (.send broadcast 1 0) :: steps Call 0 2 ++ .start (.callback 0 true) :: steps Call 1 1 ++
    .start .takeSendResult :: steps Call 2 3

def sendAndSleep : List (Turn LinkCall Env) :=
  .start .round :: steps LinkCall 0 8 ++ .start .prepareSleep :: steps LinkCall 1 4 ++
    .start .round :: steps LinkCall 2 6

example : (Machine.run (Pool.turn act enabled linkBody) started sendAndSleep).state.notes = [[.fail]] := by
  decide

theorem results_match_sends : (run (Pool.turn act enabled body) started sendAndTake).state.Matched ∧
      (run (Pool.turn act enabled linkBody) started sendAndSleep).state.Matched ∧
        (run (Pool.turn act enabled linkBody) started sendAndSleep).state.Reported := by
  have both := results_match sendAndTake sendAndSleep started.state (fun _ => ⟨0, true, .ok, none⟩) 0
  refine ⟨both.1 ?_, both.2.1 ?_⟩
  · exact ⟨trivial, fun _ _ _ => rfl, fun _ => trivial, trivial, fun _ => trivial, trivial,
      fun _ => trivial, fun _ => trivial, fun _ => trivial, trivial⟩
  · -- the sleep stops the driver while the frame awaits its callback
    refine ⟨trivial, fun _ => trivial, fun _ => trivial, fun _ => trivial, fun _ => trivial,
      fun _ => trivial, fun _ => trivial, fun _ => trivial, fun _ => trivial, trivial,
      fun _ => trivial, fun _ _ => ⟨0, ⟨0, none⟩, rfl, rfl⟩, ?_⟩
    exact ⟨fun _ => trivial, fun _ => trivial, trivial, fun _ => trivial, fun _ => trivial,
      fun _ => trivial, fun _ => trivial, fun _ => trivial, fun _ => trivial, trivial⟩

def sleepAfterReport : List (Turn Call Env) :=
  .start (.send broadcast 1 0) :: steps Call 0 2 ++ .start (.callback 0 true) :: steps Call 1 1 ++
    .start .prepareSleep :: steps Call 2 4 ++ .start .takeSendResult :: steps Call 3 3 ++
      .start .resume :: steps Call 4 6 ++ .start (.send broadcast 1 1) :: steps Call 5 2 ++
        .start .takeSendResult :: steps Call 6 3

theorem surplus_result : ¬(run (Pool.turn act enabled body) started sleepAfterReport).state.Matched := by
  intro matched
  obtain ⟨s, there, known⟩ := matched.results 1 false (by decide)
  have missing : (run (Pool.turn act enabled body) started sleepAfterReport).state.sends[1]? =
      some ⟨1, none⟩ := by decide
  rw [missing] at there
  cases there
  cases known

end SolarOs.EspNow
