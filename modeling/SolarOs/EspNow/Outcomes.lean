import SolarOs.EspNow.Matching

/-! Every operation of a send, a callback, a result, a sleep or a wake-up keeps the results
in step with the sends. -/
namespace SolarOs.EspNow
open Program List

variable {w : World}

variable {phase : Phase}

theorem World.In.awaits (h : w.In phase) {send : Nat} (waits : w.awaits send) :
    phase = .waiting ∧ send = w.results.length := by
  obtain ⟨s, hs, missing⟩ := waits
  have outcome : w.outcomes[send]? = some none := by
    rw [World.outcomes, getElem?_map, hs, Option.map_some, missing]
  rw [h.outcomes, getElem?_append] at outcome
  split at outcome
  · rw [getElem?_map, Option.map_eq_some_iff] at outcome
    obtain ⟨success, -, absurd⟩ := outcome
    cases absurd
  · rename_i later
    rw [length_map] at later outcome
    obtain ⟨there, -⟩ := List.getElem?_eq_some_iff.mp outcome
    have last : send = w.results.length := by
      cases phase <;> simp [Phase.tail] at there <;> omega
    rw [last, Nat.sub_self] at outcome
    cases phase <;> simp [Phase.tail] at outcome
    exact ⟨rfl, last⟩

theorem World.In.settled (h : w.In phase) (other : phase ≠ .waiting) : w.sends.map giveUp = w.sends := by
  have each : ∀ s ∈ w.sends, giveUp s = id s := by
    intro s hs
    obtain ⟨send, there⟩ := getElem?_of_mem hs
    cases known : s.outcome with
    | none => exact absurd (h.awaits ⟨s, there, known⟩).1 other
    | some success =>
      show ({ s with outcome := some (s.outcome.getD false) } : Send) = s
      rw [known, Option.getD_some, ← known]
  rw [map_congr_left each, map_id]

theorem World.In.given_up (h : w.In .waiting) :
    (w.sends.map giveUp).map Send.outcome = w.results.map some ++ [some false] := by
  have waiting : (w.sends.map Send.outcome) = w.results.map some ++ [none] := h.outcomes
  have after : (w.sends.map giveUp).map Send.outcome =
      (w.sends.map Send.outcome).map fun outcome => some (outcome.getD false) := by
    rw [map_map, map_map]
    rfl
  rw [after, waiting, map_append, map_map]
  rfl

theorem World.In.reported (h : w.In .waiting) (success : Bool) :
    (w.sends.modify w.results.length fun s => { s with outcome := some success }).map Send.outcome =
      w.results.map some ++ [some success] := by
  have waiting : (w.sends.map Send.outcome) = w.results.map some ++ [none] := h.outcomes
  have after : (w.sends.modify w.results.length fun s => { s with outcome := some success }).map Send.outcome =
      (w.sends.map Send.outcome).modify w.results.length fun _ => some success := by
    refine ext_getElem? fun i => ?_
    simp only [getElem?_map, getElem?_modify]
    split <;> cases w.sends[i]? <;> rfl
  rw [after, waiting]
  refine ext_getElem? fun i => ?_
  rw [getElem?_modify, getElem?_append, getElem?_append, length_map]
  split
  · rename_i here
    subst here
    simp
  · rename_i elsewhere
    split
    · simp
    · have : i - w.results.length = (i - w.results.length - 1) + 1 := by omega
      rw [this]
      rfl

theorem World.In.next (h : w.In phase) {success : Bool} {later : List Bool} (queue : w.txQueue = success :: later) :
    phase = .queued success ∧ later = [] := by
  have := h.queue.symm.trans queue
  cases phase <;> simp [Phase.queue] at this
  exact ⟨by rw [this.1], this.2⟩

theorem World.Shown.of_not_out (quiet : phase.out = false) (mode : Mode) : w.Shown phase mode := by
  unfold World.Shown
  split
  · intro out
    rw [quiet] at out
    cases out
  · trivial
  · exact quiet

theorem World.Shown.active {mode : Mode} (h : w.Shown phase mode) (out : phase.out = true) :
    mode.up = true ∧ mode.active = true := by
  cases mode with
  | awake => exact ⟨rfl, rfl⟩
  | drowsy seen => exact ⟨rfl, rfl⟩
  | _ => exact nomatch out.symm.trans h

theorem beginSend_cases (w : World) (e : Env) : act .beginSend w e = (w, false) ∨
    (w.suspended = false ∧ w.sendInflight = false) ∧
      act .beginSend w e = ({ w with sendInflight := true, unanswered := true }, true) := by
  simp only [act]
  split
  · exact .inl rfl
  · rename_i passed
    simp only [Bool.or_eq_true, Bool.not_eq_true', not_or, Bool.not_eq_false, Bool.not_eq_true] at passed
    exact .inr ⟨⟨passed.1.2, passed.2⟩, rfl⟩

theorem operations_honour : Pool.Honours Deals act enabled InTurn Inv := by
  intro β op w e deal rest hdeal hinv can clear
  cases hdeal with
  | findPeer => exact ⟨trivial, hinv⟩
  | beginSend =>
    refine ⟨trivial, ?_⟩
    rw [show rest + Deal.takes _ = rest from add_zero rest] at hinv
    rcases beginSend_cases w e with refused | ⟨guard, begun⟩
    · simp only [refused]
      exact (add_zero rest).symm ▸ hinv
    · simp only [begun]
      obtain ⟨phase, mode, rfl, stands, runs, shown⟩ := hinv
      have past : phase = .idle := by
        have := clear guard.1 guard.2
        rw [stands.unanswered] at this
        simpa using this
      have awake : mode = .awake := by
        have := runs.suspended.symm.trans guard.1
        cases mode <;> first | rfl | cases this
      subst past awake
      exact ⟨.sending, .awake, rfl, ⟨stands.queue, stands.outcomes, rfl⟩,
        ⟨runs.suspended, runs.up, runs.active⟩, fun _ => rfl⟩
  | espNowSend frame =>
    refine ⟨trivial, ?_⟩
    obtain ⟨mode, rfl, stands, runs, shown⟩ := hinv.phase
    have up : w.driverUp = true := runs.up.trans (shown.active rfl).1
    by_cases accepted : e.error = .ok
    · simp only [act, up, accepted, if_true]
      refine ⟨.waiting, mode, ?_, ⟨stands.queue, ?_, stands.unanswered⟩,
        ⟨runs.suspended, (shown.active rfl).1.symm, runs.active⟩, shown⟩
      · exact add_zero _
      · show (w.sends ++ [_]).map Send.outcome = _
        rw [map_append]
        have before : w.sends.map Send.outcome = w.results.map some ++ [] := stands.outcomes
        rw [before, append_nil]
        rfl
    · simp only [act, up, accepted, if_true, if_false]
      exact ⟨.refused, mode, by simp [Phase.rights], ⟨stands.queue, stands.outcomes, stands.unanswered⟩, runs,
        .of_not_out rfl mode⟩
  | failSend | clearInflight =>
    refine ⟨trivial, ?_⟩
    obtain ⟨mode, rfl, stands, runs, shown⟩ := hinv.phase
    exact ⟨.idle, mode, add_zero _, ⟨stands.queue, stands.outcomes, rfl⟩,
      ⟨runs.suspended, runs.up, runs.active⟩, .of_not_out rfl mode⟩
  | readQueue => exact ⟨trivial, hinv⟩
  | receive =>
    refine ⟨trivial, ?_⟩
    rw [show rest + Deal.takes _ = rest from add_zero rest] at hinv
    cases queue : w.txQueue with
    | nil =>
      simp only [act, queue]
      exact (add_zero rest).symm ▸ hinv
    | cons success later =>
      obtain ⟨phase, mode, rfl, stands, runs, shown⟩ := hinv
      obtain ⟨rfl, rfl⟩ := stands.next queue
      simp only [act, queue]
      refine ⟨.taking, mode, by simp [Phase.rights], ⟨rfl, ?_, stands.unanswered⟩,
        ⟨runs.suspended, runs.up, runs.active⟩, .of_not_out rfl mode⟩
      show w.outcomes = (w.results ++ [success]).map some ++ []
      rw [stands.outcomes, map_append, append_nil]
      rfl
  | report send success =>
    rw [show rest + Deal.takes _ = rest from add_zero rest] at hinv
    obtain ⟨phase, mode, rfl, stands, runs, shown⟩ := hinv
    obtain ⟨rfl, rfl⟩ := stands.awaits can
    have active : w.callbacksActive = true := runs.active.trans (shown.active rfl).2
    have empty : w.txQueue = [] := stands.queue
    have room : ([] : List Bool).length < txQueueDepth := by decide
    simp only [act, World.report, active, empty, if_true, if_pos room]
    exact ⟨trivial, .queued success, mode, add_zero _, ⟨rfl, stands.reported success, stands.unanswered⟩,
      ⟨runs.suspended, runs.up, (shown.active rfl).2.symm⟩, .of_not_out rfl mode⟩
  | suspend =>
    refine ⟨trivial, ?_⟩
    rw [show rest + Deal.takes _ = rest from add_zero rest] at hinv
    simp only [act]
    split
    · exact (add_zero rest).symm ▸ hinv
    · rename_i passed
      obtain ⟨phase, mode, rfl, stands, runs, shown⟩ := hinv
      have awake : mode = .awake := by
        simp at passed
        have := runs.suspended.symm.trans passed.2
        cases mode <;> first | rfl | cases this
      subst awake
      refine ⟨phase, .drowsy w.sendInflight, ?_, ⟨stands.queue, stands.outcomes, stands.unanswered⟩,
        ⟨rfl, runs.up, runs.active⟩, ?_⟩
      · simp [Mode.rights]
      · cases flag : w.sendInflight with
        | true => trivial
        | false =>
          show phase.out = false
          cases out : phase.out with
          | false => rfl
          | true => exact nomatch flag.symm.trans (shown out)
  | silence seen =>
    refine ⟨trivial, ?_⟩
    obtain ⟨phase, rfl, stands, runs, shown⟩ := hinv.mode
    cases seen with
    | true =>
      obtain ⟨send, waits⟩ := clear rfl
      obtain ⟨rfl, -⟩ := stands.awaits waits
      refine ⟨.lost, .silenced, by simp [Phase.rights, Mode.rights], ⟨stands.queue, stands.given_up, stands.unanswered⟩,
        ⟨runs.suspended, runs.up, rfl⟩, rfl⟩
    | false =>
      have quiet : phase.out = false := shown
      refine ⟨phase, .silenced, by simp [Mode.rights], ⟨stands.queue, ?_, stands.unanswered⟩,
        ⟨runs.suspended, runs.up, rfl⟩, quiet⟩
      show (w.sends.map giveUp).map Send.outcome = _
      rw [stands.settled (by rintro rfl; cases quiet)]
      exact stands.outcomes
  | deinit =>
    refine ⟨trivial, ?_⟩
    obtain ⟨phase, rfl, stands, runs, shown⟩ := hinv.mode
    have quiet : phase.out = false := shown
    refine ⟨phase, .down, add_zero _, ⟨stands.queue, ?_, stands.unanswered⟩, ⟨runs.suspended, rfl, runs.active⟩, quiet⟩
    show (w.sends.map giveUp).map Send.outcome = _
    rw [stands.settled (by rintro rfl; cases quiet)]
    exact stands.outcomes
  | pushFailed =>
    refine ⟨trivial, ?_⟩
    obtain ⟨mode, rfl, stands, runs, shown⟩ := hinv.phase
    have empty : w.txQueue = [] := stands.queue
    have room : ([] : List Bool).length < txQueueDepth := by decide
    simp only [act, empty, if_pos room]
    exact ⟨.queued false, mode, add_zero _, ⟨rfl, stands.outcomes, stands.unanswered⟩,
      ⟨runs.suspended, runs.up, runs.active⟩, .of_not_out rfl mode⟩
  | readSuspended => exact ⟨trivial, hinv⟩
  | reapplyProtocol => exact ⟨trivial, hinv⟩
  | initDriver =>
    refine ⟨trivial, ?_⟩
    rw [show rest + Deal.takes _ = rest from add_zero rest] at hinv
    by_cases ok : e.error = .ok
    · simp only [act, ok, if_true]
      obtain ⟨phase, mode, rfl, stands, runs, shown⟩ := hinv
      have down : mode = .down := by
        have := runs.up.symm.trans (clear ok)
        cases mode <;> first | rfl | cases this
      subst down
      exact ⟨phase, .initialised, by simp [Mode.rights], ⟨stands.queue, stands.outcomes, stands.unanswered⟩,
        ⟨runs.suspended, rfl, runs.active⟩, shown⟩
    · simp only [act, ok, if_false]
      exact (add_zero rest).symm ▸ hinv
  | registerPeers => exact ⟨trivial, hinv⟩
  | activate =>
    refine ⟨trivial, ?_⟩
    obtain ⟨phase, rfl, stands, runs, shown⟩ := hinv.mode
    exact ⟨phase, .started, by simp [Mode.rights], ⟨stands.queue, stands.outcomes, stands.unanswered⟩,
      ⟨runs.suspended, runs.up, rfl⟩, shown⟩
  | abort =>
    refine ⟨trivial, ?_⟩
    obtain ⟨phase, rfl, stands, runs, shown⟩ := hinv.mode
    have quiet : phase.out = false := shown
    refine ⟨phase, .down, add_zero _, ⟨stands.queue, ?_, stands.unanswered⟩, ⟨runs.suspended, rfl, rfl⟩, quiet⟩
    show (w.sends.map giveUp).map Send.outcome = _
    rw [stands.settled (by rintro rfl; cases quiet)]
    exact stands.outcomes
  | wake =>
    refine ⟨trivial, ?_⟩
    obtain ⟨phase, rfl, stands, runs, shown⟩ := hinv.mode
    exact ⟨phase, .awake, add_zero _, ⟨stands.queue, stands.outcomes, stands.unanswered⟩,
      ⟨rfl, runs.up, runs.active⟩, .of_not_out shown .awake⟩
  | stayDown error failed =>
    refine ⟨trivial, ?_⟩
    simp only [act, if_neg failed]
    exact hinv

/-- A program that gives back what it has taken. -/
abbrev Clean {α : Type} (p : Program Op α) : Prop :=
  Entitled Deals (fun (_ : α) (held : Rights) => held = 0) p 0

theorem send_clean (destination : UInt32) (length frame : Nat) : Clean (send destination length frame) := by
  unfold send
  split
  · exact rfl
  · have rest : ∀ known : Bool, Clean (do
        if known then
          let begun ← invoke .beginSend
          if begun then
            let error ← invoke (.espNowSend frame)
            if error ≠ .ok then
              invoke .failSend
              return error
            else return .ok
          else return EspErr.invalidState
        else return .notFound) := by
      intro known
      cases known with
      | false => exact rfl
      | true =>
        refine Entitled.alone Deals.beginSend fun begun _ => ?_
        cases begun with
        | false => exact rfl
        | true =>
          refine Entitled.alone (Deals.espNowSend frame) fun error _ => ?_
          by_cases ok : error = .ok
          · subst ok
            exact rfl
          · show Entitled _ _ (if error ≠ .ok then _ else _) (if error = .ok then _ else _)
            rw [if_pos ok, if_neg ok]
            refine Entitled.alone Deals.failSend fun _ _ => ?_
            exact rfl
    split
    · exact rest true
    · exact Entitled.freely Deals.findPeer fun known _ => rest known

theorem takeSendResult_clean : Clean takeSendResult := by
  refine Entitled.freely Deals.readQueue fun running _ => ?_
  cases running with
  | false => exact rfl
  | true =>
    refine Entitled.alone Deals.receive fun event _ => ?_
    cases event with
    | none => exact rfl
    | some success =>
      refine Entitled.alone Deals.clearInflight fun _ _ => ?_
      exact rfl

theorem sendCallback_clean (send : Nat) (success : Bool) : Clean (sendCallback send success) := by
  refine Entitled.freely (Deals.report send success) fun full room => ?_
  subst room
  exact rfl

theorem prepareSleep_clean : Clean prepareSleep := by
  refine Entitled.alone Deals.suspend fun inflight _ => ?_
  cases inflight with
  | none => exact rfl
  | some seen =>
    refine Entitled.alone (Deals.silence seen) fun _ _ => ?_
    cases seen with
    | false =>
      refine Entitled.alone Deals.deinit fun _ _ => ?_
      exact rfl
    | true =>
      have both : (({.owing}, {.silenced}) : Rights) = ({Stage.owing}, 0) + (0, {Nap.silenced}) := by simp
      show Entitled _ _ _ ({Stage.owing}, {Nap.silenced})
      rw [both]
      refine Entitled.call Deals.deinit _ fun error _ => ?_
      rw [add_zero]
      refine Entitled.alone Deals.pushFailed fun _ _ => ?_
      exact rfl

theorem driverStart_entitled :
    Entitled Deals (fun error (held : Rights) => held = if error = .ok then (0, {.started}) else 0)
      driverStart 0 := by
  refine Entitled.alone Deals.initDriver fun error _ => ?_
  by_cases ok : error = .ok
  · subst ok
    refine Entitled.freely Deals.registerPeers fun registered _ => ?_
    by_cases ok : registered = .ok
    · subst ok
      refine Entitled.alone Deals.activate fun _ _ => ?_
      exact rfl
    · show Entitled _ _ (if registered ≠ .ok then _ else _) _
      rw [if_pos ok]
      refine Entitled.alone Deals.abort fun _ _ => ?_
      exact (if_neg ok).symm
  · show Entitled _ _ (if error ≠ .ok then _ else _) (if error = .ok then _ else _)
    rw [if_pos ok, if_neg ok]
    exact (if_neg ok).symm

theorem resume_clean : Clean resume := by
  refine Entitled.freely Deals.readSuspended fun suspended _ => ?_
  cases suspended with
  | false => exact rfl
  | true =>
    refine Entitled.freely Deals.reapplyProtocol fun protocol _ => ?_
    have finish : ∀ error held, held = (if error = .ok then ((0, {.started}) : Rights) else 0) →
        Entitled Deals (fun (_ : EspErr) (held : Rights) => held = 0)
          (do
            invoke (.finishResume error)
            return error) held := by
      intro error held same
      by_cases ok : error = .ok
      · rw [same, if_pos ok, ok]
        refine Entitled.alone Deals.wake fun _ _ => ?_
        exact rfl
      · rw [same, if_neg ok]
        refine Entitled.alone (Deals.stayDown error ok) fun _ _ => ?_
        exact rfl
    by_cases ok : protocol = .ok
    · subst ok
      exact driverStart_entitled.bind finish
    · show Entitled _ _ (if protocol = .ok then _ else _) 0
      rw [if_neg ok]
      exact finish protocol 0 (if_neg ok).symm

theorem body_clean (c : Call) : Clean (body c) := by
  cases c with
  | send destination length frame => exact (send_clean destination length frame).bind fun _ _ none => none
  | takeSendResult => exact takeSendResult_clean.bind fun _ _ none => none
  | callback send success => exact sendCallback_clean send success
  | prepareSleep => exact prepareSleep_clean.bind fun _ _ none => none
  | resume => exact resume_clean.bind fun _ _ none => none

/-- The results that were taken are the outcomes of the sends in their order, and no more
than one send waits for its callback. -/
structure World.Matched (w : World) : Prop where
  results : ∀ (k : Nat) (success : Bool), w.results[k]? = some success →
    ∃ s, w.sends[k]? = some s ∧ s.outcome = some success
  single : ∀ i j, w.awaits i → w.awaits j → i = j

theorem World.In.matched (h : w.In phase) : w.Matched where
  results := by
    intro k success taken
    have outcome : w.outcomes[k]? = some (some success) := by
      have there := (List.getElem?_eq_some_iff.mp taken).1
      rw [h.outcomes, getElem?_append_left (by rwa [length_map]), getElem?_map, taken]
      rfl
    rw [World.outcomes, getElem?_map] at outcome
    exact Option.map_eq_some_iff.mp outcome
  single := fun i j hi hj => (h.awaits hi).2.trans (h.awaits hj).2.symm

end SolarOs.EspNow
