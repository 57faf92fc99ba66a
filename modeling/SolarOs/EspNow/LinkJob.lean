import SolarOs.EspNow.Outcomes

/-! The link job is the only sender: what it notes of every frame it takes. -/
namespace SolarOs.EspNow
open Program List

variable {w w' : World}

/-- How far a round of the link job has come. -/
inductive Desk where
  | ready
  | read (p : Pending)
  | received (p : Pending) (success : Bool)
  | answered (p : Pending) (success : Bool)
  | noted (p : Pending)
  | late (p : Pending)
  | holding (p : Pending) (frame : Nat)
  | sending (p : Pending) (frame : Nat)
  | refused (p : Pending) (frame : Nat)
  | accepted (p : Pending) (frame : Nat)

abbrev LinkRights := Rights × Multiset Desk

def Background {β : Type} : Op β → Prop
  | .findPeer | .report .. | .overflow | .suspend | .silence _ | .deinit | .pushFailed
  | .readSuspended | .reapplyProtocol | .initDriver | .registerPeers | .activate | .abort
  | .finishResume _ => True
  | _ => False

def answer (success : Bool) : EspErr := if success then .ok else .fail

/-- The same for the link job's rounds. -/
inductive LinkDeals : {β : Type} → Op β → Deal LinkRights β → Prop
  | background {β : Type} (op : Op β) (deal : Deal Rights β) (aside : Background op) (h : Deals op deal) :
    LinkDeals op ⟨(deal.takes, 0), fun reply => (deal.gives reply, 0), deal.brings⟩
  | beginRound : LinkDeals .beginRound ⟨0, fun _ => (0, {.ready}), fun _ => True⟩
  | endRound (p : Pending) : LinkDeals .endRound ⟨(0, {.read p}), fun _ => 0, fun _ => True⟩
  | pending : LinkDeals .pending ⟨(0, {.ready}), fun p => (0, {.read p}), fun _ => True⟩
  | again (p : Pending) :
    LinkDeals .pending ⟨(0, {.read p}), fun _ => (0, {.read p}), fun q => q = p⟩
  | readQueue : LinkDeals .readQueue ⟨0, fun _ => 0, fun running => running = true⟩
  | receive (p : Pending) (waits : p.send = true) :
    LinkDeals .receive
      ⟨(0, {.read p}),
        fun event => event.elim (0, {.read p}) fun success => (({.taking}, 0), {.received p success}),
        fun _ => True⟩
  | clearInflight (p : Pending) (success : Bool) :
    LinkDeals .clearInflight
      ⟨(({.taking}, 0), {.received p success}), fun _ => (0, {.answered p success}), fun _ => True⟩
  | noteAnswer (p : Pending) (success : Bool) (first : p.reported = false) :
    LinkDeals (.note p.frame (answer success))
      ⟨(0, {.answered p success}), fun _ => (0, {.noted p}), fun _ => True⟩
  | settle (p : Pending) :
    LinkDeals (.setPending { p with send := false, reported := false })
      ⟨(0, {.noted p}), fun _ => (0, {.read { p with send := false, reported := false }}), fun _ => True⟩
  | settleLate (p : Pending) (success : Bool) (late : p.reported = true) :
    LinkDeals (.setPending { p with send := false, reported := false })
      ⟨(0, {.answered p success}), fun _ => (0, {.read { p with send := false, reported := false }}),
        fun _ => True⟩
  | noteTimeout (p : Pending) (waits : p.send = true) (first : p.reported = false) :
    LinkDeals (.note p.frame .timeout)
      ⟨(0, {.read p}), fun _ => (0, {.late p}), fun _ => True⟩
  | report (p : Pending) :
    LinkDeals (.setPending { p with reported := true })
      ⟨(0, {.late p}), fun _ => (0, {.read { p with reported := true }}), fun _ => True⟩
  | takeTx (p : Pending) (free : p.send = false) :
    LinkDeals .takeTx
      ⟨(0, {.read p}),
        fun frame => (0, frame.elim {.read p} fun (frame : LinkFrame) => {.holding p frame.id}), fun _ => True⟩
  | beginSend (p : Pending) (frame : Nat) :
    LinkDeals .beginSend
      ⟨(0, {.holding p frame}),
        fun begun => if begun then (({.sending}, 0), {.sending p frame}) else (0, {.holding p frame}),
        fun _ => True⟩
  | espNowSend (p : Pending) (frame : Nat) :
    LinkDeals (.espNowSend frame)
      ⟨(({.sending}, 0), {.sending p frame}),
        fun error => if error = .ok then (0, {.accepted p frame}) else (({.refused}, 0), {.refused p frame}),
        fun _ => True⟩
  | failSend (p : Pending) (frame : Nat) :
    LinkDeals .failSend
      ⟨(({.refused}, 0), {.refused p frame}), fun _ => (0, {.holding p frame}), fun _ => True⟩
  | noteError (p : Pending) (frame : Nat) (error : EspErr) (failed : error ≠ .ok) :
    LinkDeals (.note frame error) ⟨(0, {.holding p frame}), fun _ => (0, {.read p}), fun _ => True⟩
  | expect (p : Pending) (frame : Nat) (nowMs : UInt32) :
    LinkDeals (.setPending ⟨true, false, nowMs, frame⟩)
      ⟨(0, {.accepted p frame}), fun _ => (0, {.read ⟨true, false, nowMs, frame⟩}), fun _ => True⟩

section
variable (w : World)

def World.NotedBut (frame : Option Nat) : Prop :=
  (∀ j ns, w.notes[j]? = some ns → ns.length = if frame = some j then 0 else 1) ∧
    ∀ j, frame = some j → j < w.notes.length

def World.Awaited (frame : Nat) : Prop :=
  w.sends.length = w.results.length + 1 ∧ (w.sends.map Send.frame).getLast? = some frame

def World.Became (frame : Nat) (success : Bool) : Prop :=
  ⟨frame, some success⟩ ∈ w.sends

def World.Resting : Prop :=
  if w.pending.send then
    w.Awaited w.pending.frame ∧ w.NotedBut (if w.pending.reported then none else some w.pending.frame)
  else w.unanswered = false ∧ w.NotedBut none

/-- What holds of the job's books at each point of a round. -/
def World.Books : Option Desk → Prop
  | none | some .ready => w.Resting
  | some (.read p) => w.pending = p ∧ w.Resting
  | some (.received p success) => w.Became p.frame success ∧
      w.NotedBut (if p.reported then none else some p.frame)
  | some (.answered p success) => w.unanswered = false ∧ w.Became p.frame success ∧
      w.NotedBut (if p.reported then none else some p.frame)
  | some (.noted _) => w.unanswered = false ∧ w.NotedBut none
  | some (.late p) => p.send = true ∧ w.Awaited p.frame ∧ w.NotedBut none
  | some (.holding p frame) => w.pending = p ∧ p.send = false ∧ w.unanswered = false ∧
      w.NotedBut (some frame)
  | some (.sending p frame) => w.pending = p ∧ p.send = false ∧ w.NotedBut (some frame)
  | some (.refused p frame) => w.pending = p ∧ p.send = false ∧ w.NotedBut (some frame)
  | some (.accepted _ frame) => w.Awaited frame ∧ w.NotedBut (some frame)

def World.Honest : Prop :=
  ∀ j ns, w.notes[j]? = some ns → .ok ∈ ns → w.Became j true

def Desk.rights (desk : Option Desk) : Multiset Desk := desk.elim 0 fun d => {d}

/-- What holds of the link job whichever call has its turn next. -/
structure World.Keeps (desk : Option Desk) : Prop where
  running : w.running = true
  inRound : w.inRound = desk.isSome
  honest : w.Honest
  books : w.Books desk

def LinkInv (total : LinkRights) : Prop :=
  Inv w total.1 ∧ ∃ desk, total.2 = Desk.rights desk ∧ w.Keeps desk

end

structure Aside (w w' : World) : Prop where
  running : w'.running = w.running
  inRound : w'.inRound = w.inRound
  pending : w'.pending = w.pending
  notes : w'.notes = w.notes
  results : w'.results = w.results
  unanswered : w'.unanswered = w.unanswered
  frames : w'.sends.map Send.frame = w.sends.map Send.frame
  known : ∀ frame success, w.Became frame success → w'.Became frame success

theorem Aside.of_sends (running : w'.running = w.running) (inRound : w'.inRound = w.inRound)
    (pending : w'.pending = w.pending) (notes : w'.notes = w.notes) (results : w'.results = w.results)
    (unanswered : w'.unanswered = w.unanswered) (sends : w'.sends = w.sends) : Aside w w' :=
  ⟨running, inRound, pending, notes, results, unanswered, by rw [sends], by
    intro frame success became
    show _ ∈ w'.sends
    rwa [sends]⟩

theorem Aside.of_giveUp (running : w'.running = w.running) (inRound : w'.inRound = w.inRound)
    (pending : w'.pending = w.pending) (notes : w'.notes = w.notes) (results : w'.results = w.results)
    (unanswered : w'.unanswered = w.unanswered) (sends : w'.sends = w.sends.map giveUp) : Aside w w' := by
  refine ⟨running, inRound, pending, notes, results, unanswered, ?_, ?_⟩
  · rw [sends, map_map]
    rfl
  · intro frame success became
    show _ ∈ w'.sends
    rw [sends]
    exact mem_map.mpr ⟨_, became, rfl⟩

theorem aside_report {send : Nat} (waits : w.awaits send) (success : Bool) : Aside w (w.report send success).1 := by
  have sends : (w.report send success).1.sends =
      w.sends.modify send fun s => { s with outcome := some success } := by
    simp only [World.report]
    split
    · split <;> rfl
    · rfl
  obtain ⟨s, there, missing⟩ := waits
  refine ⟨?_, ?_, ?_, ?_, ?_, ?_, ?_, ?_⟩
  case refine_7 =>
    rw [sends]
    refine ext_getElem? fun i => ?_
    simp only [getElem?_map, getElem?_modify]
    split <;> cases w.sends[i]? <;> rfl
  case refine_8 =>
    intro frame known became
    obtain ⟨i, hi⟩ := getElem?_of_mem became
    show _ ∈ _
    rw [sends]
    refine mem_of_getElem? (i := i) ?_
    rw [getElem?_modify, hi]
    split
    · rename_i same
      rw [same, hi] at there
      cases there
      cases missing
    · rfl
  all_goals
    simp only [World.report]
    split
    · split <;> rfl
    · rfl

theorem aside_of_background {β : Type} {op : Op β} (aside : Background op) (can : enabled op w) (e : Env) :
    Aside w (act op w e).1 := by
  cases op with
  | report send success => exact aside_report can success
  | silence seen | deinit | abort => exact .of_giveUp rfl rfl rfl rfl rfl rfl rfl
  | suspend | pushFailed | initDriver | finishResume error =>
    simp only [act]
    split <;> exact .of_sends rfl rfl rfl rfl rfl rfl rfl
  | findPeer | overflow | readSuspended | reapplyProtocol | registerPeers | activate =>
    exact .of_sends rfl rfl rfl rfl rfl rfl rfl
  | _ => exact aside.elim

theorem World.NotedBut.congr {frame : Option Nat} (h : w.NotedBut frame) (same : w'.notes = w.notes) :
    w'.NotedBut frame := by
  unfold World.NotedBut
  rwa [same]

theorem World.Resting.waiting (waits : w.pending.send = true) (awaited : w.Awaited w.pending.frame)
    (noted : w.NotedBut (if w.pending.reported then none else some w.pending.frame)) : w.Resting := by
  unfold World.Resting
  rw [if_pos waits]
  exact ⟨awaited, noted⟩

theorem World.Resting.free (free : w.pending.send = false) (past : w.unanswered = false)
    (noted : w.NotedBut none) : w.Resting := by
  unfold World.Resting
  rw [if_neg (by rw [free]; decide)]
  exact ⟨past, noted⟩

namespace Aside

theorem awaited {frame : Nat} (h : Aside w w') (before : w.Awaited frame) : w'.Awaited frame := by
  obtain ⟨length, last⟩ := before
  refine ⟨?_, by rw [h.frames, last]⟩
  have := congrArg List.length h.frames
  rw [length_map, length_map] at this
  rw [this, h.results, length]

theorem resting (h : Aside w w') (before : w.Resting) : w'.Resting := by
  unfold World.Resting at before ⊢
  rw [h.pending, h.unanswered]
  split
  · rename_i waits
    rw [if_pos waits] at before
    exact ⟨h.awaited before.1, before.2.congr h.notes⟩
  · rename_i free
    rw [if_neg free] at before
    exact ⟨before.1, before.2.congr h.notes⟩

theorem books {desk : Option Desk} (h : Aside w w') (before : w.Books desk) : w'.Books desk := by
  cases desk with
  | none => exact h.resting before
  | some desk =>
    cases desk with
    | ready => exact h.resting before
    | read p => exact ⟨h.pending.trans before.1, h.resting before.2⟩
    | received p success => exact ⟨h.known _ _ before.1, before.2.congr h.notes⟩
    | answered p success =>
      exact ⟨h.unanswered.trans before.1, h.known _ _ before.2.1, before.2.2.congr h.notes⟩
    | noted p => exact ⟨h.unanswered.trans before.1, before.2.congr h.notes⟩
    | late p => exact ⟨before.1, h.awaited before.2.1, before.2.2.congr h.notes⟩
    | holding p frame =>
      exact ⟨h.pending.trans before.1, before.2.1, h.unanswered.trans before.2.2.1, before.2.2.2.congr h.notes⟩
    | sending p frame | refused p frame =>
      exact ⟨h.pending.trans before.1, before.2.1, before.2.2.congr h.notes⟩
    | accepted p frame => exact ⟨h.awaited before.1, before.2.congr h.notes⟩

theorem keeps {desk : Option Desk} (h : Aside w w') (before : w.Keeps desk) : w'.Keeps desk where
  running := h.running.trans before.running
  inRound := h.inRound.trans before.inRound
  honest := by
    intro j ns there ok
    rw [h.notes] at there
    exact h.known j true (before.honest j ns there ok)
  books := h.books before.books

end Aside

theorem Desk.of_rights {rest : Multiset Desk} {here : Desk} {desk : Option Desk}
    (h : rest + {here} = Desk.rights desk) : rest = 0 ∧ desk = some here := by
  cases desk with
  | none => exact absurd h add_singleton_ne_zero
  | some other =>
    obtain ⟨none, rfl⟩ := alone_of_add h
    exact ⟨none, rfl⟩

theorem LinkInv.desk {rest : LinkRights} {mine : Rights} {desk : Desk}
    (h : LinkInv w (rest + (mine, {desk}))) : Inv w (rest.1 + mine) ∧ rest.2 = 0 ∧ w.Keeps (some desk) := by
  obtain ⟨inv, here, total, keeps⟩ := h
  obtain ⟨none, rfl⟩ := Desk.of_rights total
  exact ⟨inv, none, keeps⟩

theorem LinkInv.at {rest : LinkRights} {mine : Rights} {desk : Desk} (alone : rest.2 = 0)
    (inv : Inv w (rest.1 + mine)) (keeps : w.Keeps (some desk)) : LinkInv w (rest + (mine, {desk})) := by
  refine ⟨inv, some desk, ?_, keeps⟩
  show rest.2 + {desk} = {desk}
  rw [alone, zero_add]

theorem World.In.became {success : Bool} {frame : Nat} (h : w.In (.queued success))
    (awaited : w.Awaited frame) : w.Became frame success := by
  obtain ⟨length, last⟩ := awaited
  rw [getLast?_map, Option.map_eq_some_iff] at last
  obtain ⟨s, hs, same⟩ := last
  have outcome : w.outcomes.getLast? = some (some success) := by
    rw [h.outcomes]
    exact getLast?_concat
  rw [World.outcomes, getLast?_map, hs, Option.map_some] at outcome
  have known : s = ⟨frame, some success⟩ := by
    rw [← same, ← Option.some.inj outcome]
  exact mem_of_getLast? (known ▸ hs)

theorem World.NotedBut.note {frame : Nat} (h : w.NotedBut (some frame)) (result : EspErr)
    (notes : w'.notes = w.notes.modify frame (· ++ [result])) : w'.NotedBut none := by
  refine ⟨fun j ns there => ?_, nofun⟩
  rw [notes, getElem?_modify] at there
  cases before : w.notes[j]? with
  | none => simp [before] at there
  | some old =>
    have length := h.1 j old before
    rw [before] at there
    by_cases here : frame = j
    · subst here
      simp at length there
      rw [← there, length]
      rfl
    · simp [here] at length there
      rw [← there, length]
      rfl

theorem World.NotedBut.take (h : w.NotedBut none) (notes : w'.notes = w.notes ++ [[]]) :
    w'.NotedBut (some w.notes.length) := by
  constructor
  · intro j ns there
    rw [notes, getElem?_append] at there
    split at there
    · rename_i old
      rw [if_neg (by simp; omega)]
      exact h.1 j ns there
    · rename_i new
      obtain ⟨bound, -⟩ := List.getElem?_eq_some_iff.mp there
      have : j = w.notes.length := by
        simp at bound
        omega
      subst this
      simp at there
      rw [if_pos rfl, there]
      rfl
  · intro j same
    cases same
    rw [notes]
    simp

theorem World.Honest.note (h : w.Honest) {frame : Nat} {result : EspErr}
    (true' : result = .ok → w.Became frame true) (notes : w'.notes = w.notes.modify frame (· ++ [result]))
    (sends : w'.sends = w.sends) : w'.Honest := by
  intro j ns there ok
  show _ ∈ w'.sends
  rw [sends]
  rw [notes, getElem?_modify] at there
  cases before : w.notes[j]? with
  | none => simp [before] at there
  | some old =>
    rw [before] at there
    by_cases here : frame = j
    · subst here
      simp at there
      rw [← there, mem_append, mem_singleton] at ok
      rcases ok with ok | ok
      · exact h frame old before ok
      · exact true' ok.symm
    · simp [here] at there
      exact h j old before (there ▸ ok)

theorem inTurn_of_background {β : Type} {op : Op β} (aside : Background op) {e : Env}
    (well : SleepsWell op w e) : InTurn op w e := by
  cases op <;> first
    | exact well
    | exact aside.elim

theorem link_operations_honour : Pool.Honours LinkDeals act enabled SleepsWell LinkInv := by
  intro β op w e deal rest hdeal hinv can well
  cases hdeal with
  | background op deal aside hdeal =>
    obtain ⟨inv, desk, total, keeps⟩ := hinv
    obtain ⟨brought, after⟩ := operations_honour op w e deal rest.1 hdeal inv can (inTurn_of_background aside well)
    refine ⟨brought, after, desk, ?_, (aside_of_background aside can e).keeps keeps⟩
    exact total
  | beginRound =>
    refine ⟨trivial, ?_⟩
    obtain ⟨inv, desk, total, keeps⟩ := hinv
    have none : desk = none := by
      have free := keeps.inRound.symm.trans can
      cases desk with
      | none => rfl
      | some _ => cases free
    subst none
    refine .at ?_ (inv.congr rfl rfl rfl rfl rfl rfl rfl rfl) ⟨keeps.running, rfl, keeps.honest, keeps.books⟩
    exact (add_zero rest.2).symm.trans total
  | endRound p =>
    refine ⟨trivial, ?_⟩
    obtain ⟨inv, none, keeps⟩ := hinv.desk
    refine ⟨inv.congr rfl rfl rfl rfl rfl rfl rfl rfl, Option.none, ?_, keeps.running, rfl, keeps.honest, keeps.books.2⟩
    show rest.2 + 0 = 0
    rw [none, zero_add]
  | pending =>
    refine ⟨trivial, ?_⟩
    obtain ⟨inv, none, keeps⟩ := hinv.desk
    exact .at none inv ⟨keeps.running, keeps.inRound, keeps.honest, rfl, keeps.books⟩
  | again p =>
    obtain ⟨inv, none, keeps⟩ := hinv.desk
    exact ⟨keeps.books.1, .at none inv keeps⟩
  | readQueue =>
    obtain ⟨inv, desk, total, keeps⟩ := hinv
    exact ⟨keeps.running, inv, desk, total, keeps⟩
  | receive p waits =>
    refine ⟨trivial, ?_⟩
    obtain ⟨inv, none, keeps⟩ := hinv.desk
    obtain ⟨pending, resting⟩ := keeps.books
    unfold World.Resting at resting
    rw [pending, if_pos waits] at resting
    obtain ⟨-, after⟩ := operations_honour .receive w e _ rest.1 .receive inv trivial trivial
    cases queue : w.txQueue with
    | nil =>
      simp only [act, queue] at after ⊢
      exact .at none after keeps
    | cons success later =>
      simp only [act, queue] at after ⊢
      obtain ⟨phase, mode, -, stands, -⟩ := inv
      obtain ⟨rfl, -⟩ := stands.next queue
      exact .at none after ⟨keeps.running, keeps.inRound, keeps.honest, stands.became resting.1, resting.2⟩
  | clearInflight p success =>
    refine ⟨trivial, ?_⟩
    obtain ⟨inv, none, keeps⟩ := hinv.desk
    obtain ⟨-, after⟩ := operations_honour .clearInflight w e _ rest.1 .clearInflight inv trivial trivial
    exact .at none after ⟨keeps.running, keeps.inRound, keeps.honest, rfl, keeps.books.1, keeps.books.2⟩
  | noteAnswer p success first =>
    refine ⟨trivial, ?_⟩
    obtain ⟨inv, none, keeps⟩ := hinv.desk
    obtain ⟨past, became, noted⟩ := keeps.books
    rw [first] at noted
    refine .at none (inv.congr rfl rfl rfl rfl rfl rfl rfl rfl)
      ⟨keeps.running, keeps.inRound, keeps.honest.note ?_ rfl rfl, past, noted.note _ rfl⟩
    intro ok
    cases success with
    | true => exact became
    | false => cases ok
  | settle p =>
    refine ⟨trivial, ?_⟩
    obtain ⟨inv, none, keeps⟩ := hinv.desk
    exact .at none (inv.congr rfl rfl rfl rfl rfl rfl rfl rfl)
      ⟨keeps.running, keeps.inRound, keeps.honest, rfl, .free rfl keeps.books.1 keeps.books.2⟩
  | settleLate p success late =>
    refine ⟨trivial, ?_⟩
    obtain ⟨inv, none, keeps⟩ := hinv.desk
    obtain ⟨past, became, noted⟩ := keeps.books
    rw [late] at noted
    exact .at none (inv.congr rfl rfl rfl rfl rfl rfl rfl rfl)
      ⟨keeps.running, keeps.inRound, keeps.honest, rfl, .free rfl past noted⟩
  | noteTimeout p waits first =>
    refine ⟨trivial, ?_⟩
    obtain ⟨inv, none, keeps⟩ := hinv.desk
    obtain ⟨pending, resting⟩ := keeps.books
    unfold World.Resting at resting
    rw [pending, if_pos waits, first] at resting
    exact .at none (inv.congr rfl rfl rfl rfl rfl rfl rfl rfl)
      ⟨keeps.running, keeps.inRound, keeps.honest.note (fun ok => by cases ok) rfl rfl, waits, resting.1, resting.2.note _ rfl⟩
  | report p =>
    refine ⟨trivial, ?_⟩
    obtain ⟨inv, none, keeps⟩ := hinv.desk
    obtain ⟨waits, awaited, noted⟩ := keeps.books
    exact .at none (inv.congr rfl rfl rfl rfl rfl rfl rfl rfl)
      ⟨keeps.running, keeps.inRound, keeps.honest, rfl, .waiting waits awaited noted⟩
  | takeTx p free =>
    refine ⟨trivial, ?_⟩
    obtain ⟨inv, none, keeps⟩ := hinv.desk
    obtain ⟨pending, resting⟩ := keeps.books
    cases frame : e.frame with
    | none =>
      simp only [act, frame]
      exact .at none inv keeps
    | some taken =>
      simp only [act, frame]
      unfold World.Resting at resting
      rw [pending, if_neg (by rw [free]; decide)] at resting
      refine .at none (inv.congr rfl rfl rfl rfl rfl rfl rfl rfl)
        ⟨keeps.running, keeps.inRound, ?_, pending, free, resting.1, resting.2.take rfl⟩
      intro j ns there ok
      rw [getElem?_append] at there
      split at there
      · exact keeps.honest j ns there ok
      · have empty := mem_singleton.mp (mem_of_getElem? there)
        rw [empty] at ok
        cases ok
  | beginSend p frame =>
    refine ⟨trivial, ?_⟩
    obtain ⟨inv, none, keeps⟩ := hinv.desk
    obtain ⟨pending, free, past, noted⟩ := keeps.books
    obtain ⟨-, after⟩ := operations_honour .beginSend w e _ rest.1 .beginSend inv trivial fun _ _ => past
    rcases beginSend_cases w e with refused | ⟨-, begun⟩
    · simp only [refused] at after ⊢
      exact .at none after keeps
    · simp only [begun] at after ⊢
      exact .at none after ⟨keeps.running, keeps.inRound, keeps.honest, pending, free, noted⟩
  | espNowSend p frame =>
    refine ⟨trivial, ?_⟩
    obtain ⟨inv, none, keeps⟩ := hinv.desk
    obtain ⟨pending, free, noted⟩ := keeps.books
    obtain ⟨-, after⟩ := operations_honour (.espNowSend frame) w e _ rest.1 (.espNowSend frame) inv trivial trivial
    obtain ⟨mode, -, stands, runs, shown⟩ := inv.phase
    have up : w.driverUp = true := runs.up.trans (shown.active rfl).1
    by_cases accepted : e.error = .ok
    · simp only [act, up, accepted, if_true] at after ⊢
      refine .at none after ⟨keeps.running, keeps.inRound, ?_, ⟨?_, ?_⟩, noted⟩
      · intro j ns there ok
        exact mem_append_left _ (keeps.honest j ns there ok)
      · have same : w.outcomes.length = _ := congrArg List.length stands.outcomes
        simp [World.outcomes, Stage.phase, Phase.tail] at same
        simp [same]
      · simp
    · simp only [act, up, accepted, if_true, if_false] at after ⊢
      exact .at none after ⟨keeps.running, keeps.inRound, keeps.honest, pending, free, noted⟩
  | failSend p frame =>
    refine ⟨trivial, ?_⟩
    obtain ⟨inv, none, keeps⟩ := hinv.desk
    obtain ⟨-, after⟩ := operations_honour .failSend w e _ rest.1 .failSend inv trivial trivial
    obtain ⟨pending, free, noted⟩ := keeps.books
    exact .at none after ⟨keeps.running, keeps.inRound, keeps.honest, pending, free, rfl, noted⟩
  | noteError p frame error failed =>
    refine ⟨trivial, ?_⟩
    obtain ⟨inv, none, keeps⟩ := hinv.desk
    obtain ⟨pending, free, past, noted⟩ := keeps.books
    exact .at none (inv.congr rfl rfl rfl rfl rfl rfl rfl rfl)
      ⟨keeps.running, keeps.inRound, keeps.honest.note (fun ok => absurd ok failed) rfl rfl, pending,
        .free ((congrArg Pending.send pending).trans free) past (noted.note _ rfl)⟩
  | expect p frame nowMs =>
    refine ⟨trivial, ?_⟩
    obtain ⟨inv, none, keeps⟩ := hinv.desk
    exact .at none (inv.congr rfl rfl rfl rfl rfl rfl rfl rfl)
      ⟨keeps.running, keeps.inRound, keeps.honest, rfl, .waiting rfl keeps.books.1 keeps.books.2⟩

end SolarOs.EspNow
