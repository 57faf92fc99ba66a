import SolarOs.LinkStream.Sessions
import SolarOs.LinkStream.Sender
import SolarOs.LinkStream.Receiver

/-! Each direction of the two-stream system runs as a stop-and-wait direction. -/
namespace SolarOs.LinkStream
open Machine
open StopAndWait (Step Steps Inv Clean inSession mem_inSession)

namespace System
variable {σ : System} {x z : Side} {mayAdopt : Direction → UInt32 → Prop}

/-- The direction from side `x` to the other side. -/
def view (σ : System) (x : Side) : Direction :=
  direction σ.drawn (σ.stream x) (σ.inFlight x) (σ.inFlight x.other) (σ.stream x.other)

variable {drawn : List UInt32}

theorem lose_flight_steps {s r : Stream} {flight flight' back : List Action}
    (h : flight'.Sublist flight) : DirSteps mayAdopt (direction drawn s flight back r)
      (direction drawn s flight' back r) :=
  Relation.ReflTransGen.single
    ((Step.lose (h.filterMap Action.slot?) (.refl _)).to_eq rfl)

theorem lose_back_steps {s r : Stream} {flight back back' : List Action}
    (h : back'.Sublist back) : DirSteps mayAdopt (direction drawn s flight back r)
      (direction drawn s flight back' r) :=
  Relation.ReflTransGen.single ((Step.lose (.refl _)
    ((h.filterMap Action.acknowledgement?).append (.refl _))).to_eq rfl)

theorem view_steps_put {e : Endpoint} (hsender : DirSteps mayAdopt
      (direction σ.drawn (σ.stream z) (σ.inFlight z) (σ.inFlight z.other) (σ.stream z.other))
      (direction drawn e.stream e.inFlight (σ.inFlight z.other) (σ.stream z.other))) (hreceiver : DirSteps mayAdopt
      (direction σ.drawn (σ.stream z.other) (σ.inFlight z.other) (σ.inFlight z) (σ.stream z))
      (direction drawn (σ.stream z.other) (σ.inFlight z.other) e.inFlight e.stream)) (x : Side) :
    DirSteps mayAdopt (σ.view x) ((σ.put z e drawn).view x) := by
  rcases x.eq_or_other z with rfl | rfl
  · unfold view
    rw [stream_put_self, inFlight_put_self, stream_put_of_ne _ _ _ x.other_ne, inFlight_put_of_ne _ _ _ x.other_ne]
    exact hsender
  · unfold view
    rw [Side.other_other, stream_put_self, inFlight_put_self, stream_put_of_ne _ _ _ z.other_ne,
      inFlight_put_of_ne _ _ _ z.other_ne]
    exact hreceiver

/-- Sessions are followed anew only where `mayAdopt` allows it. -/
def AdoptsOnly (mayAdopt : Direction → UInt32 → Prop) (σ : System) (e : Event) : Prop :=
  ∀ y session, σ.adoption e = some (y, session) →
    ∀ d : Direction, d.appended = (σ.stream y).history.appended → mayAdopt d session

theorem view_steps {e : Event} {τ : System} (hmove : Moves σ e τ) (hdrawn : SessionsDrawn σ)
    (hshort : ∀ z, (σ.stream z).txWindow.length ≤ 1) (hfresh : σ.Fresh e)
    (hadopt : AdoptsOnly mayAdopt σ e) (x : Side) : DirSteps mayAdopt (σ.view x) (τ.view x) := by
  cases hmove with
  | blocked => exact .refl
  | portOpen z random =>
      refine view_steps_put (portOpen_sender_steps fun hdraws => ?_) (portOpen_receiver_steps _ _) x
      exact hfresh _ (if_pos hdraws)
  | portClose z => exact view_steps_put (portClose_sender_steps _) (portClose_receiver_steps _) x
  | portRead z =>
      exact view_steps_put (sameSender_portRead _).steps (sameReceiver_portRead _).steps x
  | portWrite z byte =>
      exact view_steps_put (sameSender_portWrite _ byte).steps (sameReceiver_portWrite _ byte).steps x
  | prepare z nowMs hphase =>
      refine view_steps_put ?_ ?_ x
      · rw [inFlight_preparing hphase]
        exact prepare_sender_steps _ nowMs
      · rw [inFlight_preparing hphase]
        exact prepare_receiver_steps _ nowMs
  | send z action nowMs error hphase =>
      have hsub := inFlight_sending_sublist error hphase
      refine view_steps_put ?_ ?_ x
      · exact lose_flight_steps hsub
      · exact lose_back_steps hsub
  | complete z action nowMs error hphase =>
      refine view_steps_put ?_ ?_ x
      · rw [inFlight_completing hphase]
        exact (sameSender_processComplete _ action error nowMs).steps
      · rw [inFlight_completing hphase]
        exact processComplete_receiver_steps _ action error nowMs
  | @deliver z linkSequence nowMs random frame rest hpipe =>
      have hflight := inFlight_of_pipe hpipe
      have hflight' : σ.inFlight z.other.other = frame :: (rest ++ (σ.endpoint z).phase.unsent) := by
        rw [Side.other_other]
        exact hflight
      have hhead : σ.headMessage? z linkSequence = some _ := headMessage?_of_pipe linkSequence hpipe
      refine view_steps_put (ingest_sender_steps hflight' ?_ (hshort _) ?_) (ingest_receiver_steps hflight' ?_ ?_) x
      · exact hdrawn.local_ne_zero
      · exact hfresh.deliver hpipe
      · exact hdrawn.framesDrawn z _ (hflight ▸ List.mem_cons_self)
      · intro session hsession
        refine hadopt z.other session ?_
        have hsession' : ingestAdopts (σ.stream z.other) (σ.messageFrom z linkSequence frame) = some session := hsession
        simp [adoption, hhead, hsession']
  | discard z =>
      have hsub := inFlight_discarding_sublist (σ.endpoint z)
      refine view_steps_put ?_ ?_ x
      · exact lose_flight_steps hsub
      · exact lose_back_steps hsub
  | transportStopped z =>
      exact view_steps_put (sameSender_transportStopped _).steps (transportStopped_receiver_steps _) x

end System

/-! Delivery over a Link stream: an acknowledged slot was appended by the peer, and
each slot is appended once as long as no stale OPEN restarts its session. -/

def Stream.Matched (s : Stream) : Prop :=
  ∀ release ∈ s.history.released, release.acknowledgementSession = release.slot.session

theorem Stream.Matched.of_released {s t : Stream} (hs : Matched s)
    (h : t.history.released = s.history.released) : Matched t := by
  unfold Matched
  rw [h]
  exact hs

theorem Stream.Matched.apply {s : Stream} (hs : Matched s) (session : UInt32) (sequence : UInt16) :
    Matched (streamApplyAcknowledgement s session sequence) := by
  rcases streamApplyAcknowledgement_spec s session sequence with
    heq | ⟨gone, kept, last, counters, hsession, -, -, -, heq⟩
  · rw [heq]
    exact hs
  · rw [heq]
    intro release hrelease
    rcases List.mem_append.mp hrelease with hold | hnew
    · exact hs release hold
    · obtain ⟨slot, -, rfl⟩ := List.mem_map.mp hnew
      exact hsession

theorem fillWindow_released (free : Nat) (s : Stream) : (fillWindow free s).history.released = s.history.released := by
  induction free generalizing s with
  | zero => rfl
  | succ free ih =>
      unfold fillWindow
      simp only
      split
      · rfl
      · rw [ih]

theorem prepare_released (s : Stream) (nowMs : UInt32) :
    (streamPrepareAction s nowMs).1.history.released = s.history.released := by
  have htimeout := (sameSender_checkPeerTimeout s nowMs).released
  rw [← htimeout]
  generalize checkPeerTimeout s nowMs = t, streamPrepareAction s nowMs = result,
    streamPrepareAction_spec s nowMs = hspec
  have hfilled : (filled t).history.released = t.history.released := fillWindow_released _ t
  cases hspec with
  | nothing => rfl
  | close _ => rfl
  | reopen _ _ _ => rfl
  | quiet _ _ => exact hfilled
  | acknowledge _ _ _ => exact hfilled
  | data _ _ hselect =>
      cases hselect with
      | first _ _ => exact hfilled
      | again _ _ => exact hfilled

theorem ingestOpen_released (s : Stream) (session random : UInt32) :
    (ingestOpen s session random).history.released = s.history.released := by
  unfold ingestOpen noteRemoteSession
  simp only
  split_ifs <;> rfl

theorem ingest_matched {s : Stream} (hs : Stream.Matched s) (message : Link.Message)
    (nowMs random : UInt32) : Stream.Matched (ingest s message nowMs random).1 := by
  unfold ingest
  cases streamDecode message with
  | error failure =>
      simp only
      split <;> exact hs
  | ok d =>
      simp only
      split
      · generalize hresult : (ingestDecoded s d nowMs random).1 = t
        have hspec := ingestDecoded_spec s d nowMs random
        rw [hresult] at hspec
        cases hspec with
        | closed _ => exact hs
        | reopen _ _ =>
            refine Stream.Matched.apply (hs.of_released ?_) _ _
            exact ingestOpen_released (setLastError s .ok) d.session random
        | stale _ _ _ => exact hs
        | followed _ _ _ =>
            have hheard : Stream.Matched (heard s nowMs) := hs
            exact (hheard.apply _ _).of_released (sameSender_ingestSwitch _ _ _).released
      · exact hs

namespace System
variable {σ τ : System} {e : Event} {setup : Setup} {events : List Event}

/-- The slots of session `s` that side `x` numbered. -/
def numberedIn (σ : System) (x : Side) (s : UInt32) : List SlotRecord :=
  inSession (σ.stream x).history.numbered s

/-- The slots of session `s` that side `x` appended to its `rx_queue`. -/
def appendedIn (σ : System) (x : Side) (s : UInt32) : List SlotRecord :=
  inSession (σ.stream x).history.appended s

/-- The slots of session `s` that side `x` removed from its window as acknowledged. -/
def releasedIn (σ : System) (x : Side) (s : UInt32) : List SlotRecord :=
  inSession ((σ.stream x).history.released.map Release.slot) s

structure Sound (σ : System) : Prop where
  drawn : SessionsDrawn σ
  directions : ∀ x, ∃ progress, Inv sequenceNumbering (σ.view x) progress

theorem Sound.windowShort (h : Sound σ) (x : Side) : (σ.stream x).txWindow.length ≤ 1 := by
  obtain ⟨progress, hinv⟩ := h.directions x
  have hshort := hinv.windowShort
  rwa [view, direction, List.length_map] at hshort

theorem sound_start (setup : Setup) : Sound (start setup) where
  drawn := sessionsDrawn_start setup
  directions := fun _ => ⟨fun _ => 0, Inv.initial _ rfl rfl rfl rfl rfl rfl rfl⟩

theorem Sound.move (h : Sound σ) (hmove : Moves σ e τ) (hfresh : σ.Fresh e) : Sound τ where
  drawn := h.drawn.move hmove
  directions := by
    intro x
    obtain ⟨progress, hinv⟩ := h.directions x
    have hany : AdoptsOnly (fun _ _ => True) σ e := fun _ _ _ _ _ => trivial
    exact hinv.steps (view_steps hmove h.drawn h.windowShort hfresh hany x)

theorem sound_run (h : Admissible setup events) : Sound (run (start setup) events) :=
  run_induct (fun σ e hs hfresh => hs.move (step_moves σ e) hfresh) (sound_start setup) h

theorem Moves.one_side (hmove : Moves σ e τ) (x : Side) :
    τ.stream x = σ.stream x ∨ τ.stream x.other = σ.stream x.other := by
  have hput : ∀ z endpoint drawn, (σ.put z endpoint drawn).stream x = σ.stream x ∨
      (σ.put z endpoint drawn).stream x.other = σ.stream x.other := by
    intro z endpoint drawn
    rcases x.eq_or_other z with rfl | rfl
    · exact .inr (stream_put_of_ne _ _ _ x.other_ne)
    · exact .inl (stream_put_of_ne _ _ _ z.other_ne)
  cases hmove with
  | blocked => exact .inl rfl
  | _ => exact hput _ _ _

theorem Sound.released_appended (h : Sound σ) (x : Side) (s : UInt32) :
    (σ.releasedIn x s).Sublist (σ.appendedIn x.other s) := by
  obtain ⟨progress, hinv⟩ := h.directions x
  exact hinv.released_appended s

theorem Sound.released_prefix (h : Sound σ) (x : Side) (s : UInt32) : σ.releasedIn x s <+: σ.numberedIn x s := by
  obtain ⟨progress, hinv⟩ := h.directions x
  exact hinv.releasedPrefix s

theorem matched_move (h : ∀ x, Stream.Matched (σ.stream x)) (hmove : Moves σ e τ) :
    ∀ x, Stream.Matched (τ.stream x) := by
  have hput : ∀ z endpoint drawn, Stream.Matched endpoint.stream →
      ∀ x, Stream.Matched ((σ.put z endpoint drawn).stream x) := by
    intro z endpoint drawn hendpoint x
    by_cases hx : x = z
    · rw [hx, stream_put_self]
      exact hendpoint
    · rw [stream_put_of_ne _ _ _ hx]
      exact h x
  cases hmove with
  | blocked => exact h
  | portOpen z random =>
      refine hput _ _ _ ((h z).of_released ?_)
      simp only [streamPortOpen_eq]
      split <;> rfl
  | portClose z =>
      refine hput _ _ _ ((h z).of_released ?_)
      simp only [streamPortClose]
      split <;> rfl
  | portRead z => exact hput _ _ _ ((h z).of_released (sameSender_portRead _).released)
  | portWrite z byte => exact hput _ _ _ ((h z).of_released (sameSender_portWrite _ byte).released)
  | prepare z nowMs _ => exact hput _ _ _ ((h z).of_released (prepare_released _ nowMs))
  | send z action nowMs error _ => exact hput _ _ _ (h z)
  | complete z action nowMs error _ =>
      exact hput _ _ _ ((h z).of_released (sameSender_processComplete _ action error nowMs).released)
  | deliver z linkSequence nowMs random _ => exact hput _ _ _ (ingest_matched (h _) _ _ _)
  | discard z => exact hput _ _ _ (h z)
  | transportStopped z =>
      exact hput _ _ _ ((h z).of_released (sameSender_transportStopped _).released)

theorem matched_run (setup : Setup) (events : List Event) (x : Side) :
    Stream.Matched ((run (start setup) events).stream x) := by
  have hstart : ∀ x, Stream.Matched ((start setup).stream x) := fun x release hrelease => by
    simp [start, stream, create] at hrelease
  have hall : Machine.Admits step (fun _ _ => True) (start setup) events := by
    generalize start setup = σ
    induction events generalizing σ with
    | nil => trivial
    | cons e events ih => exact ⟨trivial, ih _⟩
  have hmatched := run_induct (fun σ e h _ => matched_move h (step_moves σ e)) hstart hall
  exact hmatched x

/-- In every run, whatever one more event removes from a transmit window was appended
by the peer before that event, under the session of the slot, in the order numbered;
and the acknowledgement that removed a slot named that session. -/
theorem acknowledgement_sound (setup : Setup) (events : List Event) (e : Event)
    (h : Admissible setup (events ++ [e])) (x : Side) : (∀ s, releasedIn (run (start setup) (events ++ [e])) x s <+:
        numberedIn (run (start setup) (events ++ [e])) x s ∧
      (releasedIn (run (start setup) (events ++ [e])) x s).Sublist
        (appendedIn (run (start setup) events) x.other s)) ∧
    ∀ release ∈ ((run (start setup) (events ++ [e])).stream x).history.released,
      release.acknowledgementSession = release.slot.session := by
  have hsplit := admits_append.mp h
  have hbefore := sound_run hsplit.1
  have hafter := sound_run h
  refine ⟨fun s => ⟨hafter.released_prefix x s, ?_⟩, matched_run setup _ x⟩
  have hlast : run (start setup) (events ++ [e]) = (run (start setup) events).step e := by
    simp [run, run_append]
  rcases (step_moves (run (start setup) events) e).one_side x with hsame | hsame
  · have heq : releasedIn (run (start setup) (events ++ [e])) x s =
        releasedIn (run (start setup) events) x s := by
      rw [releasedIn, hlast, hsame, releasedIn]
    rw [heq]
    exact hbefore.released_appended x s
  · have heq : appendedIn (run (start setup) (events ++ [e])) x.other s =
        appendedIn (run (start setup) events) x.other s := by
      rw [appendedIn, hlast, hsame, appendedIn]
    rw [← heq]
    exact hafter.released_appended x s

theorem acknowledgement_sound_firstByte :
    releasedIn (run (start pairSetup) (firstByte ++ process .b 1050 ++ [.deliver .b 0 1051 0])) .a 11 =
        [⟨11, 1, [65]⟩] ∧
      (releasedIn (run (start pairSetup) (firstByte ++ process .b 1050 ++ [.deliver .b 0 1051 0]))
        .a 11).Sublist
        (appendedIn (run (start pairSetup) (firstByte ++ process .b 1050)) .b 11) :=
  ⟨by decide, ((acknowledgement_sound pairSetup (firstByte ++ process .b 1050)
    (.deliver .b 0 1051 0) (by decide) .a).1 11).2⟩

theorem genuine_run (h : Admissible setup events) : Sound (run (start setup) events) ∧
    ∀ x, ((run (start setup) events).view x).appended ⊆ ((run (start setup) events).view x).numbered := by
  refine run_induct (P := fun σ => Sound σ ∧ ∀ x, (σ.view x).appended ⊆ (σ.view x).numbered)
    (fun σ e hs hfresh => ⟨hs.1.move (step_moves σ e) hfresh, fun x => ?_⟩) ⟨sound_start setup, fun _ => nofun⟩ h
  obtain ⟨progress, hinv⟩ := hs.1.directions x
  have hany : AdoptsOnly (fun _ _ => True) σ e := fun _ _ _ _ _ => trivial
  exact hinv.genuine (view_steps (step_moves σ e) hs.1.drawn hs.1.windowShort hfresh hany x) (hs.2 x)

/-- Whatever the channels drop or repeat, and however often the sides start over: of a session at most the
last slot numbered is not yet appended by the peer, in the order numbered, and nothing else is appended. -/
theorem none_passed_over (setup : Setup) (events : List Event) (h : Admissible setup events) (x : Side) (s : UInt32) :
    (numberedIn (run (start setup) events) x s).dropLast.Sublist (appendedIn (run (start setup) events) x.other s) ∧
      appendedIn (run (start setup) events) x.other s ⊆ numberedIn (run (start setup) events) x s := by
  obtain ⟨hsound, hgenuine⟩ := genuine_run h
  obtain ⟨progress, hinv⟩ := hsound.directions x
  have hpassed : (numberedIn (run (start setup) events) x s).length ≤ progress s + 1 := hinv.progressGe s
  rw [List.dropLast_eq_take]
  refine ⟨(List.take_sublist_take_left (by omega)).trans (hinv.passed s), fun slot hslot => ?_⟩
  obtain ⟨hthere, hsession⟩ := mem_inSession.mp hslot
  exact mem_inSession.mpr ⟨hgenuine x hthere, hsession⟩

def secondByte : List Event :=
  firstByte ++ process .b 1050 ++ [.deliver .b 0 1051 0, .portWrite .a 66] ++ process .a 1100

theorem none_passed_over_secondByte :
    numberedIn (run (start pairSetup) secondByte) .a 11 = [⟨11, 1, [65]⟩, ⟨11, 2, [66]⟩] ∧
      (numberedIn (run (start pairSetup) secondByte) .a 11).dropLast.Sublist
        (appendedIn (run (start pairSetup) secondByte) .b 11) :=
  ⟨by decide, (none_passed_over pairSetup secondByte (by decide) .a 11).1⟩

def NoReturn (σ : System) (e : Event) : Prop :=
  ∀ y s, σ.adoption e = some (y, s) → σ.appendedIn y s = []

instance (σ : System) (e : Event) : Decidable (σ.NoReturn e) :=
  match h : σ.adoption e with
  | none => .isTrue fun y s hs => by rw [h] at hs; cases hs
  | some (y, s) => decidable_of_iff (σ.appendedIn y s = [])
      ⟨fun hs y' s' hs' => by rw [h] at hs'; cases hs'; exact hs, fun hr => hr y s h⟩

def Returnless (setup : Setup) (events : List Event) : Prop :=
  Machine.Admits step (fun σ e => σ.Fresh e ∧ σ.NoReturn e) (start setup) events

instance (setup : Setup) (events : List Event) : Decidable (Returnless setup events) :=
  inferInstanceAs (Decidable (Machine.Admits step _ (start setup) events))

structure Once (σ : System) : Prop extends Sound σ where
  clean : ∀ x, ∃ progress, Inv sequenceNumbering (σ.view x) progress ∧ Clean (σ.view x) progress

theorem once_start (setup : Setup) : Once (start setup) where
  toSound := sound_start setup
  clean := fun _ => ⟨fun _ => 0, Inv.initial _ rfl rfl rfl rfl rfl rfl rfl, Clean.initial _ rfl rfl⟩

theorem Once.move (h : Once σ) (hmove : Moves σ e τ) (hfresh : σ.Fresh e) (hreturn : σ.NoReturn e) : Once τ where
  toSound := h.toSound.move hmove hfresh
  clean := by
    intro x
    obtain ⟨progress, hinv, hclean⟩ := h.clean x
    have hnew : AdoptsOnly StopAndWait.AdoptsNew σ e := by
      intro y s hadopt d hd
      rw [StopAndWait.AdoptsNew, hd]
      exact hreturn y s hadopt
    exact hinv.steps_clean hclean (view_steps hmove h.drawn h.windowShort hfresh hnew x)

/-- In a run in which no side returns to a session, the slots a side appended from a
session are those its peer numbered in it, each once and in order. -/
theorem exactly_once (setup : Setup) (events : List Event) (h : Returnless setup events) (x : Side) (s : UInt32) :
    appendedIn (run (start setup) events) x.other s <+: numberedIn (run (start setup) events) x s := by
  have honce : Once (run (start setup) events) :=
    run_induct (fun σ e hs hboth => hs.move (step_moves σ e) hboth.1 hboth.2)
      (once_start setup) h
  obtain ⟨progress, -, hclean⟩ := honce.clean x
  exact hclean.appended_prefix s

theorem exactly_once_firstByte : appendedIn (run (start pairSetup) firstByte) .b 11 = [⟨11, 1, [65]⟩] ∧
      appendedIn (run (start pairSetup) firstByte) .b 11 <+:
        numberedIn (run (start pairSetup) firstByte) .a 11 :=
  ⟨by decide, exactly_once pairSetup firstByte (by decide) .a 11⟩

/-- The byte is read, its acknowledgement is lost, nothing is heard for the peer
timeout, and the sender's unchanged OPEN makes the receiver start again. -/
def staleOpen : List Event :=
  firstByte ++ [.portRead .b] ++ process .b 1050 ++ [.discard .b] ++ relay .b 50000 0 ++
    relay .a 50010 33 ++ relay .a 50012 0

/-- After a stale OPEN a slot numbered once is appended twice. -/
theorem staleOpen_appends_twice : Admissible pairSetup staleOpen ∧
      numberedIn (run (start pairSetup) staleOpen) .a 11 = [⟨11, 1, [65]⟩] ∧
      appendedIn (run (start pairSetup) staleOpen) .b 11 = [⟨11, 1, [65]⟩, ⟨11, 1, [65]⟩] := by
  decide

end System
end SolarOs.LinkStream
