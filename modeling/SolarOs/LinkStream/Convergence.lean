import SolarOs.LinkStream.Announced

/-! Whether two sides come to follow each other's current session while neither port
closes and no timeout is found. -/
namespace SolarOs.LinkStream

variable {s t : Stream} {source : UInt32} {linkSequence : UInt16} {frame : Action} {nowMs : UInt32}

def takesOpen (stream : Stream) (message : Link.Message) : Bool :=
  match streamDecode message with
  | .error _ => false
  | .ok d => findPeer stream message.source && stream.portOpen && d.opcode = .OPEN

theorem ingest_open (nowMs random : UInt32) (h : takesOpen s (actionMessage source linkSequence frame) = true) :
    frame.opcode = .OPEN ∧ frame.session ≠ 0 ∧
      (ingest s (actionMessage source linkSequence frame) nowMs random).1 =
        streamApplyAcknowledgement (adopted s frame.session nowMs random)
          frame.acknowledgementSession frame.acknowledgementSequence := by
  unfold takesOpen at h
  unfold ingest
  cases hdecode : streamDecode (actionMessage source linkSequence frame) with
  | error failure => simp [hdecode] at h
  | ok d =>
      obtain ⟨rfl, hsession⟩ := fields_of_streamDecode hdecode
      simp only [hdecode, Bool.and_eq_true, decide_eq_true_eq] at h
      obtain ⟨⟨hfind, hopen⟩, hopcode⟩ := h
      refine ⟨hopcode, hsession, ?_⟩
      simp only [if_pos hfind]
      generalize hresult : (ingestDecoded s frame.fields nowMs random).1 = u
      have hspec := ingestDecoded_spec s frame.fields nowMs random
      rw [hresult] at hspec
      cases hspec with
      | closed hclosed => simp [hopen] at hclosed
      | reopen _ _ => rfl
      | stale _ hne _ => exact absurd hopcode hne
      | followed _ hne _ => exact absurd hopcode hne

theorem takesOpen_had (random : UInt32)
    (h : takesOpen s (actionMessage source linkSequence frame) = true) (hs : s.Steady) :
    (ingest s (actionMessage source linkSequence frame) nowMs random).1.hadRemoteSession = true := by
  obtain ⟨-, hsession, heq⟩ := ingest_open nowMs random h
  rw [heq, (sameRemote_applyAcknowledgement _ _ _).hadRemoteSession]
  by_cases hfollowed : s.remoteSession = frame.session
  · rw [adopted_of_followed nowMs random hfollowed, (sameRemote_heard s nowMs).hadRemoteSession]
    by_contra hhad
    have hnone := hs.unheard (by simpa using hhad)
    exact hsession (hfollowed.symm.trans hnone)
  · rcases ingestOpen_follows (setLastError s .ok) frame.session random with ⟨hsame, -⟩ | ⟨-, -, hhad⟩
    · exact absurd hsame hfollowed
    · exact hhad

theorem ingest_open_rxQueue (random : UInt32) (h : takesOpen s (actionMessage source linkSequence frame) = true)
    (hfollowed : s.remoteSession = frame.session) :
    (ingest s (actionMessage source linkSequence frame) nowMs random).1.rxQueue = s.rxQueue := by
  obtain ⟨-, -, heq⟩ := ingest_open nowMs random h
  rw [heq, adopted_of_followed nowMs random hfollowed]
  rcases streamApplyAcknowledgement_spec (heard s nowMs) frame.acknowledgementSession
    frame.acknowledgementSequence with hsame | ⟨_, _, _, _, _, _, _, _, happlied⟩
  · rw [hsame]
    rfl
  · rw [happlied]
    rfl

namespace System
variable {σ τ : System} {x y z : Side} {e : Event} {events : List Event} {setup : Setup}

/-- The events in question: no port is closed, no transport stops, and no side finds
that it has heard nothing for the peer timeout. -/
def Lasting (σ : System) : Event → Prop
  | .portClose _ => False
  | .transportStopped _ => False
  | .prepare x nowMs => (σ.endpoint x).phase = .idle → timedOut (σ.stream x) nowMs = false
  | _ => True

instance (σ : System) : ∀ e, Decidable (σ.Lasting e)
  | .portClose _ => .isFalse id
  | .transportStopped _ => .isFalse id
  | .prepare _ _ => inferInstanceAs (Decidable (_ → _))
  | .portOpen _ _ => .isTrue trivial
  | .portRead _ => .isTrue trivial
  | .portWrite _ _ => .isTrue trivial
  | .send _ _ => .isTrue trivial
  | .complete _ => .isTrue trivial
  | .deliver _ _ _ _ => .isTrue trivial
  | .discard _ => .isTrue trivial

def Continued (σ : System) (events : List Event) : Prop :=
  Machine.Admits step (fun σ e => σ.Fresh e ∧ σ.Lasting e) σ events

instance (σ : System) (events : List Event) : Decidable (σ.Continued events) :=
  inferInstanceAs (Decidable (Machine.Admits step _ σ events))

/-- Whether an event delivers an OPEN to side `x`. -/
def opens (σ : System) (x : Side) : Event → Bool
  | .deliver y linkSequence _ _ =>
    match σ.headMessage? y linkSequence with
    | none => false
    | some message => y = x.other && takesOpen (σ.stream x) message
  | _ => false

/-- The number of OPENs a run delivers to side `x`. -/
def openDeliveries (x : Side) : System → List Event → Nat
  | _, [] => 0
  | σ, e :: events => (if σ.opens x e then 1 else 0) + openDeliveries x (σ.step e) events

/-- Each side follows the other's current session, or has followed none since its port
was opened and every OPEN on its way to it carries that session. -/
def InStep (σ : System) : Prop :=
  ∀ x, ((σ.stream x).hadRemoteSession = true ∧
      (σ.stream x).remoteSession = (σ.stream x.other).localSession) ∨
    ((σ.stream x).hadRemoteSession = false ∧ (σ.endpoint x.other).Current)

instance (σ : System) : Decidable σ.InStep :=
  inferInstanceAs (Decidable (∀ _, _ ∨ _))

/-- From here on the two sides follow each other's session, neither side draws a new one,
and an OPEN takes no received byte away. -/
structure Settled (σ : System) : Prop where
  follows : ∀ events, σ.Continued events → ∀ x,
    ((run σ events).stream x).remoteSession = ((run σ events).stream x.other).localSession
  kept : ∀ events, σ.Continued events → ∀ x,
    ((run σ events).stream x).localSession = (σ.stream x).localSession
  opensKeep : ∀ events e, σ.Continued (events ++ [e]) → ∀ x, (run σ events).opens x e = true →
    ((run σ (events ++ [e])).stream x).rxQueue = ((run σ events).stream x).rxQueue

/-- What such an event can do between two open ports: one side keeps its sessions and
announces no other, or it ingests a frame. -/
inductive Lasts (σ : System) : System → Prop
  | blocked : Lasts σ σ
  | kept z endpoint : endpoint.stream.portOpen = (σ.stream z).portOpen →
      endpoint.stream.localSession = (σ.stream z).localSession →
      SameRemote (σ.stream z) endpoint.stream →
      ((σ.endpoint z).Current → endpoint.Current) → Lasts σ (σ.put z endpoint σ.drawn)
  | ingested z {frame rest draws session t} : frame :: rest = σ.inFlight z →
      Follows (σ.stream z.other) frame draws t →
      NewSession (σ.stream z.other) t (draws = true) session →
      (draws = true → session ∉ σ.drawn) → session ≠ 0 →
      Lasts σ (σ.put z.other (σ.withStream z.other t) ((if draws then [session] else []) ++ σ.drawn))

theorem lasts_of_move (h : Announced σ) (hopen : ∀ x, (σ.stream x).portOpen = true)
    (hmove : Moves σ e τ) (hfresh : σ.Fresh e) (hlasting : σ.Lasting e) : Lasts σ τ := by
  have hsame : ∀ z (endpoint : Endpoint), SameSessions (σ.stream z) endpoint.stream →
      SameRemote (σ.stream z) endpoint.stream → endpoint.inFlight.Sublist (σ.inFlight z) →
      Lasts σ (σ.put z endpoint σ.drawn) := by
    intro z endpoint hsessions hremote hframes
    exact .kept z endpoint hsessions.portOpen hsessions.localSession hremote fun hcurrent =>
      hcurrent.of_sublist hsessions.localSession hframes
  cases hmove with
  | blocked => exact .blocked
  | portOpen z random =>
      have hkept : (streamPortOpen (σ.stream z) random).1 = σ.stream z := by
        rw [streamPortOpen_eq, hopen z, Bool.not_true, Bool.and_false]
        rfl
      have hnone : ((σ.stream z).active && !(σ.stream z).portOpen) = false := by
        rw [hopen z, Bool.not_true, Bool.and_false]
      rw [hkept, hnone]
      exact hsame z _ (.refl _) (.refl _) (.refl _)
  | portClose z => exact hlasting.elim
  | portRead z => exact hsame z _ (sameSessions_portRead _) (sameRemote_portRead _) (.refl _)
  | portWrite z byte =>
      exact hsame z _ (sameSessions_portWrite _ byte) (sameRemote_portWrite _ byte) (.refl _)
  | prepare z nowMs hphase =>
      have hsessions := sameSessions_prepare (σ.stream z) nowMs
      refine .kept z _ hsessions.portOpen hsessions.localSession (sameRemote_prepare (hlasting hphase)) ?_
      intro hcurrent
      refine hcurrent.append hsessions.localSession (inFlight_preparing hphase nowMs) fun a ha _ => ?_
      exact (prepared_session σ z nowMs (h.steady z) (hopen z) a (Option.mem_toList.mp ha)).2
  | send z action nowMs error hphase =>
      exact hsame z _ (.refl _) (.refl _) (inFlight_sending_sublist error hphase)
  | complete z action nowMs error hphase =>
      obtain ⟨hport, hlocal, -, -⟩ := processComplete_sessions (σ.stream z) action error nowMs
      refine .kept z _ hport hlocal (sameRemote_processComplete (σ.stream z) action error nowMs) ?_
      intro hcurrent
      refine hcurrent.of_sublist hlocal ?_
      rw [inFlight_completing hphase]
  | @deliver z linkSequence nowMs random frame rest hpipe =>
      exact .ingested z (inFlight_of_pipe hpipe).symm (ingest_follows _ _ linkSequence frame nowMs random)
        (ingest_newSession _ _ nowMs random) (hfresh.deliver hpipe) (streamNewSession_ne_zero random)
  | discard z => exact hsame z _ (.refl _) (.refl _) (inFlight_discarding_sublist _)
  | transportStopped z => exact hlasting.elim

theorem Lasts.portOpen (h : Lasts σ τ) (x : Side) : (τ.stream x).portOpen = (σ.stream x).portOpen := by
  cases h with
  | blocked => rfl
  | kept z endpoint hopen _ _ _ =>
      by_cases hx : x = z
      · rw [hx, stream_put_self, hopen]
      · rw [stream_put_of_ne _ _ _ hx]
  | ingested z _ _ hnew _ _ =>
      by_cases hx : x = z.other
      · rw [hx, stream_put_self, hnew.portOpen]
      · rw [stream_put_of_ne _ _ _ hx]

theorem Lasts.had (h : Lasts σ τ) (hhad : (σ.stream x).hadRemoteSession = true) :
    (τ.stream x).hadRemoteSession = true := by
  cases h with
  | blocked => exact hhad
  | kept z endpoint _ _ hremote _ =>
      by_cases hx : x = z
      · rw [hx, stream_put_self, hremote.hadRemoteSession, ← hx]
        exact hhad
      · rw [stream_put_of_ne _ _ _ hx]
        exact hhad
  | ingested z _ hfollows _ _ _ =>
      by_cases hx : x = z.other
      · rw [hx, stream_put_self]
        rw [hx] at hhad
        cases hfollows with
        | same _ hremote => exact hremote.hadRemoteSession.trans hhad
        | adopted _ _ _ _ _ hnew => exact hnew
        | dropped _ _ _ _ hsame => exact hsame.trans hhad
      · rw [stream_put_of_ne _ _ _ hx]
        exact hhad

theorem InStep.ingested {frame : Action} {rest : List Action} {draws : Bool} {t : Stream}
    (h : InStep σ) (hannounced : Announced σ) (hdrawn : SessionsDrawn σ)
    (hopen : ∀ x, (σ.stream x).portOpen = true) (hframes : frame :: rest = σ.inFlight z)
    (hfollows : Follows (σ.stream z.other) frame draws t) : draws = false ∧ (SameRemote (σ.stream z.other) t ∨
      (t.hadRemoteSession = true ∧ t.remoteSession = (σ.stream z).localSession)) := by
  have hmem : frame ∈ σ.inFlight z := hframes ▸ List.mem_cons_self
  have hstep := h z.other
  rw [Side.other_other] at hstep
  have hheeds := hannounced.heeds z.other
  rw [Side.other_other] at hheeds
  cases hfollows with
  | same hdraws hsame => exact ⟨hdraws, .inl hsame⟩
  | adopted hdraws hopcode hne _ hremote hhad =>
      rcases hstep with ⟨-, hmatched⟩ | ⟨hunheard, hcurrent⟩
      · have hcurrent := hheeds (hopen z) hmatched frame hmem hopcode
        exact absurd (hmatched.trans hcurrent.symm) hne
      · have hnone := (hannounced.steady z.other).unheard hunheard
        refine ⟨?_, .inr ⟨hhad, hremote.trans (hcurrent frame hmem hopcode)⟩⟩
        rw [hdraws]
        simp [openDraws, hnone, hunheard]
  | dropped _ hopcode hsession _ _ =>
      rcases hstep with ⟨-, hmatched⟩ | ⟨hunheard, -⟩
      · exact absurd (hsession.trans hmatched) ((hannounced.ordered z).closes (hopen z) frame hmem hopcode)
      · have hnone := (hannounced.steady z.other).unheard hunheard
        refine absurd ?_ hdrawn.zero
        rw [← hnone, ← hsession]
        exact hdrawn.framesDrawn z frame hmem

theorem InStep.lasts (h : InStep σ) (hannounced : Announced σ) (hdrawn : SessionsDrawn σ)
    (hopen : ∀ x, (σ.stream x).portOpen = true) (hlasts : Lasts σ τ) :
    InStep τ ∧ ∀ x, (τ.stream x).localSession = (σ.stream x).localSession := by
  cases hlasts with
  | blocked => exact ⟨h, fun _ => rfl⟩
  | kept z endpoint _ hlocal hremote hcurrent =>
      have hlocals : ∀ x, ((σ.put z endpoint σ.drawn).stream x).localSession =
          (σ.stream x).localSession := by
        intro x
        by_cases hx : x = z
        · rw [hx, stream_put_self, hlocal]
        · rw [stream_put_of_ne _ _ _ hx]
      refine ⟨fun x => ?_, hlocals⟩
      rw [hlocals x.other]
      have hstep := h x
      rcases x.eq_or_other z with rfl | rfl
      · rw [stream_put_self, endpoint_put_of_ne _ _ _ x.other_ne, hremote.hadRemoteSession, hremote.remoteSession]
        exact hstep
      · rw [stream_put_of_ne _ _ _ z.other_ne]
        rw [Side.other_other] at hstep ⊢
        rw [endpoint_put_self]
        exact hstep.imp id fun hunheard => ⟨hunheard.1, hcurrent hunheard.2⟩
  | @ingested z frame rest draws session t hframes hfollows hnew _ _ =>
      obtain ⟨rfl, hreceiver⟩ := h.ingested hannounced hdrawn hopen hframes hfollows
      have hlocal : t.localSession = (σ.stream z.other).localSession := by
        rcases hnew.localSession with ⟨hdraws, -⟩ | ⟨-, hsame⟩
        · cases hdraws
        · exact hsame
      have hlocals : ∀ x, ((σ.put z.other (σ.withStream z.other t) σ.drawn).stream x).localSession =
          (σ.stream x).localSession := by
        intro x
        by_cases hx : x = z.other
        · rw [hx, stream_put_self, hlocal]
        · rw [stream_put_of_ne _ _ _ hx]
      refine ⟨fun x => ?_, hlocals⟩
      have hput : ∀ x, ((σ.put z.other (σ.withStream z.other t) σ.drawn).endpoint x).Current ↔
          (σ.endpoint x).Current := by
        intro x
        by_cases hx : x = z.other
        · rw [hx, endpoint_put_self]
          unfold Endpoint.Current
          rw [hlocal]
          rfl
        · rw [endpoint_put_of_ne _ _ _ hx]
      have hstep := h x
      simp only [if_false, Bool.false_eq_true, List.nil_append]
      rw [hput x.other, hlocals x.other]
      by_cases hx : x = z.other
      · subst hx
        rw [stream_put_self, Side.other_other] at *
        rcases hreceiver with hsame | hfollowed
        · rw [hsame.hadRemoteSession, hsame.remoteSession]
          exact hstep
        · exact .inl hfollowed
      · rw [stream_put_of_ne _ _ _ hx]
        exact hstep

theorem inStep_iff (hhad : ∀ x, (σ.stream x).hadRemoteSession = true) :
    InStep σ ↔ ∀ x, (σ.stream x).remoteSession = (σ.stream x.other).localSession := by
  refine forall_congr' fun x => ?_
  simp [hhad x]

/-- Two sides that have both followed a session and are not in step never get in step:
an OPEN that changes what one of them follows makes it draw a session the other does not
follow. -/
theorem not_inStep_lasts (hannounced : Announced σ) (hdrawn : SessionsDrawn σ)
    (hopen : ∀ x, (σ.stream x).portOpen = true) (hhad : ∀ x, (σ.stream x).hadRemoteSession = true)
    (h : ¬ InStep σ) (hlasts : Lasts σ τ) : ¬ InStep τ := by
  rw [inStep_iff fun x => hlasts.had (hhad x), not_forall]
  rw [inStep_iff hhad, not_forall] at h
  obtain ⟨x, hx⟩ := h
  cases hlasts with
  | blocked => exact ⟨x, hx⟩
  | kept z endpoint _ hlocal hremote _ =>
      refine ⟨x, ?_⟩
      rcases x.eq_or_other z with rfl | rfl
      · rw [stream_put_self, stream_put_of_ne _ _ _ x.other_ne, hremote.remoteSession]
        exact hx
      · rw [Side.other_other] at hx ⊢
        rw [stream_put_self, stream_put_of_ne _ _ _ z.other_ne, hlocal]
        exact hx
  | @ingested z frame rest draws session t hframes hfollows hnew hfresh hne =>
      cases hfollows with
      | same hdraws hremote =>
          have hlocal : t.localSession = (σ.stream z.other).localSession := by
            rcases hnew.localSession with ⟨htrue, -⟩ | ⟨-, hsame⟩
            · rw [hdraws] at htrue
              cases htrue
            · exact hsame
          refine ⟨x, ?_⟩
          rcases x.eq_or_other z with rfl | rfl
          · rw [stream_put_self, stream_put_of_ne _ _ _ x.ne_other, hlocal]
            exact hx
          · rw [Side.other_other] at hx ⊢
            rw [stream_put_self, stream_put_of_ne _ _ _ z.ne_other, hremote.remoteSession]
            exact hx
      | adopted hdraws _ hnew' _ _ _ =>
          have htrue : draws = true := by
            rw [hdraws]
            simp [openDraws, hnew', hhad z.other]
          have hlocal : t.localSession = session := by
            rcases hnew.localSession with ⟨-, hsession⟩ | ⟨hfalse, -⟩
            · exact hsession
            · exact absurd htrue hfalse
          refine ⟨z, ?_⟩
          rw [stream_put_self, stream_put_of_ne _ _ _ z.ne_other, hlocal]
          exact (hannounced.unannounced hdrawn (hfresh htrue) hne z).2
      | dropped _ _ _ hremote _ =>
          refine ⟨z.other, ?_⟩
          rw [Side.other_other, stream_put_self, stream_put_of_ne _ _ _ z.ne_other, hremote]
          exact fun heq => hdrawn.local_ne_zero (hopen z) heq.symm

structure Joined (σ : System) : Prop where
  drawn : SessionsDrawn σ
  announced : Announced σ
  portsOpen : ∀ x, (σ.stream x).portOpen = true

theorem Joined.lasts (h : Joined σ) (hstep : σ.Fresh e ∧ σ.Lasting e) : Lasts σ (σ.step e) :=
  lasts_of_move h.announced h.portsOpen (step_moves σ e) hstep.1 hstep.2

theorem Joined.step (h : Joined σ) (hstep : σ.Fresh e ∧ σ.Lasting e) : Joined (σ.step e) where
  drawn := h.drawn.move (step_moves σ e)
  announced := h.announced.move h.drawn (step_moves σ e) hstep.1
  portsOpen := fun x => ((h.lasts hstep).portOpen x).trans (h.portsOpen x)

theorem Joined.run (h : Joined σ) (hrun : σ.Continued events) : Joined (run σ events) :=
  Machine.run_induct (fun _ _ hs hstep => hs.step hstep) h hrun

theorem InStep.run (h : InStep σ) (hjoined : Joined σ) (hrun : σ.Continued events) :
    InStep (run σ events) ∧ ∀ x, ((System.run σ events).stream x).localSession =
      (σ.stream x).localSession := by
  induction events generalizing σ with
  | nil => exact ⟨h, fun _ => rfl⟩
  | cons e events ih =>
      obtain ⟨hnext, hlocals⟩ := h.lasts hjoined.announced hjoined.drawn hjoined.portsOpen (hjoined.lasts hrun.1)
      obtain ⟨hlast, hkept⟩ := ih hnext (hjoined.step hrun.1) hrun.2
      exact ⟨hlast, fun x => (hkept x).trans (hlocals x)⟩

theorem had_run (hjoined : Joined σ) (hrun : σ.Continued events)
    (hhad : (σ.stream x).hadRemoteSession = true) : ((run σ events).stream x).hadRemoteSession = true := by
  induction events generalizing σ with
  | nil => exact hhad
  | cons e events ih =>
      exact ih (hjoined.step hrun.1) hrun.2 ((hjoined.lasts hrun.1).had hhad)

theorem not_inStep_run (h : ¬ InStep σ) (hjoined : Joined σ) (hrun : σ.Continued events)
    (hhad : ∀ x, (σ.stream x).hadRemoteSession = true) : ¬ InStep (run σ events) := by
  induction events generalizing σ with
  | nil => exact h
  | cons e events ih =>
      have hlasts := hjoined.lasts hrun.1
      exact ih (not_inStep_lasts hjoined.announced hjoined.drawn hjoined.portsOpen hhad h hlasts)
        (hjoined.step hrun.1) hrun.2 (fun x => hlasts.had (hhad x))

theorem not_settled (h : ¬ InStep σ) (hjoined : Joined σ) (hrun : σ.Continued events)
    (hhad : ∀ x, (σ.stream x).hadRemoteSession = true) : ¬ Settled (run σ events) := by
  intro hsettled
  refine not_inStep_run h hjoined hrun hhad ?_
  exact (inStep_iff fun x => had_run hjoined hrun (hhad x)).mpr (hsettled.follows [] trivial)

theorem opens_deliver (h : σ.opens x e = true) : ∃ linkSequence nowMs random frame rest,
    e = .deliver x.other linkSequence nowMs random ∧ (σ.endpoint x.other).pipe = frame :: rest ∧
      takesOpen (σ.stream x) (σ.messageFrom x.other linkSequence frame) = true ∧
      (σ.step e).stream x =
        (ingest (σ.stream x) (σ.messageFrom x.other linkSequence frame) nowMs random).1 := by
  cases e with
  | deliver y linkSequence nowMs random =>
      cases hpipe : (σ.endpoint y).pipe with
      | nil => simp [opens, headMessage?, hpipe] at h
      | cons frame rest =>
          have hhead := headMessage?_of_pipe linkSequence hpipe
          simp only [opens, hhead, Bool.and_eq_true, decide_eq_true_eq] at h
          obtain ⟨rfl, htakes⟩ := h
          refine ⟨linkSequence, nowMs, random, frame, rest, rfl, hpipe, htakes, ?_⟩
          simp [step, apply, hhead, setStream, stream, setEndpoint]
  | _ => simp [opens] at h

theorem had_of_openDeliveries (hjoined : Joined σ) (hrun : σ.Continued events)
    (hopens : 0 < openDeliveries x σ events) : ((run σ events).stream x).hadRemoteSession = true := by
  induction events generalizing σ with
  | nil => simp [openDeliveries] at hopens
  | cons e events ih =>
      by_cases hopen : σ.opens x e = true
      · obtain ⟨linkSequence, nowMs, random, frame, rest, -, -, htakes, hstream⟩ := opens_deliver hopen
        have hhad : ((σ.step e).stream x).hadRemoteSession = true := by
          rw [hstream]
          exact takesOpen_had random htakes (hjoined.announced.steady x)
        have hlast := had_run (hjoined.step hrun.1) hrun.2 hhad
        exact hlast
      · rw [openDeliveries, if_neg hopen, Nat.zero_add] at hopens
        exact ih (hjoined.step hrun.1) hrun.2 hopens

theorem InStep.settled (h : InStep σ) (hjoined : Joined σ)
    (hhad : ∀ x, (σ.stream x).hadRemoteSession = true) : Settled σ where
  follows := by
    intro events hrun
    exact (inStep_iff fun x => had_run hjoined hrun (hhad x)).mp (h.run hjoined hrun).1
  kept := fun events hrun => (h.run hjoined hrun).2
  opensKeep := by
    intro events e hrun x hopens
    have hbefore := (Machine.admits_append.mp hrun).1
    have hjoined' := hjoined.run hbefore
    have hfollows := (inStep_iff fun x => had_run hjoined hbefore (hhad x)).mp (h.run hjoined hbefore).1
    obtain ⟨linkSequence, nowMs, random, frame, rest, -, hpipe, htakes, hstream⟩ := opens_deliver hopens
    have hlast : System.run σ (events ++ [e]) = (System.run σ events).step e := by
      simp [System.run, Machine.run_append]
    rw [hlast, hstream]
    refine ingest_open_rxQueue random htakes ((hfollows x).trans ?_)
    have hmem : frame ∈ (System.run σ events).inFlight x.other := (inFlight_of_pipe hpipe).symm ▸ List.mem_cons_self
    have hopcode := (ingest_open nowMs random htakes).1
    exact (hjoined'.announced.heeds x (hjoined'.portsOpen x.other) (hfollows x) frame hmem hopcode).symm

theorem Reachable.joined (h : Reachable setup σ) (hopen : ∀ x, (σ.stream x).portOpen = true) : Joined σ where
  drawn := h.announced.1
  announced := h.announced.2
  portsOpen := hopen

/-- From a reachable state with both ports open: when the two sides are in step, one OPEN
delivered to each side that has followed no session settles them; and once both have
followed one, they settle exactly when they are in step. -/
theorem sessions_converge (setup : Setup) (σ : System) (h : Reachable setup σ)
    (hopen : ∀ x, (σ.stream x).portOpen = true) : (InStep σ → ∀ events, σ.Continued events →
      (∀ x, (σ.stream x).hadRemoteSession = true ∨ 0 < openDeliveries x σ events) →
        Settled (run σ events)) ∧ ((∀ x, (σ.stream x).hadRemoteSession = true) → ∀ events, σ.Continued events →
      (Settled (run σ events) ↔ InStep σ)) := by
  have hjoined := h.joined hopen
  have hsettles : InStep σ → ∀ events, σ.Continued events →
      (∀ x, (σ.stream x).hadRemoteSession = true ∨ 0 < openDeliveries x σ events) →
        Settled (run σ events) := by
    intro hstep events hrun hopens
    refine (hstep.run hjoined hrun).1.settled (hjoined.run hrun) fun x => ?_
    rcases hopens x with hhad | hdelivered
    · exact had_run hjoined hrun hhad
    · exact had_of_openDeliveries hjoined hrun hdelivered
  refine ⟨hsettles, fun hhad events hrun => ⟨fun hsettled => ?_, fun hstep => ?_⟩⟩
  · by_contra hnot
    exact not_settled hnot hjoined hrun hhad hsettled
  · exact hsettles hstep events hrun fun x => .inl (hhad x)

def bothOpen : List Event := [.portOpen .a 11, .portOpen .b 22]

theorem sessions_converge_bothOpen :
    openDeliveries .a (run (start pairSetup) bothOpen) (relay .a 1000 0 ++ relay .b 1002 0) = 1 ∧
      Settled (run (run (start pairSetup) bothOpen) (relay .a 1000 0 ++ relay .b 1002 0)) :=
  ⟨by decide, (sessions_converge pairSetup (run (start pairSetup) bothOpen)
    ⟨bothOpen, by decide, rfl⟩ (by decide)).1 (by decide)
    (relay .a 1000 0 ++ relay .b 1002 0) (by decide) (by decide)⟩

/-- After the first byte the side `b` hears nothing for the peer timeout, and the other
side takes its OPEN. -/
def peerTimeout : List Event := firstByte ++ relay .b 50000 0

def openExchange : List Event :=
  relay .a 50010 33 ++ relay .b 50012 44 ++ relay .a 50014 55 ++ relay .b 50016 66

/-- After the timeout of one side the two sides never settle; each OPEN they deliver
makes its receiver draw another session. -/
theorem peerTimeout_never_settles : Reachable pairSetup (run (start pairSetup) peerTimeout) ∧
      (∀ x, ((run (start pairSetup) peerTimeout).stream x).portOpen = true) ∧
      (∀ events, (run (start pairSetup) peerTimeout).Continued events →
        ¬ Settled (run (run (start pairSetup) peerTimeout) events)) ∧
      (run (start pairSetup) peerTimeout).Continued openExchange ∧
      openDeliveries .a (run (start pairSetup) peerTimeout) openExchange = 2 ∧
      openDeliveries .b (run (start pairSetup) peerTimeout) openExchange = 2 ∧
      (run (run (start pairSetup) peerTimeout) openExchange).drawn = [66, 55, 44, 33, 22, 11] := by
  have hreach : Reachable pairSetup (run (start pairSetup) peerTimeout) := ⟨peerTimeout, by decide, rfl⟩
  have hopen : ∀ x, ((run (start pairSetup) peerTimeout).stream x).portOpen = true := by
    decide
  have hhad : ∀ x, ((run (start pairSetup) peerTimeout).stream x).hadRemoteSession = true := by
    decide
  have hnot : ¬ InStep (run (start pairSetup) peerTimeout) := by decide
  exact ⟨hreach, hopen, fun events hrun => not_settled hnot (hreach.joined hopen) hrun hhad,
    by decide, by decide, by decide, by decide⟩

end System
end SolarOs.LinkStream
