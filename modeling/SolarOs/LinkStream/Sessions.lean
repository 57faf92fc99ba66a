import SolarOs.LinkStream.System

/-! Which operations change a stream's sessions, and that every session number in
use was drawn. -/
namespace SolarOs.LinkStream
open List

/-- The two streams have the same port state and sessions of their own. -/
structure SameSessions (s t : Stream) : Prop where
  active : t.active = s.active
  generation : t.generation = s.generation
  peerId : t.peerId = s.peerId
  portOpen : t.portOpen = s.portOpen
  localSession : t.localSession = s.localSession
  closePending : t.closePending = s.closePending
  closeSession : t.closeSession = s.closeSession

variable {s t u : Stream} {nowMs : UInt32}

theorem SameSessions.refl (s : Stream) : SameSessions s s := ⟨rfl, rfl, rfl, rfl, rfl, rfl, rfl⟩

theorem SameSessions.trans (h : SameSessions s t) (h' : SameSessions t u) : SameSessions s u :=
  ⟨h'.1.trans h.1, h'.2.trans h.2, h'.3.trans h.3, h'.4.trans h.4, h'.5.trans h.5, h'.6.trans h.6,
    h'.7.trans h.7⟩

section
variable (s : Stream)

theorem sameSessions_setLastError (error : EspErr) : SameSessions s (setLastError s error) :=
  ⟨rfl, rfl, rfl, rfl, rfl, rfl, rfl⟩

theorem sameSessions_countDropped : SameSessions s (countDropped s) :=
  ⟨rfl, rfl, rfl, rfl, rfl, rfl, rfl⟩

theorem sameSessions_portRead : SameSessions s (streamPortReadByte s).1 := by
  unfold streamPortReadByte
  split <;> exact ⟨rfl, rfl, rfl, rfl, rfl, rfl, rfl⟩

theorem sameSessions_portWrite (byte : UInt8) : SameSessions s (streamPortWriteByte s byte).1 := by
  unfold streamPortWriteByte
  split <;> exact ⟨rfl, rfl, rfl, rfl, rfl, rfl, rfl⟩

theorem sameSessions_checkPeerTimeout (nowMs : UInt32) : SameSessions s (checkPeerTimeout s nowMs) := by
  unfold checkPeerTimeout
  split <;> exact ⟨rfl, rfl, rfl, rfl, rfl, rfl, rfl⟩

theorem sameSessions_fillWindow (free : Nat) (s : Stream) : SameSessions s (fillWindow free s) := by
  induction free generalizing s with
  | zero => exact .refl s
  | succ free ih =>
      unfold fillWindow
      simp only
      split
      · exact .refl s
      · refine SameSessions.trans ?_ (ih _)
        exact ⟨rfl, rfl, rfl, rfl, rfl, rfl, rfl⟩

theorem sameSessions_prepare (nowMs : UInt32) : SameSessions s (streamPrepareAction s nowMs).1 := by
  refine (sameSessions_checkPeerTimeout s nowMs).trans ?_
  generalize checkPeerTimeout s nowMs = t, streamPrepareAction s nowMs = result,
    streamPrepareAction_spec s nowMs = hspec
  have hfilled : SameSessions t (filled t) := sameSessions_fillWindow _ t
  cases hspec with
  | nothing => exact .refl t
  | close _ => exact .refl t
  | reopen _ _ _ => exact .refl t
  | quiet _ _ => exact hfilled
  | acknowledge _ _ _ => exact hfilled
  | data _ _ hselect =>
      cases hselect with
      | first _ _ => exact hfilled
      | again _ _ => exact hfilled.trans ⟨rfl, rfl, rfl, rfl, rfl, rfl, rfl⟩

end

theorem prepare_session {action : Action} (h : (streamPrepareAction s nowMs).2 = some action) :
    (action.opcode = .CLOSE ∧ s.closePending = true ∧ action.session = s.closeSession) ∨
      (action.opcode ≠ .CLOSE ∧ s.portOpen = true ∧ action.session = s.localSession) := by
  have hsame := sameSessions_checkPeerTimeout s nowMs
  generalize checkPeerTimeout s nowMs = t, streamPrepareAction s nowMs = result,
    streamPrepareAction_spec s nowMs = hspec at h hsame
  have hfilled : SameSessions t (filled t) := sameSessions_fillWindow _ t
  cases hspec with
  | nothing => cases h
  | close hclose =>
      obtain rfl := Option.some.inj h
      exact .inl ⟨rfl, hsame.closePending ▸ hclose, hsame.closeSession⟩
  | reopen _ hopen _ =>
      obtain rfl := Option.some.inj h
      exact .inr ⟨nofun, hsame.portOpen ▸ hopen, hsame.localSession⟩
  | quiet _ _ => cases h
  | acknowledge hopen _ _ =>
      obtain rfl := Option.some.inj h
      exact .inr ⟨nofun, hsame.portOpen ▸ hopen, hfilled.localSession.trans hsame.localSession⟩
  | data hopen _ hselect =>
      obtain rfl := Option.some.inj h
      refine .inr ⟨nofun, hsame.portOpen ▸ hopen, ?_⟩
      cases hselect with
      | first _ _ | again _ _ => exact hfilled.localSession.trans hsame.localSession

theorem sameSessions_applyAcknowledgement (s : Stream) (session : UInt32) (sequence : UInt16) :
    SameSessions s (streamApplyAcknowledgement s session sequence) := by
  rcases streamApplyAcknowledgement_spec s session sequence with heq | ⟨_, _, _, _, _, _, _, _, heq⟩
  · rw [heq]
    exact .refl s
  · rw [heq]
    exact ⟨rfl, rfl, rfl, rfl, rfl, rfl, rfl⟩

theorem sameSessions_ingestSwitch (s : Stream) (d : Decoded) (nowMs : UInt32) :
    SameSessions s (ingestSwitch s d nowMs).1 := by
  have hschedule : ∀ t : Stream, SameSessions t (scheduleAcknowledgement t d.session nowMs) := by
    intro t
    unfold scheduleAcknowledgement
    split <;> exact ⟨rfl, rfl, rfl, rfl, rfl, rfl, rfl⟩
  unfold ingestSwitch
  split
  · exact .refl s
  · have hdropped := sameSessions_countDropped s
    have happended : SameSessions s (appendData s d) := ⟨rfl, rfl, rfl, rfl, rfl, rfl, rfl⟩
    unfold ingestData
    split_ifs
    · exact hdropped.trans (sameSessions_setLastError _ _)
    · exact hdropped.trans (sameSessions_setLastError _ _)
    · exact happended.trans (hschedule _)
    · exact hschedule s
    · exact hdropped.trans (hschedule _)
  · exact .refl s
  · exact ⟨rfl, rfl, rfl, rfl, rfl, rfl, rfl⟩

theorem sameSessions_transportStopped (s : Stream) : SameSessions s (transportStopped s) := by
  unfold transportStopped
  split
  · exact .refl s
  · exact ⟨rfl, rfl, rfl, rfl, rfl, rfl, rfl⟩

theorem sameSessions_noteRemoteSession (s : Stream) : SameSessions s (noteRemoteSession s) := by
  unfold noteRemoteSession
  split <;> exact ⟨rfl, rfl, rfl, rfl, rfl, rfl, rfl⟩

/-- The two streams agree but for a local session, which may be a new one. -/
structure NewSession (s t : Stream) (draws : Prop) (session : UInt32) : Prop where
  active : t.active = s.active
  generation : t.generation = s.generation
  peerId : t.peerId = s.peerId
  portOpen : t.portOpen = s.portOpen
  localSession : (draws ∧ t.localSession = session) ∨ (¬ draws ∧ t.localSession = s.localSession)
  closePending : t.closePending = s.closePending
  closeSession : t.closeSession = s.closeSession

theorem NewSession.of_same {draws : Prop} {session : UInt32} (h : SameSessions s t) (hnot : ¬ draws) :
    NewSession s t draws session :=
  ⟨h.active, h.generation, h.peerId, h.portOpen, .inr ⟨hnot, h.localSession⟩, h.closePending,
    h.closeSession⟩

theorem NewSession.trans_same {draws : Prop} {session : UInt32} (h : NewSession s t draws session)
    (h' : SameSessions t u) : NewSession s u draws session where
  active := h'.active.trans h.active
  generation := h'.generation.trans h.generation
  peerId := h'.peerId.trans h.peerId
  portOpen := h'.portOpen.trans h.portOpen
  localSession := by rw [h'.localSession]; exact h.localSession
  closePending := h'.closePending.trans h.closePending
  closeSession := h'.closeSession.trans h.closeSession

theorem ingestOpen_newSession (s : Stream) (session random : UInt32) :
    NewSession s (ingestOpen s session random) (openDraws s session = true)
      (streamNewSession random) := by
  have hadopt : SameSessions s (adoptSession s session) := ⟨rfl, rfl, rfl, rfl, rfl, rfl, rfl⟩
  unfold ingestOpen
  by_cases hne : s.remoteSession ≠ session
  · rw [if_pos hne]
    by_cases hdraw : s.remoteSession ≠ 0 ∨ s.hadRemoteSession = true
    · have hdraws : openDraws s session = true := by simpa [openDraws, hne] using hdraw
      simp only [if_pos hdraw]
      refine NewSession.trans_same ?_ (sameSessions_noteRemoteSession _)
      exact ⟨rfl, rfl, rfl, rfl, .inl ⟨hdraws, rfl⟩, rfl, rfl⟩
    · have hdraws : ¬ openDraws s session = true := by simpa [openDraws, hne] using hdraw
      simp only [if_neg hdraw]
      exact .of_same (hadopt.trans (sameSessions_noteRemoteSession _)) hdraws
  · have hdraws : ¬ openDraws s session = true := by
      simp only [openDraws, hne, decide_false, Bool.false_and, Bool.false_eq_true, not_false_eq_true]
    rw [if_neg hne]
    exact .of_same (.refl s) hdraws

theorem ingestDecoded_newSession (s : Stream) (d : Decoded) (nowMs random : UInt32) :
    NewSession s (ingestDecoded s d nowMs random).1 (decodedDraws s d = true)
      (streamNewSession random) := by
  generalize hresult : (ingestDecoded s d nowMs random).1 = t
  have hspec := ingestDecoded_spec s d nowMs random
  rw [hresult] at hspec
  cases hspec with
  | closed hclosed => exact .of_same (.refl s) (by simp [decodedDraws, hclosed])
  | reopen hopen hopcode =>
      have hdraws : decodedDraws s d = openDraws (setLastError s .ok) d.session := by
        simp [decodedDraws, hopen, hopcode, openDraws, setLastError]
      have hopened := ingestOpen_newSession (setLastError s .ok) d.session random
      rw [hdraws]
      refine NewSession.trans_same (t := adopted s d.session nowMs random) ?_ (sameSessions_applyAcknowledgement _ _ _)
      exact ⟨hopened.active, hopened.generation, hopened.peerId, hopened.portOpen,
        hopened.localSession, hopened.closePending, hopened.closeSession⟩
  | stale _ hopcode _ =>
      exact .of_same ((sameSessions_setLastError s .ok).trans ((sameSessions_countDropped _).trans
        (sameSessions_setLastError _ _))) (by simp [decodedDraws, hopcode])
  | followed _ hopcode _ =>
      have hheard : SameSessions s (heard s nowMs) := ⟨rfl, rfl, rfl, rfl, rfl, rfl, rfl⟩
      exact .of_same (hheard.trans ((sameSessions_applyAcknowledgement _ _ _).trans
        (sameSessions_ingestSwitch _ _ _))) (by simp [decodedDraws, hopcode])

theorem ingest_newSession (s : Stream) (message : Link.Message) (nowMs random : UInt32) :
    NewSession s (ingest s message nowMs random).1 (ingestDraws s message = true)
      (streamNewSession random) := by
  unfold ingest ingestDraws
  cases streamDecode message with
  | error failure =>
      refine .of_same ?_ (by simp)
      simp only
      split <;> exact ⟨rfl, rfl, rfl, rfl, rfl, rfl, rfl⟩
  | ok d =>
      cases hfind : findPeer s message.source with
      | false =>
          simp only [Bool.false_eq_true, if_false, Bool.false_and]
          exact .of_same (.refl s) (by simp)
      | true =>
          simp only [if_true, Bool.true_and]
          exact ingestDecoded_newSession s d nowMs random

theorem processComplete_sessions (s : Stream) (action : Action) (error : EspErr) (nowMs : UInt32) :
    (processComplete s action error nowMs).portOpen = s.portOpen ∧
      (processComplete s action error nowMs).localSession = s.localSession ∧
      ((processComplete s action error nowMs).closePending = true → s.closePending = true) ∧
      (processComplete s action error nowMs).closeSession = s.closeSession := by
  have hacknowledged : ∀ t : Stream, SameSessions t (completeAcknowledgement t action) := by
    intro t
    unfold completeAcknowledgement
    split <;> exact ⟨rfl, rfl, rfl, rfl, rfl, rfl, rfl⟩
  unfold processComplete
  simp only
  split_ifs
  · have hsame := (sameSessions_setLastError s error).trans (hacknowledged (setLastError s error))
    unfold completeSwitch
    split
    · exact ⟨hsame.portOpen, hsame.localSession, fun h => hsame.closePending ▸ h, hsame.closeSession⟩
    · exact ⟨hsame.portOpen, hsame.localSession, nofun, hsame.closeSession⟩
    · exact ⟨hsame.portOpen, hsame.localSession, fun h => hsame.closePending ▸ h, hsame.closeSession⟩
    · exact ⟨hsame.portOpen, hsame.localSession, fun h => hsame.closePending ▸ h, hsame.closeSession⟩
  · exact ⟨rfl, rfl, id, rfl⟩
  · exact ⟨rfl, rfl, id, rfl⟩

def Stream.Drawn (s : Stream) (drawn : List UInt32) : Prop :=
  (s.portOpen = true → s.localSession ∈ drawn) ∧ (s.closePending = true → s.closeSession ∈ drawn)

theorem SameSessions.drawn {drawn : List UInt32} (h : SameSessions s t) (hs : s.Drawn drawn) : t.Drawn drawn := by
  unfold Stream.Drawn
  rw [h.portOpen, h.localSession, h.closePending, h.closeSession]
  exact hs

theorem NewSession.drawn {draws : Bool} {session : UInt32} {drawn : List UInt32}
    (h : NewSession s t (draws = true) session) (hs : s.Drawn drawn) :
    t.Drawn ((if draws then [session] else []) ++ drawn) := by
  unfold Stream.Drawn
  rw [h.portOpen, h.closePending, h.closeSession]
  refine ⟨fun hopen => ?_, fun hclose => mem_append_right _ (hs.2 hclose)⟩
  rcases h.localSession with ⟨hdraws, hnew⟩ | ⟨-, hold⟩
  · rw [hnew, if_pos hdraws]
    exact mem_cons_self
  · rw [hold]
    exact mem_append_right _ (hs.1 hopen)

theorem Stream.Drawn.mono {drawn drawn' : List UInt32} (hs : s.Drawn drawn) (h : drawn ⊆ drawn') : s.Drawn drawn' :=
  ⟨fun hopen => h (hs.1 hopen), fun hclose => h (hs.2 hclose)⟩

namespace System
variable {σ τ : System} {x : Side} {e : Event}

structure SessionsDrawn (σ : System) : Prop where
  zero : 0 ∉ σ.drawn
  streams : ∀ x, (σ.stream x).Drawn σ.drawn
  framesDrawn : ∀ x, ∀ a ∈ σ.inFlight x, a.session ∈ σ.drawn

theorem SessionsDrawn.local_ne_zero (h : SessionsDrawn σ) (hopen : (σ.stream x).portOpen = true) :
    (σ.stream x).localSession ≠ 0 :=
  fun hzero => h.zero (hzero ▸ (h.streams x).1 hopen)

theorem SessionsDrawn.put {z : Side} {endpoint : Endpoint} {new : List UInt32}
    (h : SessionsDrawn σ) (hnew : 0 ∉ new) (hstream : endpoint.stream.Drawn (new ++ σ.drawn))
    (hframes : ∀ a ∈ endpoint.inFlight, a.session ∈ new ++ σ.drawn) :
    SessionsDrawn (σ.put z endpoint (new ++ σ.drawn)) where
  zero := by
    rw [put_drawn, mem_append]
    rintro (hzero | hzero)
    · exact hnew hzero
    · exact h.zero hzero
  streams := by
    intro x
    by_cases hx : x = z
    · subst hx
      rw [stream_put_self]
      exact hstream
    · rw [stream_put_of_ne _ _ _ hx]
      exact (h.streams x).mono (subset_append_right _ _)
  framesDrawn := by
    intro x a ha
    by_cases hx : x = z
    · subst hx
      rw [inFlight_put_self] at ha
      exact hframes a ha
    · rw [inFlight_put_of_ne _ _ _ hx] at ha
      exact mem_append_right _ (h.framesDrawn x a ha)

theorem SessionsDrawn.put_same {z : Side} {endpoint : Endpoint} (h : SessionsDrawn σ)
    (hstream : endpoint.stream.Drawn σ.drawn) (hframes : ∀ a ∈ endpoint.inFlight, a.session ∈ σ.drawn) :
    SessionsDrawn (σ.put z endpoint σ.drawn) := by
  have hnone : 0 ∉ ([] : List UInt32) := by simp
  exact h.put hnone hstream hframes

theorem zero_not_mem_new (draws : Bool) (random : UInt32) :
    0 ∉ if draws = true then [streamNewSession random] else [] := by
  split
  · simpa using (streamNewSession_ne_zero random).symm
  · simp

theorem sessionsDrawn_start (setup : Setup) : SessionsDrawn (start setup) where
  zero := by simp [start]
  streams := fun _ => ⟨nofun, nofun⟩
  framesDrawn := by
    intro x a ha
    simp [start, inFlight, Endpoint.inFlight, Phase.unsent] at ha

theorem SessionsDrawn.move (h : SessionsDrawn σ) (hmove : Moves σ e τ) : SessionsDrawn τ := by
  cases hmove with
  | blocked => exact h
  | portOpen z random =>
      refine h.put (zero_not_mem_new _ _) ?_ ?_
      · simp only [streamPortOpen_eq]
        cases hdraws : (σ.stream z).active && !(σ.stream z).portOpen with
        | false => exact h.streams z
        | true => exact ⟨fun _ => mem_cons_self, nofun⟩
      · exact fun a ha => mem_append_right _ (h.framesDrawn z a ha)
  | portClose z =>
      refine h.put_same ?_ (h.framesDrawn z)
      simp only [streamPortClose]
      split
      · exact h.streams z
      next hopen =>
        simp only [Bool.or_eq_true, Bool.not_eq_eq_eq_not, Bool.not_true, not_or, Bool.not_eq_false] at hopen
        exact ⟨nofun, fun _ => (h.streams z).1 hopen.2⟩
  | portRead z => exact h.put_same ((sameSessions_portRead _).drawn (h.streams z)) (h.framesDrawn z)
  | portWrite z byte =>
      exact h.put_same ((sameSessions_portWrite _ byte).drawn (h.streams z)) (h.framesDrawn z)
  | prepare z nowMs hphase =>
      refine h.put_same ((sameSessions_prepare _ nowMs).drawn (h.streams z)) fun a ha => ?_
      rw [inFlight_preparing hphase, mem_append, Option.mem_toList] at ha
      rcases ha with hold | hnew
      · exact h.framesDrawn z a hold
      · rcases prepare_session hnew with ⟨-, hclose, hsession⟩ | ⟨-, hopen, hsession⟩
        · rw [hsession]
          exact (h.streams z).2 hclose
        · rw [hsession]
          exact (h.streams z).1 hopen
  | send z action nowMs error hphase =>
      exact h.put_same (h.streams z) fun a ha =>
        h.framesDrawn z a ((inFlight_sending_sublist error hphase).subset ha)
  | complete z action nowMs error hphase =>
      obtain ⟨hopen, hlocal, hpending, hclose⟩ := processComplete_sessions (σ.stream z) action error nowMs
      refine h.put_same ⟨fun h' => ?_, fun h' => ?_⟩ fun a ha => ?_
      · exact hlocal.symm ▸ (h.streams z).1 (hopen ▸ h')
      · exact hclose.symm ▸ (h.streams z).2 (hpending h')
      · rw [inFlight_completing hphase] at ha
        exact h.framesDrawn z a ha
  | deliver z linkSequence nowMs random hpipe =>
      refine h.put (zero_not_mem_new _ _) ?_ ?_
      · exact (ingest_newSession _ _ nowMs random).drawn (h.streams z.other)
      · exact fun a ha => mem_append_right _ (h.framesDrawn z.other a ha)
  | discard z =>
      exact h.put_same (h.streams z) fun a ha =>
        h.framesDrawn z a ((inFlight_discarding_sublist _).subset ha)
  | transportStopped z =>
      exact h.put_same ((sameSessions_transportStopped _).drawn (h.streams z)) (h.framesDrawn z)

end System
end SolarOs.LinkStream
