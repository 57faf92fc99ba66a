import SolarOs.LinkStream.Delivery

/-! Which session a stream follows, and the order of the OPEN frames under way to it. -/
namespace SolarOs.LinkStream
open List

structure SameRemote (s t : Stream) : Prop where
  remoteSession : t.remoteSession = s.remoteSession
  hadRemoteSession : t.hadRemoteSession = s.hadRemoteSession

variable {s t u : Stream}

theorem SameRemote.refl (s : Stream) : SameRemote s s := ⟨rfl, rfl⟩

theorem SameRemote.trans (h : SameRemote s t) (h' : SameRemote t u) : SameRemote s u :=
  ⟨h'.1.trans h.1, h'.2.trans h.2⟩

theorem sameRemote_setLastError (s : Stream) (error : EspErr) : SameRemote s (setLastError s error) :=
  ⟨rfl, rfl⟩

theorem sameRemote_countDropped (s : Stream) : SameRemote s (countDropped s) := ⟨rfl, rfl⟩

theorem sameRemote_heard (s : Stream) (nowMs : UInt32) : SameRemote s (heard s nowMs) := ⟨rfl, rfl⟩

theorem sameRemote_fillWindow (free : Nat) (s : Stream) : SameRemote s (fillWindow free s) := by
  induction free generalizing s with
  | zero => exact .refl s
  | succ free ih =>
      unfold fillWindow
      simp only
      split
      · exact .refl s
      · refine SameRemote.trans ?_ (ih _)
        exact ⟨rfl, rfl⟩

theorem prepare_remote (s : Stream) (nowMs : UInt32) :
    SameRemote (checkPeerTimeout s nowMs) (streamPrepareAction s nowMs).1 := by
  generalize checkPeerTimeout s nowMs = t, streamPrepareAction s nowMs = result,
    streamPrepareAction_spec s nowMs = hspec
  have hfilled : SameRemote t (filled t) := sameRemote_fillWindow _ t
  cases hspec with
  | nothing => exact .refl t
  | close _ => exact .refl t
  | reopen _ _ _ => exact .refl t
  | quiet _ _ => exact hfilled
  | acknowledge _ _ _ => exact hfilled
  | data _ _ hselect =>
      cases hselect with
      | first _ _ => exact hfilled
      | again _ _ => exact hfilled.trans ⟨rfl, rfl⟩

theorem sameRemote_prepare {nowMs : UInt32} (h : timedOut s nowMs = false) :
    SameRemote s (streamPrepareAction s nowMs).1 := by
  have hsame := prepare_remote s nowMs
  rw [checkPeerTimeout, h] at hsame
  exact hsame

section
variable (s : Stream)

theorem prepare_follows (nowMs : UInt32) : SameRemote s (streamPrepareAction s nowMs).1 ∨
      ((streamPrepareAction s nowMs).1.remoteSession = 0 ∧
        (streamPrepareAction s nowMs).1.hadRemoteSession = s.hadRemoteSession) := by
  have hsame := prepare_remote s nowMs
  unfold checkPeerTimeout at hsame
  split at hsame
  · exact .inr ⟨hsame.remoteSession, hsame.hadRemoteSession⟩
  · exact .inl hsame

theorem sameRemote_processComplete (action : Action) (error : EspErr) (nowMs : UInt32) :
    SameRemote s (processComplete s action error nowMs) := by
  have hacknowledged : ∀ t : Stream, SameRemote t (completeAcknowledgement t action) := by
    intro t
    unfold completeAcknowledgement
    split <;> exact ⟨rfl, rfl⟩
  have hswitch : ∀ t : Stream, SameRemote t (completeSwitch t action nowMs) := by
    intro t
    unfold completeSwitch
    split <;> exact ⟨rfl, rfl⟩
  have herror := sameRemote_setLastError s error
  unfold processComplete
  simp only
  split_ifs
  · exact herror.trans ((hacknowledged _).trans (hswitch _))
  · exact herror
  · exact .refl s

theorem sameRemote_portRead : SameRemote s (streamPortReadByte s).1 := by
  unfold streamPortReadByte
  split <;> exact ⟨rfl, rfl⟩

theorem sameRemote_portWrite (byte : UInt8) : SameRemote s (streamPortWriteByte s byte).1 := by
  unfold streamPortWriteByte
  split <;> exact ⟨rfl, rfl⟩

theorem sameRemote_applyAcknowledgement (session : UInt32) (sequence : UInt16) :
    SameRemote s (streamApplyAcknowledgement s session sequence) := by
  rcases streamApplyAcknowledgement_spec s session sequence with heq | ⟨_, _, _, _, _, _, _, _, heq⟩
  · rw [heq]
    exact .refl s
  · rw [heq]
    exact ⟨rfl, rfl⟩

theorem sameRemote_ingestData (d : Decoded) (nowMs : UInt32) : SameRemote s (ingestData s d nowMs).1 := by
  have hschedule : ∀ t : Stream, SameRemote t (scheduleAcknowledgement t d.session nowMs) := by
    intro t
    unfold scheduleAcknowledgement
    split <;> exact ⟨rfl, rfl⟩
  have hdropped := sameRemote_countDropped s
  unfold ingestData
  split_ifs
  · exact hdropped.trans (sameRemote_setLastError _ _)
  · exact hdropped.trans (sameRemote_setLastError _ _)
  · exact SameRemote.trans (t := appendData s d) ⟨rfl, rfl⟩ (hschedule _)
  · exact hschedule s
  · exact hdropped.trans (hschedule _)

theorem transportStopped_remote :
    ((transportStopped s).remoteSession = s.remoteSession ∨ (transportStopped s).remoteSession = 0) ∧
      (transportStopped s).hadRemoteSession = s.hadRemoteSession := by
  unfold transportStopped
  split
  · exact ⟨.inl rfl, rfl⟩
  · exact ⟨.inr rfl, rfl⟩

/-- What ingesting a frame does to the session a stream follows, and whether it draws a
new session. -/
inductive Follows (s : Stream) (frame : Action) (draws : Bool) (t : Stream) : Prop
  | same : draws = false → SameRemote s t → Follows s frame draws t
  | adopted : draws = openDraws s frame.session → frame.opcode = .OPEN →
      s.remoteSession ≠ frame.session → s.portOpen = true → t.remoteSession = frame.session →
      t.hadRemoteSession = true → Follows s frame draws t
  | dropped : draws = false → frame.opcode = .CLOSE → frame.session = s.remoteSession →
      t.remoteSession = 0 → t.hadRemoteSession = s.hadRemoteSession → Follows s frame draws t

theorem ingestOpen_follows (session random : UInt32) : (s.remoteSession = session ∧ ingestOpen s session random = s) ∨
      (s.remoteSession ≠ session ∧ (ingestOpen s session random).remoteSession = session ∧
        (ingestOpen s session random).hadRemoteSession = true) := by
  have hnote : ∀ t : Stream, (noteRemoteSession t).remoteSession = t.remoteSession ∧
      (noteRemoteSession t).hadRemoteSession = true := by
    intro t
    unfold noteRemoteSession
    split
    next hhad => exact ⟨rfl, hhad⟩
    next => exact ⟨rfl, rfl⟩
  unfold ingestOpen
  by_cases hne : s.remoteSession ≠ session
  · rw [if_pos hne]
    refine .inr ⟨hne, ?_, (hnote _).2⟩
    simp only
    rw [(hnote _).1]
    split <;> rfl
  · rw [if_neg hne]
    exact .inl ⟨not_not.mp hne, rfl⟩

end

theorem adopted_of_followed {session : UInt32} (nowMs random : UInt32) (h : s.remoteSession = session) :
    adopted s session nowMs random = heard s nowMs := by
  rcases ingestOpen_follows (setLastError s .ok) session random with ⟨-, hkept⟩ | ⟨hne, -, -⟩
  · rw [adopted, hkept, heard]
  · exact absurd h hne

theorem ingestDecoded_follows (s : Stream) (frame : Action) (nowMs random : UInt32) :
    Follows s frame (decodedDraws s frame.fields) (ingestDecoded s frame.fields nowMs random).1 := by
  generalize hresult : (ingestDecoded s frame.fields nowMs random).1 = t
  have hspec := ingestDecoded_spec s frame.fields nowMs random
  rw [hresult] at hspec
  cases hspec with
  | closed hclosed => exact .same (by simp [decodedDraws, hclosed]) (.refl s)
  | stale _ hopcode _ =>
      exact .same (by simp [decodedDraws, hopcode]) ((sameRemote_setLastError s .ok).trans
        ((sameRemote_countDropped _).trans (sameRemote_setLastError _ _)))
  | reopen hopen hopcode =>
      have hdraws : decodedDraws s frame.fields = openDraws s frame.session := by
        have hopen' : (s.portOpen && decide (frame.fields.opcode = .OPEN)) = true := by
          simp [hopen, hopcode]
        rw [decodedDraws, hopen', Bool.true_and]
        rfl
      have happly := sameRemote_applyAcknowledgement (adopted s frame.session nowMs random)
        frame.fields.acknowledgementSession frame.fields.acknowledgementSequence
      by_cases hfollowed : s.remoteSession = frame.session
      · have hnone : decodedDraws s frame.fields = false := by
          rw [hdraws]
          simp [openDraws, hfollowed]
        rw [adopted_of_followed nowMs random hfollowed] at happly
        have hsame := (sameRemote_heard s nowMs).trans happly
        rw [← adopted_of_followed nowMs random hfollowed] at hsame
        exact .same hnone hsame
      · rcases ingestOpen_follows (setLastError s .ok) frame.session random with
          ⟨heq, -⟩ | ⟨-, hremote, hhad⟩
        · exact absurd heq hfollowed
        · exact .adopted hdraws hopcode hfollowed hopen (happly.remoteSession.trans hremote)
            (happly.hadRemoteSession.trans hhad)
  | followed hopen hopcode hsession =>
      have hnone : decodedDraws s frame.fields = false := by simp [decodedDraws, hopcode]
      have happly := sameRemote_applyAcknowledgement (heard s nowMs)
        frame.fields.acknowledgementSession frame.fields.acknowledgementSequence
      have hsame := (sameRemote_heard s nowMs).trans happly
      generalize streamApplyAcknowledgement (heard s nowMs) frame.fields.acknowledgementSession
        frame.fields.acknowledgementSequence = u at hsame
      unfold ingestSwitch
      split
      next => exact .same hnone hsame
      next => exact .same hnone (hsame.trans (sameRemote_ingestData u _ nowMs))
      next => exact .same hnone hsame
      next hclose => exact .dropped hnone hclose hsession rfl hsame.hadRemoteSession

theorem ingest_follows (s : Stream) (source : UInt32) (linkSequence : UInt16) (frame : Action)
    (nowMs random : UInt32) : Follows s frame (ingestDraws s (actionMessage source linkSequence frame))
      (ingest s (actionMessage source linkSequence frame) nowMs random).1 := by
  unfold ingest ingestDraws
  cases hdecode : streamDecode (actionMessage source linkSequence frame) with
  | error failure =>
      simp only
      split <;> exact .same rfl ⟨rfl, rfl⟩
  | ok d =>
      obtain ⟨rfl, -⟩ := fields_of_streamDecode hdecode
      simp only
      split
      next hfind =>
        rw [hfind, Bool.true_and]
        exact ingestDecoded_follows s frame nowMs random
      next hfind => exact .same (by simp [hfind]) (.refl s)

end SolarOs.LinkStream

namespace SolarOs.LinkStream
open List

/-- What a stream keeps by itself: a close is pending on a closed port only, and a side
that is closed or has heard nothing follows no session. -/
structure Stream.Steady (s : Stream) : Prop where
  closeClosed : s.closePending = true → s.portOpen = false
  closedAlone : s.portOpen = false → s.remoteSession = 0
  unheard : s.hadRemoteSession = false → s.remoteSession = 0

theorem Stream.Steady.of_remote {s t : Stream} (hs : s.Steady) (hopen : t.portOpen = s.portOpen)
    (hclose : t.closePending = true → s.closePending = true)
    (hremote : t.remoteSession = s.remoteSession ∨ t.remoteSession = 0)
    (hhad : t.hadRemoteSession = s.hadRemoteSession) : t.Steady where
  closeClosed := fun h => hopen.trans (hs.closeClosed (hclose h))
  closedAlone := by
    intro h
    rcases hremote with hsame | hnone
    · exact hsame.trans (hs.closedAlone (hopen ▸ h))
    · exact hnone
  unheard := by
    intro h
    rcases hremote with hsame | hnone
    · exact hsame.trans (hs.unheard (hhad ▸ h))
    · exact hnone

/-- No CLOSE of the current session of an open port is under way, and its current OPENs
come after every other OPEN. -/
structure Endpoint.Ordered (e : Endpoint) : Prop where
  closes : e.stream.portOpen = true → ∀ a ∈ e.inFlight, a.opcode = .CLOSE →
    a.session ≠ e.stream.localSession
  opens : e.stream.portOpen = true → e.inFlight.Pairwise fun a b => a.opcode = .OPEN →
    a.session = e.stream.localSession → b.opcode = .OPEN → b.session = e.stream.localSession

/-- Every OPEN on its way from `e` carries the current session of `e`. -/
def Endpoint.Current (e : Endpoint) : Prop :=
  ∀ a ∈ e.inFlight, a.opcode = .OPEN → a.session = e.stream.localSession

instance (e : Endpoint) : Decidable e.Current :=
  inferInstanceAs (Decidable (∀ a ∈ e.inFlight, a.opcode = .OPEN → a.session = e.stream.localSession))

/-- A side that follows the current session of an open port has only that session's
OPENs coming. -/
def Heeds (remote : UInt32) (e : Endpoint) : Prop :=
  e.stream.portOpen = true → remote = e.stream.localSession → e.Current

section Sender
variable {e e' : Endpoint} {remote : UInt32}

theorem Endpoint.Current.of_sublist (h : e.Current) (hlocal : e'.stream.localSession = e.stream.localSession)
    (hframes : e'.inFlight.Sublist e.inFlight) : e'.Current := by
  intro a ha hopcode
  rw [hlocal]
  exact h a (hframes.subset ha) hopcode

theorem Endpoint.Ordered.of_sublist (h : e.Ordered) (hopen : e'.stream.portOpen = e.stream.portOpen)
    (hlocal : e'.stream.localSession = e.stream.localSession)
    (hframes : e'.inFlight.Sublist e.inFlight) : e'.Ordered where
  closes := by
    rw [hopen, hlocal]
    exact fun h' a ha => h.closes h' a (hframes.subset ha)
  opens := by
    rw [hopen, hlocal]
    exact fun h' => (h.opens h').sublist hframes

theorem Heeds.of_sublist (h : Heeds remote e) (hopen : e'.stream.portOpen = e.stream.portOpen)
    (hlocal : e'.stream.localSession = e.stream.localSession)
    (hframes : e'.inFlight.Sublist e.inFlight) : Heeds remote e' := by
  unfold Heeds
  rw [hopen, hlocal]
  exact fun h' hremote => (h h' hremote).of_sublist hlocal hframes

theorem Endpoint.Ordered.of_unannounced (h : ∀ a ∈ e.inFlight, a.session ≠ e.stream.localSession) : e.Ordered where
  closes := fun _ a ha _ => h a ha
  opens := by
    intro _
    rw [pairwise_iff_forall_sublist]
    intro a b hab _ hsession
    exact absurd hsession (h a (hab.subset mem_cons_self))

theorem Heeds.of_ne (h : remote ≠ e.stream.localSession) : Heeds remote e := fun _ heq => absurd heq h

theorem Endpoint.Ordered.of_closed (h : e.stream.portOpen = false) : e.Ordered where
  closes := fun hopen => by simp [h] at hopen
  opens := fun hopen => by simp [h] at hopen

theorem Heeds.of_closed (h : e.stream.portOpen = false) : Heeds remote e :=
  fun hopen => by simp [h] at hopen

theorem Endpoint.Current.append (h : e.Current) {new : List Action}
    (hlocal : e'.stream.localSession = e.stream.localSession) (hframes : e'.inFlight = e.inFlight ++ new)
    (hnew : ∀ a ∈ new, a.opcode = .OPEN → a.session = e.stream.localSession) : e'.Current := by
  intro a ha hopcode
  rw [hframes, mem_append] at ha
  rw [hlocal]
  rcases ha with hold | hlast
  · exact h a hold hopcode
  · exact hnew a hlast hopcode

theorem Endpoint.Ordered.append (h : e.Ordered) {new : Option Action}
    (hopen : e'.stream.portOpen = e.stream.portOpen) (hlocal : e'.stream.localSession = e.stream.localSession)
    (hframes : e'.inFlight = e.inFlight ++ new.toList) (hnew : e.stream.portOpen = true → ∀ a ∈ new, a.opcode ≠ .CLOSE ∧
      a.session = e.stream.localSession) : e'.Ordered where
  closes := by
    rw [hopen, hlocal, hframes]
    intro h' a ha hopcode
    rw [mem_append, Option.mem_toList] at ha
    rcases ha with hold | hlast
    · exact h.closes h' a hold hopcode
    · exact absurd hopcode (hnew h' a hlast).1
  opens := by
    rw [hopen, hlocal, hframes]
    intro h'
    rw [pairwise_append]
    refine ⟨h.opens h', ?_, fun a _ b hb _ _ _ => (hnew h' b (Option.mem_toList.mp hb)).2⟩
    cases new with
    | none => exact List.Pairwise.nil
    | some a => exact pairwise_singleton _ _

theorem Endpoint.Ordered.current (h : e.Ordered) (hopen : e.stream.portOpen = true) {frame : Action}
    {rest : List Action} (hframes : e.inFlight = frame :: rest) (hopcode : frame.opcode = .OPEN)
    (hsession : frame.session = e.stream.localSession) : e.Current := by
  have hsorted := h.opens hopen
  rw [hframes, pairwise_cons] at hsorted
  intro a ha haopcode
  rw [hframes, mem_cons] at ha
  rcases ha with rfl | ha
  · exact hsession
  · exact hsorted.1 a ha hopcode hsession haopcode

end Sender

namespace System
variable {σ τ : System} {x z : Side} {e : Event}

/-- What holds of the sessions followed and announced in every reachable state. -/
structure Announced (σ : System) : Prop where
  steady : ∀ x, (σ.stream x).Steady
  ordered : ∀ x, (σ.endpoint x).Ordered
  heeds : ∀ x, Heeds (σ.stream x).remoteSession (σ.endpoint x.other)
  remoteDrawn : ∀ x, (σ.stream x).remoteSession ≠ 0 → (σ.stream x).remoteSession ∈ σ.drawn

theorem announced_start (setup : Setup) : Announced (start setup) where
  steady := fun _ => ⟨nofun, fun _ => rfl, fun _ => rfl⟩
  ordered := fun _ => .of_closed rfl
  heeds := fun _ => .of_closed rfl
  remoteDrawn := fun _ h => absurd rfl h

variable {endpoint : Endpoint}

theorem Announced.put {new : List UInt32} (h : Announced σ)
    (hsteady : endpoint.stream.Steady) (hordered : endpoint.Ordered)
    (hhears : Heeds endpoint.stream.remoteSession (σ.endpoint z.other))
    (hheard : Heeds (σ.stream z.other).remoteSession endpoint) (hremote : endpoint.stream.remoteSession ≠ 0 →
      endpoint.stream.remoteSession ∈ new ++ σ.drawn) : Announced (σ.put z endpoint (new ++ σ.drawn)) where
  steady := by
    intro x
    by_cases hx : x = z
    · subst hx
      rw [stream_put_self]
      exact hsteady
    · rw [stream_put_of_ne _ _ _ hx]
      exact h.steady x
  ordered := by
    intro x
    by_cases hx : x = z
    · subst hx
      rw [endpoint_put_self]
      exact hordered
    · rw [endpoint_put_of_ne _ _ _ hx]
      exact h.ordered x
  heeds := by
    intro x
    rcases x.eq_or_other z with rfl | rfl
    · rw [stream_put_self, endpoint_put_of_ne _ _ _ x.other_ne]
      exact hhears
    · rw [stream_put_of_ne _ _ _ z.other_ne, Side.other_other, endpoint_put_self]
      exact hheard
  remoteDrawn := by
    intro x
    by_cases hx : x = z
    · subst hx
      rw [stream_put_self]
      exact hremote
    · rw [stream_put_of_ne _ _ _ hx]
      exact fun hne => mem_append_right _ (h.remoteDrawn x hne)

theorem Announced.put_kept (h : Announced σ) (hsteady : endpoint.stream.Steady) (hordered : endpoint.Ordered)
    (hhears : Heeds endpoint.stream.remoteSession (σ.endpoint z.other))
    (hheard : Heeds (σ.stream z.other).remoteSession endpoint)
    (hremote : endpoint.stream.remoteSession ≠ 0 → endpoint.stream.remoteSession ∈ σ.drawn) :
    Announced (σ.put z endpoint σ.drawn) := by
  rw [← nil_append σ.drawn] at hremote
  exact h.put hsteady hordered hhears hheard hremote

theorem Announced.put_quiet (h : Announced σ) (hdrawn : SessionsDrawn σ)
    (hsteady : endpoint.stream.Steady) (hopen : endpoint.stream.portOpen = (σ.stream z).portOpen)
    (hlocal : endpoint.stream.localSession = (σ.stream z).localSession)
    (hremote : endpoint.stream.remoteSession = (σ.stream z).remoteSession ∨
      endpoint.stream.remoteSession = 0) (hframes : endpoint.inFlight.Sublist (σ.inFlight z)) :
    Announced (σ.put z endpoint σ.drawn) := by
  have hheard := h.heeds z.other
  rw [Side.other_other] at hheard
  refine h.put_kept hsteady ((h.ordered z).of_sublist hopen hlocal hframes) ?_
    (hheard.of_sublist hopen hlocal hframes) ?_
  · rcases hremote with hsame | hnone
    · rw [hsame]
      exact h.heeds z
    · rw [hnone]
      exact fun hother heq => absurd heq.symm (hdrawn.local_ne_zero hother)
  · rcases hremote with hsame | hnone
    · rw [hsame]
      exact h.remoteDrawn z
    · exact fun hne => absurd hnone hne

theorem Announced.put_same (h : Announced σ) (hdrawn : SessionsDrawn σ)
    (hsessions : SameSessions (σ.stream z) endpoint.stream) (hremote : SameRemote (σ.stream z) endpoint.stream)
    (hframes : endpoint.inFlight.Sublist (σ.inFlight z)) : Announced (σ.put z endpoint σ.drawn) := by
  refine h.put_quiet hdrawn ((h.steady z).of_remote hsessions.portOpen ?_ (.inl hremote.remoteSession)
    hremote.hadRemoteSession) hsessions.portOpen hsessions.localSession (.inl hremote.remoteSession)
    hframes
  exact fun hclose => hsessions.closePending ▸ hclose

theorem Announced.unannounced {session : UInt32} (h : Announced σ) (hdrawn : SessionsDrawn σ)
    (hfresh : session ∉ σ.drawn) (hne : session ≠ 0) (z : Side) :
    (∀ a ∈ σ.inFlight z, a.session ≠ session) ∧ (σ.stream z).remoteSession ≠ session := by
  refine ⟨fun a ha heq => hfresh (heq ▸ hdrawn.framesDrawn z a ha), fun heq => ?_⟩
  have hremote : (σ.stream z).remoteSession ≠ 0 := by
    rw [heq]
    exact hne
  exact hfresh (heq ▸ h.remoteDrawn z hremote)

theorem Announced.put_fresh {session : UInt32} (h : Announced σ) (hdrawn : SessionsDrawn σ)
    (hfresh : session ∉ σ.drawn) (hne : session ≠ 0) (hsteady : endpoint.stream.Steady)
    (hlocal : endpoint.stream.localSession = session) (hframes : endpoint.inFlight = σ.inFlight z)
    (hhears : Heeds endpoint.stream.remoteSession (σ.endpoint z.other))
    (hremote : endpoint.stream.remoteSession ≠ 0 → endpoint.stream.remoteSession ∈ σ.drawn) :
    Announced (σ.put z endpoint ([session] ++ σ.drawn)) := by
  refine h.put hsteady (.of_unannounced ?_) hhears (.of_ne ?_) fun hzero =>
    mem_append_right _ (hremote hzero)
  · rw [hframes, hlocal]
    exact (h.unannounced hdrawn hfresh hne z).1
  · rw [hlocal]
    exact (h.unannounced hdrawn hfresh hne z.other).2

theorem prepared_session (σ : System) (z : Side) (nowMs : UInt32) (h : (σ.stream z).Steady)
    (hopen : (σ.stream z).portOpen = true) : ∀ a ∈ (streamPrepareAction (σ.stream z) nowMs).2, a.opcode ≠ .CLOSE ∧
      a.session = (σ.stream z).localSession := by
  intro a ha
  rcases prepare_session ha with ⟨-, hclose, -⟩ | ⟨hopcode, -, hsession⟩
  · have hclosed := h.closeClosed hclose
    rw [hopen] at hclosed
    cases hclosed
  · exact ⟨hopcode, hsession⟩

theorem ingest_steady {s t : Stream} {frame : Action} {draws : Bool} {session : UInt32}
    (hs : s.Steady) (hnew : NewSession s t (draws = true) session) (hfollows : Follows s frame draws t) : t.Steady := by
  cases hfollows with
  | same _ hsame =>
      exact hs.of_remote hnew.portOpen (fun h => hnew.closePending ▸ h) (.inl hsame.remoteSession)
        hsame.hadRemoteSession
  | adopted _ _ _ hopen _ hhad =>
      have hopen' : t.portOpen = true := hnew.portOpen.trans hopen
      refine ⟨fun h => ?_, fun h => ?_, fun h => ?_⟩
      · have hclosed := hs.closeClosed (hnew.closePending ▸ h)
        rw [hopen] at hclosed
        cases hclosed
      · rw [hopen'] at h
        cases h
      · rw [hhad] at h
        cases h
  | dropped _ _ _ hremote hhad =>
      exact hs.of_remote hnew.portOpen (fun h => hnew.closePending ▸ h) (.inr hremote) hhad

theorem Announced.ingest_heeds {frame : Action} {rest : List Action} {draws : Bool} {t : Stream}
    (h : Announced σ) (hdrawn : SessionsDrawn σ) (hframes : σ.inFlight z = frame :: rest)
    (hfollows : Follows (σ.stream z.other) frame draws t) : Heeds t.remoteSession (σ.endpoint z) ∧
      (t.remoteSession ≠ 0 → t.remoteSession ∈ σ.drawn) := by
  have hheeds := h.heeds z.other
  rw [Side.other_other] at hheeds
  cases hfollows with
  | same _ hsame =>
      rw [hsame.remoteSession]
      exact ⟨hheeds, h.remoteDrawn z.other⟩
  | adopted _ hopcode _ _ hremote _ =>
      rw [hremote]
      refine ⟨fun hopen hcurrent => (h.ordered z).current hopen hframes hopcode hcurrent, fun _ => ?_⟩
      exact hdrawn.framesDrawn z frame (hframes ▸ mem_cons_self)
  | dropped _ _ _ hremote _ =>
      rw [hremote]
      exact ⟨fun hopen heq => absurd heq.symm (hdrawn.local_ne_zero hopen), fun hne => absurd rfl hne⟩

theorem Announced.move (h : Announced σ) (hdrawn : SessionsDrawn σ) (hmove : Moves σ e τ)
    (hfresh : σ.Fresh e) : Announced τ := by
  cases hmove with
  | blocked => exact h
  | portOpen z random =>
      simp only [streamPortOpen_eq]
      cases hdraws : (σ.stream z).active && !(σ.stream z).portOpen with
      | false =>
          exact h.put_quiet hdrawn (h.steady z) rfl rfl (.inl rfl) (.refl _)
      | true =>
          refine h.put_fresh hdrawn (hfresh _ (if_pos hdraws)) (streamNewSession_ne_zero random)
            ⟨nofun, nofun, fun _ => rfl⟩ rfl rfl ?_ (fun hne => absurd rfl hne)
          exact fun hopen heq => absurd heq.symm (hdrawn.local_ne_zero hopen)
  | portClose z =>
      simp only [streamPortClose]
      split
      · exact h.put_quiet hdrawn (h.steady z) rfl rfl (.inl rfl) (.refl _)
      · refine h.put_kept ⟨fun _ => rfl, fun _ => rfl, fun _ => rfl⟩ (.of_closed rfl) ?_
          (.of_closed rfl) (fun hne => absurd rfl hne)
        exact fun hopen heq => absurd heq.symm (hdrawn.local_ne_zero hopen)
  | portRead z =>
      exact h.put_same hdrawn (sameSessions_portRead _) (sameRemote_portRead _) (.refl _)
  | portWrite z byte =>
      exact h.put_same hdrawn (sameSessions_portWrite _ byte) (sameRemote_portWrite _ byte) (.refl _)
  | prepare z nowMs hphase =>
      have hsessions := sameSessions_prepare (σ.stream z) nowMs
      have hframes := inFlight_preparing hphase nowMs
      have hnew := prepared_session σ z nowMs (h.steady z)
      have hheard := h.heeds z.other
      rw [Side.other_other] at hheard
      have hfollows := prepare_follows (σ.stream z) nowMs
      refine h.put_kept ?_ ((h.ordered z).append hsessions.portOpen hsessions.localSession hframes hnew) ?_ ?_ ?_
      · refine (h.steady z).of_remote hsessions.portOpen (fun hc => hsessions.closePending ▸ hc) ?_ ?_
        · exact hfollows.imp SameRemote.remoteSession And.left
        · exact hfollows.elim SameRemote.hadRemoteSession And.right
      · rcases hfollows with hsame | ⟨hnone, -⟩
        · exact hsame.remoteSession ▸ h.heeds z
        · exact fun hopen heq => absurd (heq.symm.trans hnone) (hdrawn.local_ne_zero hopen)
      · intro hopen heq
        have hopen' : (σ.stream z).portOpen = true := hsessions.portOpen ▸ hopen
        refine (hheard hopen' (heq.trans hsessions.localSession)).append hsessions.localSession hframes ?_
        exact fun a ha _ => (hnew hopen' a (Option.mem_toList.mp ha)).2
      · rcases hfollows with hsame | ⟨hnone, -⟩
        · exact hsame.remoteSession ▸ h.remoteDrawn z
        · exact fun hne => absurd hnone hne
  | send z action nowMs error hphase =>
      exact h.put_same hdrawn (.refl _) (.refl _) (inFlight_sending_sublist error hphase)
  | complete z action nowMs error hphase =>
      obtain ⟨hopen, hlocal, hpending, -⟩ := processComplete_sessions (σ.stream z) action error nowMs
      have hremote := sameRemote_processComplete (σ.stream z) action error nowMs
      refine h.put_quiet hdrawn ((h.steady z).of_remote hopen hpending (.inl hremote.remoteSession)
        hremote.hadRemoteSession) hopen hlocal (.inl hremote.remoteSession) ?_
      rw [inFlight_completing hphase]
      exact List.Sublist.refl _
  | @deliver z linkSequence nowMs random frame rest hpipe =>
      have hfollows := ingest_follows (σ.stream z.other) (σ.stream z.other).peerId linkSequence frame nowMs random
      have hnew := ingest_newSession (σ.stream z.other) (σ.messageFrom z linkSequence frame) nowMs random
      have hsteady := ingest_steady (h.steady z.other) hnew hfollows
      obtain ⟨hheeds, hremote⟩ := h.ingest_heeds hdrawn (inFlight_of_pipe hpipe) hfollows
      have hheard := h.heeds z
      rcases hnew.localSession with ⟨hdraws, hlocal⟩ | ⟨hkeeps, hlocal⟩
      · rw [if_pos hdraws]
        refine h.put_fresh hdrawn (hfresh.deliver hpipe hdraws) (streamNewSession_ne_zero random)
          hsteady hlocal rfl ?_ hremote
        rw [Side.other_other]
        exact hheeds
      · rw [if_neg hkeeps]
        refine h.put_kept hsteady ((h.ordered z.other).of_sublist hnew.portOpen hlocal (.refl _)) ?_ ?_ hremote
        · rw [Side.other_other]
          exact hheeds
        · rw [Side.other_other]
          exact hheard.of_sublist hnew.portOpen hlocal (.refl _)
  | discard z => exact h.put_same hdrawn (.refl _) (.refl _) (inFlight_discarding_sublist _)
  | transportStopped z =>
      have hsessions := sameSessions_transportStopped (σ.stream z)
      obtain ⟨hremote, hhad⟩ := transportStopped_remote (σ.stream z)
      exact h.put_quiet hdrawn ((h.steady z).of_remote hsessions.portOpen
        (fun hc => hsessions.closePending ▸ hc) hremote hhad) hsessions.portOpen hsessions.localSession
        hremote (.refl _)

theorem Reachable.announced {setup : Setup} (h : Reachable setup σ) : SessionsDrawn σ ∧ Announced σ := by
  obtain ⟨events, hadm, rfl⟩ := h
  have hmove : ∀ σ e, SessionsDrawn σ ∧ Announced σ → σ.Fresh e →
      SessionsDrawn (σ.step e) ∧ Announced (σ.step e) := by
    intro σ e hs hfresh
    exact ⟨hs.1.move (step_moves σ e), hs.2.move hs.1 (step_moves σ e) hfresh⟩
  exact Machine.run_induct hmove ⟨sessionsDrawn_start setup, announced_start setup⟩ hadm

end System
end SolarOs.LinkStream
