import SolarOs.LinkStream.Direction

/-! What the operations of a stream do to the direction it receives in. -/
namespace SolarOs.LinkStream
open List
open StopAndWait (Step Steps)

variable {drawn : List UInt32} {s r t : Stream} {flight back : List Action}
  {mayAdopt : Direction → UInt32 → Prop}

theorem forget_steps (hremote : t.remoteSession = 0) (hpending : t.acknowledgementPending = false)
    (happended : t.history.appended = r.history.appended) :
    DirSteps mayAdopt (direction drawn s flight back r) (direction drawn s flight back t) := by
  have hlose : Step sequenceNumbering mayAdopt (direction drawn s flight back r) _ :=
    .lose (.refl _) (sublist_append_left (back.filterMap Action.acknowledgement?) r.owed)
  refine (Relation.ReflTransGen.single hlose).tail ((Step.forget t.expectedRxSequence t.receivedAny).to_eq ?_)
  simp [direction, Stream.owed, Stream.remote?, hremote, hpending, happended]

theorem adoptSession_steps {session : UInt32} (hsession : session ≠ 0)
    (hadopt : ∀ d : Direction, d.appended = r.history.appended → mayAdopt d session) :
    DirSteps mayAdopt (direction drawn s flight back r)
      (direction drawn s flight back (adoptSession r session)) := by
  have hlose : Step sequenceNumbering mayAdopt (direction drawn s flight back r) _ :=
    .lose (.refl _) (sublist_append_left (back.filterMap Action.acknowledgement?) r.owed)
  refine (Relation.ReflTransGen.single hlose).tail ((Step.adopt (hadopt _ rfl)).to_eq ?_)
  simp [direction, Stream.owed, Stream.remote?, adoptSession, hsession]

theorem sameReceiver_noteRemoteSession (r : Stream) : SameReceiver r (noteRemoteSession r) := by
  unfold noteRemoteSession
  split <;> exact ⟨rfl, rfl, rfl, rfl, rfl⟩

theorem resetLocal_receiver_steps (keep : Bool) (random : UInt32) : DirSteps mayAdopt (direction drawn s flight back r)
      (direction (streamNewSession random :: drawn) s flight back (streamResetLocal r keep random)) := by
  have hsame : SameReceiver r (streamResetLocal r keep random) := ⟨rfl, rfl, rfl, rfl, rfl⟩
  refine Relation.ReflTransGen.single ((Step.draw (streamNewSession random)).to_eq ?_)
  rw [hsame.direction_eq]
  rfl

theorem ingestOpen_receiver_steps {session : UInt32} (random : UInt32) (hsession : session ≠ 0)
    (hadopt : r.remoteSession ≠ session →
      ∀ d : Direction, d.appended = r.history.appended → mayAdopt d session) :
    DirSteps mayAdopt (direction drawn s flight back r)
      (direction ((if openDraws r session then [streamNewSession random] else []) ++ drawn) s flight back
        (ingestOpen r session random)) := by
  unfold ingestOpen
  by_cases hne : r.remoteSession ≠ session
  · rw [if_pos hne]
    refine (adoptSession_steps hsession (hadopt hne)).trans ?_
    by_cases hdraw : r.remoteSession ≠ 0 ∨ r.hadRemoteSession = true
    · have hdraws : openDraws r session = true := by simpa [openDraws, hne] using hdraw
      simp only [if_pos hdraw, hdraws, if_true, singleton_append]
      exact (resetLocal_receiver_steps true random).trans (sameReceiver_noteRemoteSession _).steps
    · have hdraws : openDraws r session = false := by simpa [openDraws, hne] using hdraw
      simp only [if_neg hdraw, hdraws, Bool.false_eq_true, if_false, nil_append]
      exact (sameReceiver_noteRemoteSession _).steps
  · have hdraws : openDraws r session = false := by
      simp only [openDraws, hne, decide_false, Bool.false_and]
    rw [if_neg hne, hdraws]
    exact .refl

theorem sameReceiver_applyAcknowledgement (r : Stream) (session : UInt32) (sequence : UInt16) :
    SameReceiver r (streamApplyAcknowledgement r session sequence) := by
  rcases streamApplyAcknowledgement_spec r session sequence with heq | ⟨_, _, _, _, _, _, _, _, heq⟩
  · rw [heq]
    exact .refl r
  · rw [heq]
    exact ⟨rfl, rfl, rfl, rfl, rfl⟩

variable {rest : List Action} {frame : Action}

theorem appendData_steps (hflight : flight = frame :: rest) (hopcode : frame.opcode = .DATA)
    (hsession : frame.session = r.remoteSession) (hne : frame.session ≠ 0)
    (hsequence : frame.sequence = r.expectedRxSequence) : DirSteps mayAdopt (direction drawn s flight back r)
      (direction drawn s flight back (appendData r frame.fields)) := by
  have hdata : (direction drawn s flight back r).data =
      ⟨frame.session, frame.sequence, frame.data⟩ :: rest.filterMap Action.slot? := by
    simp [direction, hflight, Action.slot?, hopcode]
  have hremote : (direction drawn s flight back r).remote = some frame.session := by
    simp [direction, Stream.remote?, ← hsession, hne]
  refine Relation.ReflTransGen.single ((Step.accept hdata hremote hsequence).to_eq ?_)
  rfl

theorem scheduleAcknowledgement_steps {session nowMs : UInt32} (hremote : r.remoteSession = session)
    (hne : session ≠ 0) (hdrawn : session ∈ drawn) : DirSteps mayAdopt (direction drawn s flight back r)
      (direction drawn s flight back (scheduleAcknowledgement r session nowMs)) := by
  unfold scheduleAcknowledgement
  split
  · exact .refl
  next hany =>
    have hlose : Step sequenceNumbering mayAdopt (direction drawn s flight back r) _ :=
      .lose (.refl _)
        (sublist_append_left (back.filterMap Action.acknowledgement?) r.owed)
    have hremote' : (direction drawn s flight back r).remote = some session := by
      simp [direction, Stream.remote?, hremote, hne]
    have hreceived : (direction drawn s flight back r).expected = sequenceNumbering.number 0 →
        (direction drawn s flight back r).received = true := by
      intro hone
      by_contra hnone
      exact hany ⟨hone, Bool.not_eq_true _ ▸ hnone⟩
    refine (Relation.ReflTransGen.single hlose).tail ((Step.request (s := session) ?_ ?_ ?_).to_eq ?_)
    · exact hdrawn
    · exact hremote'
    · exact hreceived
    simp [direction, Stream.owed, Stream.remote?, hne, sequenceNumbering]

theorem ingestData_steps {nowMs : UInt32} (hflight : flight = frame :: rest) (hopcode : frame.opcode = .DATA)
    (hsession : frame.session = r.remoteSession) (hne : frame.session ≠ 0) (hdrawn : frame.session ∈ drawn) :
    DirSteps mayAdopt (direction drawn s flight back r)
      (direction drawn s flight back (ingestData r frame.fields nowMs).1) := by
  unfold ingestData
  have hdropped := sameReceiver_countDropped r
  split_ifs with _ hsequence
  · exact (hdropped.trans (sameReceiver_setLastError _ _)).steps
  · exact (hdropped.trans (sameReceiver_setLastError _ _)).steps
  · exact (appendData_steps hflight hopcode hsession hne hsequence).trans
      (scheduleAcknowledgement_steps hsession.symm hne hdrawn)
  · exact scheduleAcknowledgement_steps hsession.symm hne hdrawn
  · exact hdropped.steps.trans (scheduleAcknowledgement_steps hsession.symm hne hdrawn)

theorem ingestSwitch_steps {nowMs : UInt32} (hflight : flight = frame :: rest)
    (hsession : frame.session = r.remoteSession) (hne : frame.session ≠ 0) (hdrawn : frame.session ∈ drawn) :
    DirSteps mayAdopt (direction drawn s flight back r)
      (direction drawn s flight back (ingestSwitch r frame.fields nowMs).1) := by
  cases hopcode : frame.opcode with
  | OPEN | ACK =>
      have heq : ingestSwitch r frame.fields nowMs = (r, .ok) := by
        simp [ingestSwitch, Action.fields, hopcode]
      rw [heq]
  | DATA =>
      have heq : ingestSwitch r frame.fields nowMs = ingestData r frame.fields nowMs := by
        simp [ingestSwitch, Action.fields, hopcode]
      rw [heq]
      exact ingestData_steps hflight hopcode hsession hne hdrawn
  | CLOSE =>
      have heq : ingestSwitch r frame.fields nowMs = (ingestClose r, .ok) := by
        simp [ingestSwitch, Action.fields, hopcode]
      rw [heq]
      exact forget_steps rfl rfl rfl

theorem ingestDecoded_receiver_steps {nowMs random : UInt32}
    (hflight : flight = frame :: rest) (hne : frame.session ≠ 0) (hdrawn : frame.session ∈ drawn)
    (hadopt : adopts r frame.fields = true →
      ∀ d : Direction, d.appended = r.history.appended → mayAdopt d frame.session) :
    DirSteps mayAdopt (direction drawn s flight back r)
      (direction ((if decodedDraws r frame.fields then [streamNewSession random] else []) ++ drawn)
        s flight back (ingestDecoded r frame.fields nowMs random).1) := by
  have hquiet : r.portOpen = false ∨ frame.opcode ≠ .OPEN → decodedDraws r frame.fields = false := by
    rintro (hclosed | hopcode)
    · simp [decodedDraws, hclosed]
    · simp [decodedDraws, Action.fields, hopcode]
  generalize hresult : (ingestDecoded r frame.fields nowMs random).1 = t
  have hspec := ingestDecoded_spec r frame.fields nowMs random
  rw [hresult] at hspec
  cases hspec with
  | closed hclosed =>
      simp only [hquiet (.inl hclosed), Bool.false_eq_true, if_false, nil_append]
      exact .refl
  | reopen hopen hopcode =>
      have herror := sameReceiver_setLastError r .ok
      have hopcode' : frame.opcode = .OPEN := hopcode
      have hdraws : decodedDraws r frame.fields = openDraws (setLastError r .ok) frame.session := by
        simp [decodedDraws, hopen, Action.fields, hopcode', openDraws, setLastError]
      rw [hdraws]
      have hadopts : (setLastError r .ok).remoteSession ≠ frame.session →
          ∀ d : Direction, d.appended = (setLastError r .ok).history.appended →
            mayAdopt d frame.session := by
        intro hdiffer
        refine hadopt ?_
        simp only [adopts, hopen, Action.fields, hopcode', Bool.true_and, decide_true, decide_eq_true_eq]
        exact hdiffer
      refine herror.steps.trans ((ingestOpen_receiver_steps random hne hadopts).trans ?_)
      have hseen : SameReceiver (ingestOpen (setLastError r .ok) frame.session random)
          (adopted r frame.session nowMs random) := ⟨rfl, rfl, rfl, rfl, rfl⟩
      exact (hseen.trans (sameReceiver_applyAcknowledgement _ _ _)).steps
  | stale _ hopcode _ =>
      simp only [hquiet (.inr hopcode), Bool.false_eq_true, if_false, nil_append]
      exact ((sameReceiver_setLastError r .ok).trans ((sameReceiver_countDropped _).trans
        (sameReceiver_setLastError _ _))).steps
  | followed _ hopcode hsession =>
      simp only [hquiet (.inr hopcode), Bool.false_eq_true, if_false, nil_append]
      have hheard : SameReceiver r (heard r nowMs) := ⟨rfl, rfl, rfl, rfl, rfl⟩
      have hsame := hheard.trans (sameReceiver_applyAcknowledgement (heard r nowMs)
        frame.fields.acknowledgementSession frame.fields.acknowledgementSequence)
      have hremote : frame.session = r.remoteSession := hsession
      exact hsame.steps.trans (ingestSwitch_steps hflight (hremote.trans hsame.remoteSession.symm) hne hdrawn)

theorem ingest_receiver_steps {source nowMs random : UInt32} {linkSequence : UInt16}
    (hflight : flight = frame :: rest) (hdrawn : frame.session ∈ drawn)
    (hadopt : ∀ session, ingestAdopts r (actionMessage source linkSequence frame) = some session →
      ∀ d : Direction, d.appended = r.history.appended → mayAdopt d session) :
    DirSteps mayAdopt (direction drawn s flight back r)
      (direction ((if ingestDraws r (actionMessage source linkSequence frame) then
          [streamNewSession random] else []) ++ drawn)
        s flight back (ingest r (actionMessage source linkSequence frame) nowMs random).1) := by
  unfold ingest ingestDraws
  unfold ingestAdopts at hadopt
  cases hdecode : streamDecode (actionMessage source linkSequence frame) with
  | error failure =>
      simp only [Bool.false_eq_true, if_false, nil_append]
      refine SameReceiver.steps ?_
      split <;> exact ⟨rfl, rfl, rfl, rfl, rfl⟩
  | ok d =>
      obtain ⟨rfl, hne⟩ := fields_of_streamDecode hdecode
      cases hfind : findPeer r (actionMessage source linkSequence frame).source with
      | false =>
          simp only [Bool.false_and, Bool.false_eq_true, if_false, nil_append]
          exact .refl
      | true =>
          simp only [Bool.true_and, if_true]
          simp only [hdecode, hfind, Bool.true_and] at hadopt
          refine ingestDecoded_receiver_steps hflight hne hdrawn fun hadopts => ?_
          exact hadopt frame.session (if_pos hadopts)

theorem checkPeerTimeout_receiver_steps (r : Stream) (nowMs : UInt32) :
    DirSteps mayAdopt (direction drawn s flight back r)
      (direction drawn s flight back (checkPeerTimeout r nowMs)) := by
  unfold checkPeerTimeout
  split
  · exact forget_steps rfl rfl rfl
  · exact .refl

theorem sameReceiver_fillWindow (free : Nat) (r : Stream) : SameReceiver r (fillWindow free r) := by
  induction free generalizing r with
  | zero => exact .refl r
  | succ free ih =>
      unfold fillWindow
      simp only
      split
      · exact .refl r
      · refine SameReceiver.trans ?_ (ih _)
        exact ⟨rfl, rfl, rfl, rfl, rfl⟩

theorem newAction_acknowledgement? (r : Stream) (opcode : Opcode) (session : UInt32) :
    (newAction r opcode session).acknowledgement?.toList = r.owed := by
  unfold Action.acknowledgement? Stream.owed newAction
  cases r.acknowledgementPending with
  | false => simp
  | true =>
      by_cases h : r.acknowledgementSession = 0
      · simp [h]
      · simp [h]

theorem dataAction_acknowledgement? (r : Stream) (slot : TxSlot) :
    (dataAction r slot).acknowledgement?.toList = r.owed :=
  newAction_acknowledgement? r .DATA r.localSession

theorem carry_steps {action : Action} (h : action.acknowledgement?.toList = r.owed) :
    DirSteps mayAdopt (direction drawn s flight back r) (direction drawn s flight (back ++ [action]) r) := by
  cases hack : action.acknowledgement? with
  | none =>
      have heq : direction drawn s flight (back ++ [action]) r = direction drawn s flight back r := by
        simp [direction, filterMap_append, hack]
      rw [heq]
  | some a =>
      have howed : r.owed = [a] := by rw [← h, hack]; rfl
      have hacks : (direction drawn s flight back r).acks =
          back.filterMap Action.acknowledgement? ++ [a] := by simp [direction, howed]
      refine Relation.ReflTransGen.single ((Step.repeatAck hacks).to_eq ?_)
      simp [direction, filterMap_append, hack, howed]

section
variable (r : Stream)

theorem prepare_receiver_steps (nowMs : UInt32) : DirSteps mayAdopt (direction drawn s flight back r)
      (direction drawn s flight (back ++ (streamPrepareAction r nowMs).2.toList)
        (streamPrepareAction r nowMs).1) := by
  refine (checkPeerTimeout_receiver_steps r nowMs).trans ?_
  generalize checkPeerTimeout r nowMs = t, streamPrepareAction r nowMs = result,
    streamPrepareAction_spec r nowMs = hspec
  have hfilled : SameReceiver t (filled t) := sameReceiver_fillWindow _ t
  cases hspec with
  | nothing => rw [Option.toList_none, append_nil]
  | close _ | reopen _ _ _ => exact carry_steps (newAction_acknowledgement? t _ _)
  | quiet _ _ =>
      rw [Option.toList_none, append_nil]
      exact hfilled.steps
  | acknowledge _ _ _ =>
      exact hfilled.steps.trans (carry_steps (newAction_acknowledgement? (filled t) _ _))
  | data _ _ hselect =>
      refine hfilled.steps.trans ?_
      cases hselect with
      | first _ _ => exact carry_steps (dataAction_acknowledgement? (filled t) _)
      | again _ _ =>
          have hunsent : SameReceiver (filled t) (unsent (filled t)) := ⟨rfl, rfl, rfl, rfl, rfl⟩
          exact hunsent.steps.trans (carry_steps (dataAction_acknowledgement? (unsent (filled t)) _))

theorem processComplete_receiver_steps (action : Action) (error : EspErr) (nowMs : UInt32) :
    DirSteps mayAdopt (direction drawn s flight back r)
      (direction drawn s flight back (processComplete r action error nowMs)) := by
  have hacknowledged : ∀ t : Stream, DirSteps mayAdopt (direction drawn s flight back t)
      (direction drawn s flight back (completeAcknowledgement t action)) := by
    intro t
    unfold completeAcknowledgement
    split
    · refine Relation.ReflTransGen.single ((Step.lose (.refl _)
        (sublist_append_left (back.filterMap Action.acknowledgement?) t.owed)).to_eq ?_)
      simp [direction, Stream.owed, Stream.remote?]
    · exact .refl
  have hswitch : ∀ t : Stream, SameReceiver t (completeSwitch t action nowMs) := by
    intro t
    unfold completeSwitch
    split <;> exact ⟨rfl, rfl, rfl, rfl, rfl⟩
  have herror := sameReceiver_setLastError r error
  unfold processComplete
  simp only
  split_ifs
  · exact herror.steps.trans ((hacknowledged _).trans (hswitch _).steps)
  · exact herror.steps
  · exact .refl

theorem transportStopped_receiver_steps :
    DirSteps mayAdopt (direction drawn s flight back r) (direction drawn s flight back (transportStopped r)) := by
  unfold transportStopped
  split
  · exact .refl
  · exact forget_steps rfl rfl rfl

theorem sameReceiver_portRead : SameReceiver r (streamPortReadByte r).1 := by
  unfold streamPortReadByte
  split <;> exact ⟨rfl, rfl, rfl, rfl, rfl⟩

theorem sameReceiver_portWrite (byte : UInt8) : SameReceiver r (streamPortWriteByte r byte).1 := by
  unfold streamPortWriteByte
  split <;> exact ⟨rfl, rfl, rfl, rfl, rfl⟩

theorem portOpen_receiver_steps (random : UInt32) : DirSteps mayAdopt (direction drawn s flight back r)
      (direction ((if r.active && !r.portOpen then [streamNewSession random] else []) ++ drawn)
        s flight back (streamPortOpen r random).1) := by
  rw [streamPortOpen_eq]
  cases hdraws : r.active && !r.portOpen with
  | false =>
      simp only [Bool.false_eq_true, if_false, nil_append]
      exact .refl
  | true =>
      simp only [if_true, singleton_append]
      have hdraw : Step sequenceNumbering mayAdopt (direction drawn s flight back r)
          (direction (streamNewSession random :: drawn) s flight back r) :=
        .draw (streamNewSession random)
      exact (Relation.ReflTransGen.single hdraw).trans (forget_steps rfl rfl rfl)

theorem portClose_receiver_steps :
    DirSteps mayAdopt (direction drawn s flight back r) (direction drawn s flight back (streamPortClose r).1) := by
  unfold streamPortClose
  split
  · exact .refl
  · exact forget_steps rfl rfl rfl

end

end SolarOs.LinkStream
