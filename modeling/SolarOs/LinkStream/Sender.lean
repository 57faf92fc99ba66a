import SolarOs.LinkStream.Direction

/-! What the operations of a stream do to the direction it sends in. -/
namespace SolarOs.LinkStream
open List
open StopAndWait (Step Steps)

variable {drawn : List UInt32} {s t r : Stream} {flight back : List Action}
  {mayAdopt : Direction → UInt32 → Prop}

theorem resetLocal_steps {keep : Bool} {random : UInt32} (hopen : s.portOpen = true)
    (hshort : s.txWindow.length ≤ 1) (hnew : streamNewSession random ∉ drawn) :
    DirSteps mayAdopt (direction drawn s flight back r)
      (direction (streamNewSession random :: drawn) (streamResetLocal s keep random) flight back r) := by
  have hrenew : Step sequenceNumbering mayAdopt (direction drawn s flight back r) _ := .renew hnew
  by_cases hkept : keep = true ∧ s.txWindow ≠ []
  · obtain ⟨rfl, hne⟩ := hkept
    obtain ⟨slot, hslot⟩ : ∃ slot, s.txWindow = [slot] := by
      match hw : s.txWindow, hne, hshort with
      | [slot], _, _ => exact ⟨slot, rfl⟩
    refine (Relation.ReflTransGen.single hrenew).tail ((Step.number slot.data rfl rfl).to_eq ?_)
    simp [direction, streamResetLocal, hslot, renumber, Stream.record, hopen, sequenceNumbering]
  · have hnone : (if keep = true then s.txWindow else []) = [] := by
      split
      next hkeep => exact not_not.mp fun hne => hkept ⟨hkeep, hne⟩
      next => rfl
    refine Relation.ReflTransGen.single (hrenew.to_eq ?_)
    simp [direction, streamResetLocal, hnone, renumber, hopen]

theorem fillWindow_steps {free : Nat} (hopen : s.portOpen = true) (hfree : free ≤ 1 - s.txWindow.length) :
    DirSteps mayAdopt (direction drawn s flight back r) (direction drawn (fillWindow free s) flight back r) := by
  match free, hfree with
  | 0, _ => exact .refl
  | 1, hfree =>
    have hempty : s.txWindow = [] := eq_nil_of_length_eq_zero (by omega)
    unfold fillWindow
    simp only
    split
    · exact .refl
    · refine Relation.ReflTransGen.single
        ((Step.number (s.txQueue.take s.dataMtu) hopen (by simp [direction, hempty])).to_eq ?_)
      simp [direction, fillWindow, hempty, Stream.record, sequenceNumbering]
  | free + 2, hfree => omega

theorem filled_steps (hopen : s.portOpen = true) :
    DirSteps mayAdopt (direction drawn s flight back r) (direction drawn (filled s) flight back r) :=
  fillWindow_steps hopen (le_refl _)

theorem sameSender_unsent (s : Stream) : SameSender s (unsent s) :=
  ⟨rfl, rfl, rfl, by simp [unsent, Stream.record], rfl, rfl⟩

theorem sameSender_checkPeerTimeout (s : Stream) (nowMs : UInt32) : SameSender s (checkPeerTimeout s nowMs) := by
  unfold checkPeerTimeout
  split <;> exact ⟨rfl, rfl, rfl, rfl, rfl, rfl⟩

theorem slot?_newAction {opcode : Opcode} {session : UInt32} (h : opcode ≠ .DATA) :
    (newAction s opcode session).slot? = none := by
  simp [Action.slot?, newAction, h]

theorem transmit_steps {slot : TxSlot} (hslot : slot ∈ s.txWindow) : DirSteps mayAdopt (direction drawn s flight back r)
      (direction drawn s (flight ++ [dataAction s slot]) back r) := by
  have hmem : s.record slot ∈ s.txWindow.map s.record := mem_map_of_mem hslot
  refine Relation.ReflTransGen.single ((Step.transmit hmem).to_eq ?_)
  simp [direction, Action.slot?, dataAction, newAction, Stream.record]

theorem control_steps {opcode : Opcode} {session : UInt32} (h : opcode ≠ .DATA) :
    DirSteps mayAdopt (direction drawn s flight back r)
      (direction drawn s (flight ++ [newAction t opcode session]) back r) := by
  have heq : direction drawn s (flight ++ [newAction t opcode session]) back r =
      direction drawn s flight back r := by
    simp [direction, filterMap_append, slot?_newAction h]
  rw [heq]

theorem prepare_sender_steps (s : Stream) (nowMs : UInt32) :
    DirSteps mayAdopt (direction drawn s flight back r) (direction drawn (streamPrepareAction s nowMs).1
        (flight ++ (streamPrepareAction s nowMs).2.toList) back r) := by
  refine (sameSender_checkPeerTimeout s nowMs).steps.trans ?_
  generalize checkPeerTimeout s nowMs = t, streamPrepareAction s nowMs = result,
    streamPrepareAction_spec s nowMs = hspec
  cases hspec with
  | nothing => rw [Option.toList_none, append_nil]
  | close _ | reopen _ _ _ => exact control_steps (by decide)
  | quiet hopen _ =>
      rw [Option.toList_none, append_nil]
      exact filled_steps hopen
  | acknowledge hopen _ _ => exact (filled_steps hopen).trans (control_steps (by decide))
  | data hopen _ hselect =>
      refine (filled_steps hopen).trans ?_
      cases hselect with
      | first hslot _ => exact transmit_steps hslot
      | again hwindow _ =>
          refine (sameSender_unsent _).steps.trans (transmit_steps ?_)
          simp [unsent, hwindow]

variable {rest : List Action}

theorem applyAcknowledgement_steps {frame : Action} (hopen : s.portOpen = true)
    (hlocal : s.localSession ≠ 0) (hback : back = frame :: rest) : DirSteps mayAdopt (direction drawn s flight back r)
      (direction drawn (streamApplyAcknowledgement s frame.acknowledgementSession
        frame.acknowledgementSequence) flight back r) := by
  rcases streamApplyAcknowledgement_spec s frame.acknowledgementSession frame.acknowledgementSequence with
    heq | ⟨gone, kept, last, counters, hsession, hwindow, hlast, hsequence, heq⟩
  · rw [heq]
  · rw [heq]
    have hacks : (direction drawn s flight back r).acks =
        ⟨frame.acknowledgementSession, frame.acknowledgementSequence⟩ ::
          (rest.filterMap Action.acknowledgement? ++ r.owed) := by
      simp [direction, hback, Action.acknowledgement?, hsession, hlocal]
    have hsplit : (direction drawn s flight back r).window =
        gone.map s.record ++ kept.map s.record := by simp [direction, hwindow]
    have hgone : (gone.map s.record).getLast? = some (s.record last) := by
      rw [getLast?_map, hlast]
      rfl
    refine Relation.ReflTransGen.single ((Step.release hopen hacks hsession hsplit hgone hsequence).to_eq ?_)
    simp only [direction, map_append, map_map]
    rfl

theorem ingestOpen_sender_steps {session random : UInt32} (hopen : s.portOpen = true)
    (hshort : s.txWindow.length ≤ 1) (hnew : openDraws s session = true → streamNewSession random ∉ drawn) :
    DirSteps mayAdopt (direction drawn s flight back r)
      (direction ((if openDraws s session then [streamNewSession random] else []) ++ drawn)
        (ingestOpen s session random) flight back r) := by
  have hnote : ∀ t : Stream, SameSender t (noteRemoteSession t) := by
    intro t
    unfold noteRemoteSession
    split <;> exact ⟨rfl, rfl, rfl, rfl, rfl, rfl⟩
  have hadopt : SameSender s (adoptSession s session) := ⟨rfl, rfl, rfl, rfl, rfl, rfl⟩
  unfold ingestOpen
  by_cases hne : s.remoteSession ≠ session
  · rw [if_pos hne]
    by_cases hdraw : s.remoteSession ≠ 0 ∨ s.hadRemoteSession = true
    · have hdraws : openDraws s session = true := by simpa [openDraws, hne] using hdraw
      simp only [if_pos hdraw, hdraws, if_true, singleton_append]
      have hopen' : (adoptSession s session).portOpen = true := hopen
      exact hadopt.steps.trans ((resetLocal_steps hopen' hshort (hnew hdraws)).trans (hnote _).steps)
    · have hdraws : openDraws s session = false := by simpa [openDraws, hne] using hdraw
      simp only [if_neg hdraw, hdraws, Bool.false_eq_true, if_false, nil_append]
      exact hadopt.steps.trans (hnote _).steps
  · have hdraws : openDraws s session = false := by
      simp only [openDraws, hne, decide_false, Bool.false_and]
    rw [if_neg hne, hdraws]
    exact .refl

theorem sameSender_ingestSwitch (s : Stream) (d : Decoded) (nowMs : UInt32) :
    SameSender s (ingestSwitch s d nowMs).1 := by
  have hschedule : ∀ t : Stream, SameSender t (scheduleAcknowledgement t d.session nowMs) := by
    intro t
    unfold scheduleAcknowledgement
    split <;> exact ⟨rfl, rfl, rfl, rfl, rfl, rfl⟩
  unfold ingestSwitch
  split
  · exact .refl s
  · have hdropped := sameSender_countDropped s
    unfold ingestData
    split_ifs
    · exact hdropped.trans (sameSender_setLastError _ _)
    · exact hdropped.trans (sameSender_setLastError _ _)
    · exact SameSender.trans (t := appendData s d) ⟨rfl, rfl, rfl, rfl, rfl, rfl⟩ (hschedule _)
    · exact hschedule s
    · exact hdropped.trans (hschedule _)
  · exact .refl s
  · exact ⟨rfl, rfl, rfl, rfl, rfl, rfl⟩

theorem ingestOpen_portOpen (s : Stream) (session random : UInt32) :
    (ingestOpen s session random).portOpen = s.portOpen := by
  unfold ingestOpen noteRemoteSession
  simp only
  split_ifs <;> rfl

theorem ingestOpen_localSession (s : Stream) (session random : UInt32) :
    (ingestOpen s session random).localSession = s.localSession ∨
      (ingestOpen s session random).localSession = streamNewSession random := by
  unfold ingestOpen noteRemoteSession
  simp only
  split_ifs <;> first | exact .inl rfl | exact .inr rfl

theorem ingestDecoded_sender_steps {frame : Action} {nowMs random : UInt32}
    (hback : back = frame :: rest) (hlocal : s.portOpen = true → s.localSession ≠ 0) (hshort : s.txWindow.length ≤ 1)
    (hnew : decodedDraws s frame.fields = true → streamNewSession random ∉ drawn) :
    DirSteps mayAdopt (direction drawn s flight back r)
      (direction ((if decodedDraws s frame.fields then [streamNewSession random] else []) ++ drawn)
        (ingestDecoded s frame.fields nowMs random).1 flight back r) := by
  have hquiet : s.portOpen = false ∨ frame.opcode ≠ .OPEN → decodedDraws s frame.fields = false := by
    rintro (hclosed | hopcode)
    · simp [decodedDraws, hclosed]
    · simp [decodedDraws, Action.fields, hopcode]
  generalize hresult : (ingestDecoded s frame.fields nowMs random).1 = t
  have hspec := ingestDecoded_spec s frame.fields nowMs random
  rw [hresult] at hspec
  cases hspec with
  | closed hclosed =>
      simp only [hquiet (.inl hclosed), Bool.false_eq_true, if_false, nil_append]
      exact .refl
  | reopen hopen hopcode =>
      have herror := sameSender_setLastError s .ok
      have hdraws : decodedDraws s frame.fields = openDraws (setLastError s .ok) frame.session := by
        have hopcode' : frame.opcode = .OPEN := hopcode
        simp [decodedDraws, hopen, Action.fields, hopcode', openDraws, setLastError]
      rw [hdraws] at hnew ⊢
      have hopen' : (setLastError s .ok).portOpen = true := hopen
      refine herror.steps.trans ((ingestOpen_sender_steps hopen' hshort hnew).trans ?_)
      have hseen : SameSender (ingestOpen (setLastError s .ok) frame.session random)
          (adopted s frame.session nowMs random) := ⟨rfl, rfl, rfl, rfl, rfl, rfl⟩
      have hopened : (adopted s frame.session nowMs random).portOpen = true :=
        (ingestOpen_portOpen (setLastError s .ok) frame.session random).trans hopen
      have hnonzero : (adopted s frame.session nowMs random).localSession ≠ 0 := by
        rcases ingestOpen_localSession (setLastError s .ok) frame.session random with hsame | hdrawn
        · exact hsame.trans_ne (hlocal hopen)
        · exact hdrawn.trans_ne (streamNewSession_ne_zero random)
      exact hseen.steps.trans (applyAcknowledgement_steps hopened hnonzero hback)
  | stale _ hopcode _ =>
      simp only [hquiet (.inr hopcode), Bool.false_eq_true, if_false, nil_append]
      exact ((sameSender_setLastError s .ok).trans ((sameSender_countDropped _).trans
        (sameSender_setLastError _ _))).steps
  | followed hopen hopcode _ =>
      simp only [hquiet (.inr hopcode), Bool.false_eq_true, if_false, nil_append]
      have hheard : SameSender s (heard s nowMs) := ⟨rfl, rfl, rfl, rfl, rfl, rfl⟩
      have hopened : (heard s nowMs).portOpen = true := hopen
      have hnonzero : (heard s nowMs).localSession ≠ 0 := hlocal hopen
      exact hheard.steps.trans ((applyAcknowledgement_steps hopened hnonzero hback).trans
        (sameSender_ingestSwitch _ _ _).steps)

theorem ingest_sender_steps {source nowMs random : UInt32} {linkSequence : UInt16} {frame : Action}
    (hback : back = frame :: rest) (hlocal : s.portOpen = true → s.localSession ≠ 0) (hshort : s.txWindow.length ≤ 1)
    (hnew : ingestDraws s (actionMessage source linkSequence frame) = true →
      streamNewSession random ∉ drawn) : DirSteps mayAdopt (direction drawn s flight back r)
      (direction ((if ingestDraws s (actionMessage source linkSequence frame) then
          [streamNewSession random] else []) ++ drawn)
        (ingest s (actionMessage source linkSequence frame) nowMs random).1 flight back r) := by
  unfold ingest
  unfold ingestDraws at hnew ⊢
  cases hdecode : streamDecode (actionMessage source linkSequence frame) with
  | error failure =>
      simp only [Bool.false_eq_true, if_false, nil_append]
      refine SameSender.steps ?_
      split <;> exact ⟨rfl, rfl, rfl, rfl, rfl, rfl⟩
  | ok d =>
      obtain ⟨rfl, -⟩ := fields_of_streamDecode hdecode
      simp only [hdecode] at hnew ⊢
      cases hfind : findPeer s (actionMessage source linkSequence frame).source with
      | false =>
          simp only [Bool.false_and, Bool.false_eq_true, if_false, nil_append]
          exact .refl
      | true =>
          simp only [hfind, Bool.true_and, if_true] at hnew ⊢
          exact ingestDecoded_sender_steps hback hlocal hshort hnew

theorem markSent_records (s : Stream) (sequence : UInt16) (nowMs : UInt32) (window : List TxSlot) :
    (markSent window sequence nowMs).map s.record = window.map s.record := by
  induction window with
  | nil => rfl
  | cons slot slots ih =>
      unfold markSent
      split
      · rw [map_cons, ih, map_cons]
      · rfl

theorem sameSender_processComplete (s : Stream) (action : Action) (error : EspErr) (nowMs : UInt32) :
    SameSender s (processComplete s action error nowMs) := by
  have hacknowledged : ∀ t : Stream, SameSender t (completeAcknowledgement t action) := by
    intro t
    unfold completeAcknowledgement
    split <;> exact ⟨rfl, rfl, rfl, rfl, rfl, rfl⟩
  have hswitch : ∀ t : Stream, SameSender t (completeSwitch t action nowMs) := by
    intro t
    unfold completeSwitch
    split
    · exact .refl t
    · exact ⟨rfl, rfl, rfl, rfl, rfl, rfl⟩
    · exact ⟨rfl, rfl, rfl, rfl, rfl, rfl⟩
    · exact ⟨rfl, rfl, rfl, markSent_records t _ _ _, rfl, rfl⟩
  unfold processComplete
  simp only
  split_ifs
  · exact (sameSender_setLastError s error).trans ((hacknowledged _).trans (hswitch _))
  · exact sameSender_setLastError s error
  · exact .refl s

theorem sameSender_transportStopped (s : Stream) : SameSender s (transportStopped s) := by
  unfold transportStopped
  split
  · exact .refl s
  · exact ⟨rfl, rfl, rfl, by simp [Stream.record], rfl, rfl⟩

theorem sameSender_portRead (s : Stream) : SameSender s (streamPortReadByte s).1 := by
  unfold streamPortReadByte
  split <;> exact ⟨rfl, rfl, rfl, rfl, rfl, rfl⟩

theorem sameSender_portWrite (s : Stream) (byte : UInt8) : SameSender s (streamPortWriteByte s byte).1 := by
  unfold streamPortWriteByte
  split <;> exact ⟨rfl, rfl, rfl, rfl, rfl, rfl⟩

theorem portOpen_sender_steps {random : UInt32}
    (hnew : (s.active && !s.portOpen) = true → streamNewSession random ∉ drawn) :
    DirSteps mayAdopt (direction drawn s flight back r)
      (direction ((if s.active && !s.portOpen then [streamNewSession random] else []) ++ drawn)
        (streamPortOpen s random).1 flight back r) := by
  rw [streamPortOpen_eq]
  cases hdraws : s.active && !s.portOpen with
  | false =>
      simp only [Bool.false_eq_true, if_false, nil_append]
      exact .refl
  | true =>
      simp only [if_true, singleton_append]
      refine Relation.ReflTransGen.single ((Step.renew (hnew hdraws)).to_eq ?_)
      simp [direction, opened, setLastError, streamResetLocal, renumber]

theorem portClose_sender_steps (s : Stream) :
    DirSteps mayAdopt (direction drawn s flight back r) (direction drawn (streamPortClose s).1 flight back r) := by
  unfold streamPortClose
  split
  · exact .refl
  · exact Relation.ReflTransGen.single (Step.close.to_eq rfl)

end SolarOs.LinkStream
