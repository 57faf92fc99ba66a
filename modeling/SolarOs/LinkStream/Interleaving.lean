import SolarOs.Library.Machine
import SolarOs.LinkStream.Sessions

/-! What other tasks do to a stream while its processing job has the lock released. -/
namespace SolarOs.LinkStream

/-- The calls that take the stream mutex besides `solar_os_link_stream_process`. -/
inductive Operation where
  | portOpen (random : UInt32)
  | portClose
  | portRead
  | portWrite (byte : UInt8)
  | ingest (message : Link.Message) (nowMs random : UInt32)
  | transportStopped
  deriving DecidableEq

def operate (s : Stream) : Operation → Stream
  | .portOpen random => (streamPortOpen s random).1
  | .portClose => (streamPortClose s).1
  | .portRead => (streamPortReadByte s).1
  | .portWrite byte => (streamPortWriteByte s byte).1
  | .ingest message nowMs random => (ingest s message nowMs random).1
  | .transportStopped => transportStopped s

def operationDraws (s : Stream) : Operation → Option UInt32
  | .portOpen random => if s.active && !s.portOpen then some (streamNewSession random) else none
  | .ingest message _ random => if ingestDraws s message then some (streamNewSession random) else none
  | _ => none

abbrev operations (s : Stream) (ops : List Operation) : Stream := Machine.run operate s ops

theorem operations_snoc (s : Stream) (ops : List Operation) (op : Operation) :
    operations s (ops ++ [op]) = operate (operations s ops) op := by
  simp [operations, Machine.run_append]

def lastDrawn : Stream → List Operation → Option UInt32
  | _, [] => none
  | s, op :: ops => (lastDrawn (operate s op) ops).or (operationDraws s op)

theorem lastDrawn_snoc (s : Stream) (ops : List Operation) (op : Operation) :
    lastDrawn s (ops ++ [op]) = (operationDraws (operations s ops) op).or (lastDrawn s ops) := by
  induction ops generalizing s with
  | nil => simp [lastDrawn]
  | cons first ops ih =>
      simp only [List.cons_append, lastDrawn, ih, Machine.run_cons]
      exact Option.or_assoc

/-- The outstanding slots as `solar_os_link_stream_transport_stopped` leaves them. -/
def stoppedSlot (slot : TxSlot) : TxSlot := { slot with sent := false, lastSendMs := 0 }

/-- What one operation can do to a stream, and the session number it draws. -/
inductive Changes (s : Stream) : Option UInt32 → Stream → Prop
  | quiet {t} : SameSessions s t →
      (∃ k, t.txWindow = s.txWindow.drop k) ∨ t.txWindow = s.txWindow.map stoppedSlot →
      t.nextOpenMs = s.nextOpenMs ∨ t.nextOpenMs = 0 → Changes s none t
  | close {t} : s.portOpen = true → t.portOpen = false → t.localSession = s.localSession →
      t.closePending = decide (s.localSession ≠ 0) → t.closeSession = s.localSession →
      t.txWindow = [] → t.nextOpenMs = s.nextOpenMs → Changes s none t
  | reopen {t} (random : UInt32) : s.portOpen = false → t.portOpen = true →
      t.localSession = streamNewSession random → t.closePending = false → t.txWindow = [] →
      t.nextOpenMs = 0 → Changes s (some (streamNewSession random)) t
  | renew {t} (random : UInt32) : s.portOpen = true → t.portOpen = true →
      t.localSession = streamNewSession random → t.closePending = s.closePending →
      (∃ k, t.txWindow = (renumber 1 s.txWindow).1.drop k) → t.nextOpenMs = 0 →
      Changes s (some (streamNewSession random)) t

variable {s t : Stream} {nowMs : UInt32}

theorem applyAcknowledgement_window (s : Stream) (session : UInt32) (sequence : UInt16) :
    (∃ k, (streamApplyAcknowledgement s session sequence).txWindow = s.txWindow.drop k) ∧
      (streamApplyAcknowledgement s session sequence).nextOpenMs = s.nextOpenMs := by
  rcases streamApplyAcknowledgement_spec s session sequence with
    heq | ⟨gone, kept, last, counters, -, hwindow, -, -, heq⟩
  · rw [heq]
    exact ⟨⟨0, rfl⟩, rfl⟩
  · rw [heq, hwindow]
    exact ⟨⟨gone.length, List.drop_left.symm⟩, rfl⟩

theorem ingestSwitch_window (s : Stream) (d : Decoded) (nowMs : UInt32) :
    (ingestSwitch s d nowMs).1.txWindow = s.txWindow ∧
      ((ingestSwitch s d nowMs).1.nextOpenMs = s.nextOpenMs ∨
        (ingestSwitch s d nowMs).1.nextOpenMs = 0) := by
  have hschedule : ∀ t : Stream, (scheduleAcknowledgement t d.session nowMs).txWindow = t.txWindow ∧
      (scheduleAcknowledgement t d.session nowMs).nextOpenMs = t.nextOpenMs := by
    intro t
    unfold scheduleAcknowledgement
    split <;> exact ⟨rfl, rfl⟩
  unfold ingestSwitch
  split
  · exact ⟨rfl, .inl rfl⟩
  · unfold ingestData
    split_ifs
    · exact ⟨rfl, .inl rfl⟩
    · exact ⟨rfl, .inl rfl⟩
    · exact ⟨(hschedule _).1, .inl (hschedule _).2⟩
    · exact ⟨(hschedule s).1, .inl (hschedule s).2⟩
    · exact ⟨(hschedule _).1, .inl (hschedule _).2⟩
  · exact ⟨rfl, .inl rfl⟩
  · exact ⟨rfl, .inr rfl⟩

theorem ingestOpen_window_of_draws {session : UInt32} (random : UInt32) (h : openDraws s session = true) :
    (ingestOpen s session random).txWindow = (renumber 1 s.txWindow).1 ∧
      (ingestOpen s session random).nextOpenMs = 0 := by
  simp only [openDraws, Bool.and_eq_true, decide_eq_true_eq, Bool.or_eq_true] at h
  unfold ingestOpen noteRemoteSession
  simp only [if_pos h.1, if_pos h.2]
  split <;> exact ⟨rfl, rfl⟩

theorem ingestOpen_window_of_not_draws {session : UInt32} (random : UInt32)
    (h : openDraws s session = false) : (ingestOpen s session random).txWindow = s.txWindow ∧
      ((ingestOpen s session random).nextOpenMs = s.nextOpenMs ∨
        (ingestOpen s session random).nextOpenMs = 0) := by
  unfold ingestOpen noteRemoteSession
  by_cases hne : s.remoteSession ≠ session
  · have hkept : ¬ (s.remoteSession ≠ 0 ∨ s.hadRemoteSession = true) := by
      simpa [openDraws, hne] using h
    simp only [if_pos hne, if_neg hkept]
    split
    · exact ⟨rfl, .inl rfl⟩
    · exact ⟨rfl, .inr rfl⟩
  · rw [if_neg hne]
    exact ⟨rfl, .inl rfl⟩

theorem ingestDecoded_window_of_draws {d : Decoded} (nowMs random : UInt32) (h : decodedDraws s d = true) :
    (∃ k, (ingestDecoded s d nowMs random).1.txWindow = (renumber 1 s.txWindow).1.drop k) ∧
      (ingestDecoded s d nowMs random).1.nextOpenMs = 0 := by
  simp only [decodedDraws, Bool.and_eq_true, decide_eq_true_eq] at h
  obtain ⟨⟨hopen, hopcode⟩, hdraw⟩ := h
  generalize hresult : (ingestDecoded s d nowMs random).1 = t
  have hspec := ingestDecoded_spec s d nowMs random
  rw [hresult] at hspec
  cases hspec with
  | closed hclosed =>
      rw [hclosed] at hopen
      cases hopen
  | stale _ hne _ => exact absurd hopcode hne
  | followed _ hne _ => exact absurd hopcode hne
  | reopen _ _ =>
      have hdraw' : openDraws (setLastError s .ok) d.session = true := hdraw
      obtain ⟨hwindow, hnext⟩ := ingestOpen_window_of_draws random hdraw'
      obtain ⟨⟨k, hk⟩, hkept⟩ := applyAcknowledgement_window (adopted s d.session nowMs random)
        d.acknowledgementSession d.acknowledgementSequence
      exact ⟨⟨k, hk.trans (congrArg (List.drop k) hwindow)⟩, hkept.trans hnext⟩

theorem ingestDecoded_window_of_not_draws {d : Decoded} (nowMs random : UInt32)
    (h : decodedDraws s d = false) : (∃ k, (ingestDecoded s d nowMs random).1.txWindow = s.txWindow.drop k) ∧
      ((ingestDecoded s d nowMs random).1.nextOpenMs = s.nextOpenMs ∨
        (ingestDecoded s d nowMs random).1.nextOpenMs = 0) := by
  generalize hresult : (ingestDecoded s d nowMs random).1 = t
  have hspec := ingestDecoded_spec s d nowMs random
  rw [hresult] at hspec
  cases hspec with
  | closed _ => exact ⟨⟨0, rfl⟩, .inl rfl⟩
  | stale _ _ _ => exact ⟨⟨0, rfl⟩, .inl rfl⟩
  | reopen hopen hopcode =>
      have hdraw : openDraws (setLastError s .ok) d.session = false := by
        simp only [decodedDraws, hopen, hopcode, decide_true, Bool.true_and] at h
        exact h
      obtain ⟨hwindow, hnext⟩ := ingestOpen_window_of_not_draws random hdraw
      obtain ⟨⟨k, hk⟩, hkept⟩ := applyAcknowledgement_window (adopted s d.session nowMs random)
        d.acknowledgementSession d.acknowledgementSequence
      exact ⟨⟨k, hk.trans (congrArg (List.drop k) hwindow)⟩, hnext.imp hkept.trans hkept.trans⟩
  | followed _ _ _ =>
      obtain ⟨⟨k, hk⟩, hkept⟩ := applyAcknowledgement_window (heard s nowMs)
        d.acknowledgementSession d.acknowledgementSequence
      obtain ⟨hwindow, hnext⟩ := ingestSwitch_window (streamApplyAcknowledgement (heard s nowMs)
        d.acknowledgementSession d.acknowledgementSequence) d nowMs
      exact ⟨⟨k, hwindow.trans hk⟩, hnext.imp_left fun h => h.trans hkept⟩

theorem ingestDecoded_changes (s : Stream) (d : Decoded) (nowMs random : UInt32) :
    Changes s (if decodedDraws s d then some (streamNewSession random) else none)
      (ingestDecoded s d nowMs random).1 := by
  have hsame := ingestDecoded_newSession s d nowMs random
  rcases hsame.localSession with ⟨hdraws, hlocal⟩ | ⟨hdraws, hlocal⟩
  · have hopen : s.portOpen = true := by
      simp only [decodedDraws, Bool.and_eq_true] at hdraws
      exact hdraws.1.1
    obtain ⟨hwindow, hnext⟩ := ingestDecoded_window_of_draws nowMs random hdraws
    rw [if_pos hdraws]
    exact .renew random hopen (hsame.portOpen.trans hopen) hlocal hsame.closePending hwindow hnext
  · obtain ⟨hwindow, hnext⟩ := ingestDecoded_window_of_not_draws nowMs random (Bool.not_eq_true _ ▸ hdraws)
    rw [if_neg hdraws]
    exact .quiet ⟨hsame.active, hsame.generation, hsame.peerId, hsame.portOpen, hlocal,
      hsame.closePending, hsame.closeSession⟩ (.inl hwindow) hnext

theorem ingest_changes (s : Stream) (message : Link.Message) (nowMs random : UInt32) :
    Changes s (if ingestDraws s message then some (streamNewSession random) else none)
      (ingest s message nowMs random).1 := by
  unfold ingest ingestDraws
  split
  next failure _ =>
    simp only [Bool.false_eq_true, if_false]
    split
    · exact .quiet ⟨rfl, rfl, rfl, rfl, rfl, rfl, rfl⟩ (.inl ⟨0, rfl⟩) (.inl rfl)
    · exact .quiet (.refl s) (.inl ⟨0, rfl⟩) (.inl rfl)
  next d _ =>
    cases findPeer s message.source with
    | false => exact .quiet (.refl s) (.inl ⟨0, rfl⟩) (.inl rfl)
    | true =>
        simp only [Bool.true_and, if_true]
        exact ingestDecoded_changes s d nowMs random

theorem transportStopped_changes (s : Stream) : Changes s none (transportStopped s) := by
  have hsame := sameSessions_transportStopped s
  cases hactive : s.active with
  | false =>
      have heq : transportStopped s = s := by simp [transportStopped, hactive]
      rw [heq]
      exact .quiet (.refl s) (.inl ⟨0, rfl⟩) (.inl rfl)
  | true =>
      refine .quiet hsame (.inr ?_) (.inr ?_)
      · simp only [transportStopped, hactive]
        rfl
      · simp only [transportStopped, hactive]
        rfl

theorem operate_changes (s : Stream) (op : Operation) : Changes s (operationDraws s op) (operate s op) := by
  cases op with
  | portOpen random =>
      simp only [operate, operationDraws, streamPortOpen_eq]
      cases hdraws : s.active && !s.portOpen with
      | false => exact .quiet (.refl s) (.inl ⟨0, rfl⟩) (.inl rfl)
      | true =>
          simp only [Bool.and_eq_true, Bool.not_eq_true'] at hdraws
          exact .reopen random hdraws.2 rfl rfl rfl rfl rfl
  | portClose =>
      simp only [operate, operationDraws, streamPortClose]
      split
      · exact .quiet (.refl s) (.inl ⟨0, rfl⟩) (.inl rfl)
      next hopen =>
        simp only [Bool.or_eq_true, Bool.not_eq_true', not_or, Bool.not_eq_false] at hopen
        exact .close hopen.2 rfl rfl rfl rfl rfl rfl
  | portRead =>
      refine .quiet (sameSessions_portRead s) (.inl ⟨0, ?_⟩) (.inl ?_)
      all_goals
        simp only [operate, streamPortReadByte]
        split <;> rfl
  | portWrite byte =>
      refine .quiet (sameSessions_portWrite s byte) (.inl ⟨0, ?_⟩) (.inl ?_)
      all_goals
        simp only [operate, streamPortWriteByte]
        split <;> rfl
  | ingest message nowMs random => exact ingest_changes s message nowMs random
  | transportStopped => exact transportStopped_changes s

theorem operate_identity (s : Stream) (op : Operation) :
    (operate s op).active = s.active ∧ (operate s op).generation = s.generation := by
  cases op with
  | portOpen random =>
      simp only [operate, streamPortOpen_eq]
      split <;> exact ⟨rfl, rfl⟩
  | portClose =>
      simp only [operate, streamPortClose]
      split <;> exact ⟨rfl, rfl⟩
  | portRead => exact ⟨(sameSessions_portRead s).active, (sameSessions_portRead s).generation⟩
  | portWrite byte =>
      exact ⟨(sameSessions_portWrite s byte).active, (sameSessions_portWrite s byte).generation⟩
  | ingest message nowMs random =>
      have h := ingest_newSession s message nowMs random
      exact ⟨h.active, h.generation⟩
  | transportStopped =>
      exact ⟨(sameSessions_transportStopped s).active, (sameSessions_transportStopped s).generation⟩

end SolarOs.LinkStream
