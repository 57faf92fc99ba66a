import Mathlib.Data.List.Induction
import SolarOs.Telnet.InputOrder

/-! The password prompt accepts the password only, unless characters that do not fit its buffer
are left over. -/
namespace SolarOs.Telnet
open List Machine
open Session (enter)

variable {s s' : Session} {ready : Ready} {data pending rest : List UInt8}

def passwordValid (password : CString) : Bool :=
  password.bytes ≠ [] ∧ password.strlen < passwordMax ∧ ∀ ch ∈ password.bytes, isPrint ch

variable (line : List UInt8)

def edit (ch : UInt8) : List UInt8 :=
  if ch = backspace ∨ ch = delete then line.dropLast
  else if isPrint ch = true then line ++ [ch]
  else line

/-- How many characters are in the buffer, and how many did not fit and are left over: they are
taken back only where the buffer is empty. -/
def tally (counts : Nat × Nat) (ch : UInt8) : Nat × Nat :=
  if ch = backspace ∨ ch = delete then
    if counts.1 = 0 then (0, counts.2 - 1) else (counts.1 - 1, counts.2)
  else if isPrint ch = true then
    if counts.1 + 1 < passwordMax then (counts.1 + 1, counts.2) else (counts.1, counts.2 + 1)
  else counts

def surplus : Nat := (line.foldl tally (0, 0)).2

def firstLine (stream : List UInt8) : List UInt8 := stream.takeWhile (· ≠ carriageReturn)

def Exact (s : Session) : Prop :=
  s.phase = .shell → carriageReturn ∈ decode s.received ∧
    (firstLine (decode s.received)).foldl edit [] = s.job.password.bytes

/-- When the prompt starts, what came ahead fits the buffer, or the end of its first line does. -/
def LineFits (s : Session) : Turn → Prop
  | .negotiated => s.phase = .negotiating →
    (decode s.received).length ≤ pendingMax ∨ carriageReturn ∈ (decode s.received).take pendingMax
  | _ => True

/-- The buffer and the line of any length are the same as long as nothing is left over. -/
structure Counted (entered line : List UInt8) (counts : Nat × Nat) : Prop where
  held : entered.length = counts.1
  whole : line.length = counts.1 + counts.2
  same : counts.2 = 0 → entered = line

theorem Counted.step {entered line : List UInt8} {counts : Nat × Nat} (h : Counted entered line counts)
    (ch : UInt8) : Counted (enter entered ch) (edit line ch) (tally counts ch) := by
  obtain ⟨held, whole, same⟩ := h
  unfold enter edit tally
  by_cases back : ch = backspace ∨ ch = delete
  · rw [if_pos back, if_pos back, if_pos back]
    by_cases empty : counts.1 = 0
    · rw [if_pos empty]
      have none : entered = [] := length_eq_zero_iff.mp (held.trans empty)
      constructor
      · rw [none]
        rfl
      · rw [length_dropLast, whole, empty, Nat.zero_add, Nat.zero_add]
      · intro left
        have short : line.dropLast.length = 0 := by
          rw [length_dropLast, whole, empty, Nat.zero_add]
          exact left
        rw [none, length_eq_zero_iff.mp short]
        rfl
    · rw [if_neg empty]
      constructor
      · rw [length_dropLast, held]
      · rw [length_dropLast, whole]
        omega
      · exact fun left => congrArg List.dropLast (same left)
  · rw [if_neg back, if_neg back, if_neg back]
    by_cases print : isPrint ch = true
    · rw [if_pos print, if_pos print, held]
      by_cases room : counts.1 + 1 < passwordMax
      · rw [if_pos ⟨print, room⟩, if_pos room]
        constructor
        · rw [length_append, held, length_singleton]
        · rw [length_append, whole, length_singleton]
          omega
        · exact fun left => congrArg (· ++ [ch]) (same left)
      · rw [if_neg fun both => room both.2, if_neg room]
        constructor
        · exact held
        · rw [length_append, whole, length_singleton]
          rfl
        · exact fun left => absurd left (Nat.succ_ne_zero _)
    · rw [if_neg fun both => print both.1, if_neg print, if_neg print]
      exact ⟨held, whole, same⟩

theorem counted_line : Counted (line.foldl enter []) (line.foldl edit []) (line.foldl tally (0, 0)) := by
  induction line using List.reverseRecOn with
  | nil => exact ⟨rfl, rfl, fun _ => rfl⟩
  | append_singleton line ch ih =>
    rw [foldl_append, foldl_append, foldl_append]
    exact ih.step ch

theorem edit_eq_iff {line password : List UInt8} (accepted : line.foldl enter [] = password) :
    line.foldl edit [] = password ↔ surplus line = 0 := by
  have counted := counted_line line
  constructor
  · intro same
    have lengths := counted.whole
    rw [same, ← accepted, counted.held] at lengths
    unfold surplus
    omega
  · intro left
    rw [← counted.same left, accepted]

def SameLine (pending rest : List UInt8) : Prop :=
  pending = rest ∨ ∃ front after after', carriageReturn ∈ front ∧ pending = front ++ after ∧ rest = front ++ after'

theorem SameLine.cons {ch : UInt8} (h : SameLine (ch :: pending) rest) :
    ∃ rest', rest = ch :: rest' ∧ (ch ≠ carriageReturn → SameLine pending rest') := by
  rcases h with rfl | ⟨front, after, after', there, same, same'⟩
  · exact ⟨pending, rfl, fun _ => .inl rfl⟩
  · obtain ⟨c, front, rfl⟩ := exists_cons_of_ne_nil (ne_nil_of_mem there)
    obtain ⟨rfl, tail⟩ := List.cons.inj same
    refine ⟨front ++ after', same', fun other => .inr ⟨front, after, after', ?_, tail, rfl⟩⟩
    exact (mem_cons.mp there).resolve_left (Ne.symm other)

theorem SameLine.nil (h : SameLine [] rest) : rest = [] := by
  rcases h with rfl | ⟨front, after, after', there, same, -⟩
  · rfl
  · have none := (append_eq_nil_iff.mp same.symm).1
    exact absurd there (by rw [none]; exact not_mem_nil)

theorem SameLine.take {stream : List UInt8}
    (fits : stream.length ≤ pendingMax ∨ carriageReturn ∈ stream.take pendingMax) :
    SameLine (stream.take pendingMax) stream := by
  rcases fits with short | ends
  · exact .inl (take_of_length_le short)
  · exact .inr ⟨_, [], stream.drop pendingMax, ends, (append_nil _).symm, (take_append_drop _ _).symm⟩

def Accepted (s : Session) : Prop :=
  ∃ line rest, carriageReturn ∉ line ∧ line.foldl enter [] = s.job.password.bytes ∧
    decode s.received = line ++ carriageReturn :: rest

structure LineInv (s : Session) : Prop where
  tracks : Tracks s
  asked : s.job.password.bytes ≠ []
  negotiating : s.phase = .negotiating → s.job.pending = (decode s.received).take pendingMax
  prompting : s.phase = .prompting → ∃ line rest, carriageReturn ∉ line ∧ line.foldl enter [] = s.entered ∧
    decode s.received = line ++ rest ∧ SameLine s.job.pending rest
  shell : s.phase = .shell → Accepted s

theorem closed_lineInv (tracks : Tracks s) (asked : s.job.password.bytes ≠ []) (closed : s.phase = .closed) :
    LineInv s := by
  refine ⟨tracks, asked, fun is => ?_, fun is => ?_, fun is => ?_⟩
  all_goals
    rw [closed] at is
    cases is

/-- The prompt takes the bytes of a piece one by one, the induction being on what is left of it. -/
theorem enterPiece_lineInv {line : List UInt8} (tracks : Tracks s) (asked : s.job.password.bytes ≠ [])
    (phase : s.phase = .prompting) (clean : carriageReturn ∉ line) (entered : line.foldl enter [] = s.entered)
    (decoded : decode s.received = line ++ rest) (same : SameLine (data ++ s.job.pending) rest) :
    LineInv (s.enterPiece data) := by
  induction data generalizing s line rest with
  | nil =>
    unfold Session.enterPiece
    constructor
    · exact tracks
    · exact asked
    · intro is
      rw [phase] at is
      cases is
    · exact fun _ => ⟨line, rest, clean, entered, decoded, same⟩
    · intro is
      rw [phase] at is
      cases is
  | cons ch data ih =>
    obtain ⟨rest', rfl, later⟩ := same.cons
    unfold Session.enterPiece
    by_cases cr : ch = carriageReturn
    · subst cr
      rw [if_pos (.inl rfl)]
      dsimp only
      split
      · rename_i accepted
        constructor
        · exact tracks
        · exact asked
        · intro is
          cases is
        · intro is
          cases is
        · exact fun _ => ⟨line, rest', clean, entered.trans accepted, decoded⟩
      · exact closed_lineInv tracks asked rfl
    · have lf : ch ≠ lineFeed := by
        rintro rfl
        refine lineFeed_notMem_nvt (strip s.received) ?_
        show lineFeed ∈ decode s.received
        rw [decoded]
        exact mem_append_right _ mem_cons_self
      rw [if_neg fun ends => ends.elim cr lf]
      refine @ih { s with entered := enter s.entered ch } rest' (line ++ [ch]) tracks asked phase ?_ ?_ ?_ (later cr)
      · intro there
        rcases mem_append.mp there with old | new
        · exact clean old
        · exact cr (mem_singleton.mp new).symm
      · rw [foldl_append, entered]
        rfl
      · rw [append_assoc]
        exact decoded

theorem primeNegotiation_lineInv (h : LineInv s) : LineInv (s.primeNegotiation ready) := by
  unfold Session.primeNegotiation
  split
  · exact h
  rename_i here
  have here : s.phase = .negotiating := not_not.mp here
  have decoded := h.negotiating here
  have heard := socketRead_heard s pieceSize ready
  have silent := @socketRead_silent s ready pieceSize
  obtain ⟨⟨err, data, s'⟩, read⟩ : ∃ r, s.socketRead pieceSize ready = r := ⟨_, rfl⟩
  rw [read] at heard silent ⊢
  dsimp only at heard silent ⊢
  have phase : s'.phase = .negotiating := heard.phase.trans here
  have tracks := heard.tracks h.tracks
  have asked : s'.job.password.bytes ≠ [] := by
    rw [heard.password]
    exact h.asked
  have grown := heard.decoded h.tracks
  split
  · rename_i is
    cases is
    refine ⟨tracks, asked, fun _ => ?_, fun is => ?_, fun is => ?_⟩
    · show s'.job.pending ++ data.take (pendingMax - s'.job.pending.length) = (decode s'.received).take pendingMax
      rw [heard.pending, decoded, grown, take_append, length_take]
      congr 2
      omega
    all_goals cases phase.symm.trans is
  · rename_i is
    cases is
    refine ⟨tracks, asked, fun _ => ?_, fun is => ?_, fun is => ?_⟩
    · rw [grown, silent (by decide), append_nil, heard.pending]
      exact decoded
    all_goals cases phase.symm.trans is
  · rename_i is
    cases is
    exact closed_lineInv tracks asked rfl

theorem negotiated_lineInv (h : LineInv s) (fits : LineFits s .negotiated) : LineInv s.negotiated := by
  unfold Session.negotiated
  split
  · exact h
  rename_i here
  have here : s.phase = .negotiating := not_not.mp here
  rw [if_neg h.asked]
  refine ⟨h.tracks, h.asked, fun is => ?_, fun _ => ?_, fun is => ?_⟩
  · cases is
  · refine ⟨[], decode s.received, not_mem_nil, rfl, rfl, ?_⟩
    rw [h.negotiating here]
    exact .take (fits here)
  · cases is

theorem authenticate_lineInv (h : LineInv s) : LineInv (s.authenticate ready) := by
  unfold Session.authenticate
  split
  · exact h
  rename_i here
  have here : s.phase = .prompting := not_not.mp here
  obtain ⟨line, rest, clean, entered, decoded, same⟩ := h.prompting here
  split
  · rename_i _ none
    -- nothing waits, so all that was decoded is in the line
    have none : s.job.pending = [] := by
      have none := congrArg Prod.fst none
      exact (take_eq_nil_iff.mp none).resolve_left (by decide)
    rw [none] at same
    have heard := socketRead_heard s pieceSize ready
    have silent := @socketRead_silent s ready pieceSize
    obtain ⟨⟨err, data, s'⟩, read⟩ : ∃ r, s.socketRead pieceSize ready = r := ⟨_, rfl⟩
    rw [read] at heard silent ⊢
    dsimp only at heard silent ⊢
    have tracks := heard.tracks h.tracks
    have grown := heard.decoded h.tracks
    rw [decoded, same.nil, append_nil] at grown
    have empty : s'.job.pending = [] := heard.pending.trans none
    have asked : s'.job.password.bytes ≠ [] := by
      rw [heard.password]
      exact h.asked
    have phase : s'.phase = .prompting := heard.phase.trans here
    split
    · rename_i is
      cases is
      refine enterPiece_lineInv tracks asked phase clean (entered.trans heard.entered.symm) grown (.inl ?_)
      rw [empty, append_nil]
    · rename_i is
      cases is
      rw [silent (by decide)] at grown
      refine ⟨tracks, asked, fun is => ?_, fun _ => ?_, fun is => ?_⟩
      · cases phase.symm.trans is
      · exact ⟨line, [], clean, entered.trans heard.entered.symm, grown, .inl empty⟩
      · cases phase.symm.trans is
    · rename_i is
      cases is
      exact closed_lineInv tracks asked rfl
  · rename_i data job _ taken
    cases taken
    refine @enterPiece_lineInv { s with job := (s.job.pendingTake pieceSize).2 } (s.job.pending.take pieceSize) rest
      line h.tracks h.asked here clean entered decoded ?_
    show SameLine (s.job.pending.take pieceSize ++ s.job.pending.drop pieceSize) rest
    rwa [take_append_drop]

theorem portRead_lineInv (h : LineInv s) (len : Nat) : LineInv (s.portRead len ready) := by
  unfold Session.portRead
  split
  · exact h
  rename_i here
  have here : s.phase = .shell := not_not.mp (not_or.mp here).1
  obtain ⟨line, rest, clean, accepted, decoded⟩ := h.shell here
  split
  · have heard := socketRead_heard s len ready
    obtain ⟨⟨err, data, s'⟩, read⟩ : ∃ r, s.socketRead len ready = r := ⟨_, rfl⟩
    rw [read] at heard ⊢
    have phase : s'.phase = .shell := heard.phase.trans here
    have grown := heard.decoded h.tracks
    refine ⟨heard.tracks h.tracks, by rw [heard.password]; exact h.asked, fun is => ?_, fun is => ?_, fun _ => ?_⟩
    · cases phase.symm.trans is
    · cases phase.symm.trans is
    · refine ⟨line, rest ++ data, clean, ?_, ?_⟩
      · rw [heard.password]
        exact accepted
      · rw [grown, decoded, append_assoc]
        rfl
  · rename_i data job _ taken
    cases taken
    refine ⟨h.tracks, h.asked, fun is => ?_, fun is => ?_, fun _ => ?_⟩
    · cases here.symm.trans is
    · cases here.symm.trans is
    · exact ⟨line, rest, clean, accepted, decoded⟩

theorem step_lineInv (h : LineInv s) (turn : Turn) (fits : LineFits s turn) : LineInv (s.step turn) := by
  cases turn with
  | client bytes => exact ⟨h.tracks, h.asked, h.negotiating, h.prompting, h.shell⟩
  | primeNegotiation ready => exact primeNegotiation_lineInv h
  | negotiated => exact negotiated_lineInv h fits
  | authenticate ready => exact authenticate_lineInv h
  | portRead len ready => exact portRead_lineInv h len
  | hangUp => exact closed_lineInv h.tracks h.asked rfl

theorem accept_lineInv {password : CString} (asked : password.bytes ≠ []) : LineInv (accept password) := by
  refine ⟨rfl, asked, fun _ => ?_, fun is => ?_, fun is => ?_⟩
  · show [] = (decode []).take pendingMax
    unfold decode
    rw [strip_nil]
    rfl
  all_goals cases is

theorem Accepted.password_iff (h : Accepted s) :
    (carriageReturn ∈ decode s.received ∧ (firstLine (decode s.received)).foldl edit [] = s.job.password.bytes) ↔
      surplus (firstLine (decode s.received)) = 0 := by
  obtain ⟨line, rest, clean, accepted, decoded⟩ := h
  have through : ∀ b ∈ line, decide (b ≠ carriageReturn) = true := by
    intro b there
    exact decide_eq_true fun same => clean (same ▸ there)
  have first : firstLine (decode s.received) = line := by
    unfold firstLine
    rw [decoded, takeWhile_append_of_pos through, takeWhile_cons_of_neg (by simp), append_nil]
  rw [first, edit_eq_iff accepted, and_iff_right_iff_imp, decoded]
  exact fun _ => mem_append_right _ mem_cons_self

/-- On a connection where the first line came through the negotiation, only the password opens the
shell, unless characters of the line are left over. -/
theorem exact_iff (password : CString) (turns : List Turn) (valid : passwordValid password)
    (fits : Machine.Admits Session.step LineFits (accept password) turns) :
    Exact (run Session.step (accept password) turns) ↔
      ((run Session.step (accept password) turns).phase = .shell →
        surplus (firstLine (decode (run Session.step (accept password) turns).received)) = 0) := by
  have asked : password.bytes ≠ [] := by
    intro none
    unfold passwordValid at valid
    simp [none] at valid
  have inv := run_induct (P := LineInv) (fun _ turn h fits => step_lineInv h turn fits) (accept_lineInv asked) fits
  exact forall_congr' fun shell => (inv.shell shell).password_iff

theorem exact_iff_ahead : Exact (run Session.step (accept samplePassword) aheadTurns) ↔
    ((run Session.step (accept samplePassword) aheadTurns).phase = .shell →
      surplus (firstLine (decode (run Session.step (accept samplePassword) aheadTurns).received)) = 0) :=
  exact_iff samplePassword aheadTurns (by decide)
    ⟨trivial, trivial, fun _ => by decide +kernel, trivial, trivial, trivial, trivial, trivial⟩

def fullPassword : CString := .ofBytes (List.replicate 63 0x61)

def longLineTurns : List Turn :=
  [.negotiated, .client (List.replicate 64 0x61 ++ [carriageReturn]), .authenticate (.bytes 64),
    .authenticate (.bytes 1)]

/-- A longer line that starts with the password opens the shell. -/
theorem longLineTurns_not_exact : ¬ ∀ (password : CString) (turns : List Turn), passwordValid password →
      Exact (run Session.step (accept password) turns) := by
  intro claim
  have exact := (claim fullPassword longLineTurns (by decide +kernel) (by decide +kernel)).2
  exact absurd exact (by decide +kernel)

end SolarOs.Telnet
