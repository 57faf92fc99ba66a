import SolarOs.Library.Machine
import SolarOs.Telnet.Decode

/-! The shell reads what the client sent after its password line, in order: as long as what comes
during the negotiation fits its buffer, and the accepted line does not end inside a piece of it
that is not the last. -/
namespace SolarOs.Telnet
open Transducer List
open Session (enter)

variable {s s' : Session} {ready : Ready} {data : List UInt8}

/-- What was decoded of the received bytes is the line that was accepted, what the shell has read,
and what waits for it. Where there is no password there is no line. -/
def InOrder (s : Session) : Prop :=
  s.phase = .shell →
    if s.job.password.bytes = [] then decode s.received = s.handed ++ s.job.pending
    else ∃ line, carriageReturn ∉ line ∧ line.foldl enter [] = s.job.password.bytes ∧
      decode s.received = line ++ carriageReturn :: (s.handed ++ s.job.pending)

/-- What is decoded during the negotiation fits the buffer, and when a line that is accepted ends
inside a full piece of the buffer, the piece is all there is or the line's end is its last byte. -/
def Fits (s : Session) : Turn → Prop
  | .primeNegotiation (.bytes count) => s.phase = .negotiating →
    (decode (s.received ++ s.incoming.take (min count pieceSize))).length ≤ pendingMax
  | .authenticate _ => s.phase = .prompting → pieceSize < s.job.pending.length →
    ∀ line rest, s.job.pending.take pieceSize = line ++ carriageReturn :: rest → carriageReturn ∉ line →
      line.foldl enter s.entered = s.job.password.bytes → rest = []
  | _ => True

def Tracks (s : Session) : Prop :=
  (feed (cascade scan endLine) (.data, false) s.received).1 = s.job.parts

structure Heard (s s' : Session) (data : List UInt8) : Prop where
  tracks : Tracks s → Tracks s'
  decoded : Tracks s → decode s'.received = decode s.received ++ data
  pending : s'.job.pending = s.job.pending
  password : s'.job.password = s.job.password
  phase : s'.phase = s.phase
  entered : s'.entered = s.entered
  handed : s'.handed = s.handed

theorem decode_append (first second : List UInt8) : decode (first ++ second) = decode first ++
      (feed (cascade scan endLine) (feed (cascade scan endLine) (.data, false) first).1 second).2 := by
  rw [← feed_decode, feed_append, feed_decode]

theorem socketRead_heard (s : Session) (len : Nat) (ready : Ready) :
    Heard s (s.socketRead len ready).2.2 (s.socketRead len ready).2.1 := by
  have nothing : Heard s s [] := ⟨id, fun _ => (append_nil _).symm, rfl, rfl, rfl, rfl, rfl⟩
  cases ready with
  | timeout => exact nothing
  | failed => exact nothing
  | bytes count =>
    have room : ([] : List UInt8).length + (s.incoming.take (min count (min len wireSize))).length ≤ len := by
      rw [length_nil, length_take]
      omega
    obtain ⟨parts, written, pending, password⟩ := feedWire_fed s.job [] _ room
    refine ⟨fun tracks => ?_, fun tracks => ?_, pending, password, rfl, rfl, rfl⟩
    · show (feed _ _ (s.received ++ _)).1 = _
      rw [feed_append, tracks]
      exact parts.symm
    · show decode (s.received ++ _) = _ ++ (Job.feedWire len s.job [] _).2
      rw [decode_append, tracks, written, nil_append]

theorem socketRead_silent {len : Nat} (failed : (s.socketRead len ready).1 ≠ .ok) :
    (s.socketRead len ready).2.1 = [] := by
  cases ready with
  | timeout => rfl
  | failed => rfl
  | bytes count =>
    by_contra something
    exact failed (if_neg something)

structure Inv (s : Session) : Prop where
  tracks : Tracks s
  negotiating : s.phase = .negotiating → s.handed = [] ∧ s.job.pending.length ≤ pendingMax ∧
    decode s.received = s.job.pending
  prompting : s.phase = .prompting → s.handed = [] ∧ s.job.password.bytes ≠ [] ∧ s.job.pending.length ≤ pendingMax ∧
    ∃ line, carriageReturn ∉ line ∧ line.foldl enter [] = s.entered ∧ decode s.received = line ++ s.job.pending
  shell : InOrder s

theorem socketRead_length (s : Session) (len : Nat) (ready : Ready) : (s.socketRead len ready).2.1.length ≤ len := by
  cases ready with
  | timeout => exact Nat.zero_le len
  | failed => exact Nat.zero_le len
  | bytes count =>
    have room : ([] : List UInt8).length + (s.incoming.take (min count (min len wireSize))).length ≤ len := by
      rw [length_nil, length_take]
      omega
    have written := (feedWire_fed s.job [] _ room).2.1
    show (Job.feedWire len s.job [] _).2.length ≤ len
    rw [written, nil_append]
    refine le_trans (length_feed_le length_cascade_le _ _) ?_
    rw [length_take]
    omega

theorem closed_inv (tracks : Tracks s) (closed : s.phase = .closed) : Inv s := by
  refine ⟨tracks, fun is => ?_, fun is => ?_, fun is => ?_⟩
  all_goals
    rw [closed] at is
    cases is

/-- The prompt takes the bytes of a piece one by one, the induction being on what is left of it. -/
theorem enterPiece_inv {line : List UInt8} (tracks : Tracks s) (phase : s.phase = .prompting) (fresh : s.handed = [])
    (asked : s.job.password.bytes ≠ []) (open_ : carriageReturn ∉ line) (entered : line.foldl enter [] = s.entered)
    (decoded : decode s.received = line ++ (data ++ s.job.pending))
    (short : s.job.pending.length + data.length ≤ pendingMax)
    (fits : s.job.pending ≠ [] → ∀ before rest, data = before ++ carriageReturn :: rest → carriageReturn ∉ before →
      before.foldl enter s.entered = s.job.password.bytes → rest = []) : Inv (s.enterPiece data) := by
  induction data generalizing s line with
  | nil =>
    unfold Session.enterPiece
    refine ⟨tracks, fun is => (nomatch phase.symm.trans is),
      fun _ => ⟨fresh, asked, short, line, open_, entered, decoded⟩, fun is => (nomatch phase.symm.trans is)⟩
  | cons ch data ih =>
    rw [length_cons] at short
    unfold Session.enterPiece
    by_cases cr : ch = carriageReturn
    · subst cr
      rw [if_pos (.inl rfl)]
      dsimp only
      split
      · rename_i accepted
        have whole : (s.job.pendingAppend data).pending = data ++ s.job.pending := by
          show s.job.pending ++ data.take (pendingMax - s.job.pending.length) = _
          rw [take_of_length_le (by omega)]
          by_cases none : s.job.pending = []
          · rw [none, nil_append, append_nil]
          · rw [fits none [] data rfl not_mem_nil accepted, append_nil, nil_append]
        refine ⟨tracks, nofun, nofun, fun _ => ?_⟩
        show if s.job.password.bytes = [] then _ else _
        rw [if_neg asked]
        refine ⟨line, open_, entered.trans accepted, ?_⟩
        rw [whole, fresh, decoded]
        rfl
      · exact closed_inv tracks rfl
    · have lf : ch ≠ lineFeed := by
        rintro rfl
        refine lineFeed_notMem_nvt (strip s.received) ?_
        show lineFeed ∈ decode s.received
        rw [decoded]
        exact mem_append_right _ (mem_append_left _ mem_cons_self)
      rw [if_neg fun ends => ends.elim cr lf]
      refine @ih { s with entered := enter s.entered ch } (line ++ [ch]) tracks phase fresh asked ?_ ?_ ?_ ?_ ?_
      · intro there
        rcases mem_append.mp there with old | new
        · exact open_ old
        · exact cr (mem_singleton.mp new).symm
      · rw [foldl_append, entered]
        rfl
      · rw [decoded, append_assoc]
        rfl
      · show s.job.pending.length + data.length ≤ pendingMax
        omega
      · intro some before rest split clean accepted
        refine fits some (ch :: before) rest (by rw [split]; rfl) ?_ accepted
        intro there
        rcases mem_cons.mp there with same | later
        · exact cr same.symm
        · exact clean later

section
variable (h : Inv s)
include h

theorem client_inv (bytes : List UInt8) : Inv (s.client bytes) :=
  ⟨h.tracks, h.negotiating, h.prompting, h.shell⟩

theorem hangUp_inv : Inv s.hangUp := closed_inv h.tracks rfl

theorem primeNegotiation_inv (fits : Fits s (.primeNegotiation ready)) : Inv (s.primeNegotiation ready) := by
  unfold Session.primeNegotiation
  split
  · exact h
  rename_i here
  have here : s.phase = .negotiating := not_not.mp here
  obtain ⟨fresh, short, decoded⟩ := h.negotiating here
  have heard := socketRead_heard s pieceSize ready
  have silent := @socketRead_silent s ready pieceSize
  have room : (s.socketRead pieceSize ready).1 = .ok →
      (decode (s.socketRead pieceSize ready).2.2.received).length ≤ pendingMax := by
    cases ready with
    | timeout | failed => exact nofun
    | bytes count => exact fun _ => fits here
  obtain ⟨⟨err, data, s'⟩, read⟩ : ∃ r, s.socketRead pieceSize ready = r := ⟨_, rfl⟩
  rw [read] at heard silent room ⊢
  dsimp only at heard silent room ⊢
  have phase : s'.phase = .negotiating := heard.phase.trans here
  have tracks := heard.tracks h.tracks
  have grown := heard.decoded h.tracks
  split
  · rename_i is
    cases is
    have length := room rfl
    rw [grown, decoded, length_append] at length
    have whole : (s'.job.pendingAppend data).pending = s.job.pending ++ data := by
      show s'.job.pending ++ data.take (pendingMax - s'.job.pending.length) = _
      rw [heard.pending, take_of_length_le (by omega)]
    refine ⟨tracks, fun _ => ⟨heard.handed.trans fresh, ?_, ?_⟩, fun is => (nomatch phase.symm.trans is),
      fun is => (nomatch phase.symm.trans is)⟩
    · rw [whole, length_append]
      exact length
    · rw [whole, grown, decoded]
  · rename_i is
    cases is
    refine ⟨tracks, fun _ => ⟨heard.handed.trans fresh, ?_, ?_⟩, fun is => (nomatch phase.symm.trans is),
      fun is => (nomatch phase.symm.trans is)⟩
    · rw [heard.pending]
      exact short
    · rw [grown, silent (by decide), append_nil, heard.pending]
      exact decoded
  · rename_i is
    cases is
    exact closed_inv tracks rfl

theorem negotiated_inv : Inv s.negotiated := by
  unfold Session.negotiated
  split
  · exact h
  rename_i here
  obtain ⟨fresh, short, decoded⟩ := h.negotiating (not_not.mp here)
  split
  · rename_i free
    refine ⟨h.tracks, nofun, nofun, fun _ => ?_⟩
    rw [if_pos free, fresh]
    exact decoded
  · rename_i asked
    exact ⟨h.tracks, nofun, fun _ => ⟨fresh, asked, short, [], not_mem_nil, rfl, decoded⟩, nofun⟩

theorem authenticate_inv (fits : Fits s (.authenticate ready)) : Inv (s.authenticate ready) := by
  unfold Session.authenticate
  split
  · exact h
  rename_i here
  have here : s.phase = .prompting := not_not.mp here
  obtain ⟨fresh, asked, short, line, open_, entered, decoded⟩ := h.prompting here
  split
  · rename_i _ none
    -- nothing waits, so the piece comes from the socket
    have none : s.job.pending = [] := by
      have none := congrArg Prod.fst none
      exact (take_eq_nil_iff.mp none).resolve_left (by decide)
    have heard := socketRead_heard s pieceSize ready
    have silent := @socketRead_silent s ready pieceSize
    have length := socketRead_length s pieceSize ready
    obtain ⟨⟨err, data, s'⟩, read⟩ : ∃ r, s.socketRead pieceSize ready = r := ⟨_, rfl⟩
    rw [read] at heard silent length ⊢
    dsimp only at heard silent length ⊢
    have tracks := heard.tracks h.tracks
    have grown := heard.decoded h.tracks
    rw [decoded, none, append_nil] at grown
    have empty : s'.job.pending = [] := heard.pending.trans none
    split
    · rename_i is
      cases is
      refine enterPiece_inv tracks (heard.phase.trans here) (heard.handed.trans fresh) ?_ open_
        (entered.trans heard.entered.symm) ?_ ?_ fun some => absurd empty some
      · rw [heard.password]
        exact asked
      · rw [grown, empty, append_nil]
      · rw [empty, length_nil, zero_add]
        exact le_trans length (by decide)
    · rename_i is
      cases is
      rw [silent (by decide), append_nil] at grown
      have phase : s'.phase = .prompting := heard.phase.trans here
      refine ⟨tracks, fun is => (nomatch phase.symm.trans is), fun _ => ⟨heard.handed.trans fresh, ?_, ?_, line,
        open_, entered.trans heard.entered.symm, ?_⟩, fun is => (nomatch phase.symm.trans is)⟩
      · rw [heard.password]
        exact asked
      · rw [empty]
        exact Nat.zero_le _
      · rw [grown, empty, append_nil]
    · rename_i is
      cases is
      exact closed_inv tracks rfl
  · rename_i data job _ taken
    -- the piece is the front of what waits
    cases taken
    refine @enterPiece_inv { s with job := (s.job.pendingTake pieceSize).2 } (s.job.pending.take pieceSize) line
      h.tracks here fresh asked open_ entered ?_ ?_ ?_
    · show decode s.received = line ++ (s.job.pending.take pieceSize ++ s.job.pending.drop pieceSize)
      rw [take_append_drop]
      exact decoded
    · show (s.job.pending.drop pieceSize).length + (s.job.pending.take pieceSize).length ≤ pendingMax
      rw [add_comm, ← length_append, take_append_drop]
      exact short
    · intro more
      refine fits here (Nat.lt_of_not_le fun all => more ?_)
      exact drop_eq_nil_of_le all

theorem portRead_inv (len : Nat) : Inv (s.portRead len ready) := by
  unfold Session.portRead
  split
  · exact h
  rename_i here
  obtain ⟨here, some⟩ := not_or.mp here
  have here : s.phase = .shell := not_not.mp here
  have order := h.shell here
  split
  · rename_i _ none
    have none : s.job.pending = [] := by
      have none := congrArg Prod.fst none
      exact (take_eq_nil_iff.mp none).resolve_left some
    have heard := socketRead_heard s len ready
    obtain ⟨⟨err, data, s'⟩, read⟩ : ∃ r, s.socketRead len ready = r := ⟨_, rfl⟩
    rw [read] at heard ⊢
    have phase : s'.phase = .shell := heard.phase.trans here
    have grown := heard.decoded h.tracks
    refine ⟨heard.tracks h.tracks, fun is => (nomatch phase.symm.trans is),
      fun is => (nomatch phase.symm.trans is), fun _ => ?_⟩
    show if s'.job.password.bytes = [] then decode s'.received = (s'.handed ++ data) ++ s'.job.pending else
      ∃ line, _ ∧ _ = s'.job.password.bytes ∧ decode s'.received = _ ++ _ :: ((s'.handed ++ data) ++ s'.job.pending)
    rw [none, append_nil] at order
    rw [heard.password, heard.pending, heard.handed, none, grown, append_nil]
    split
    · rename_i free
      rw [if_pos free] at order
      rw [order]
    · rename_i asked
      rw [if_neg asked] at order
      obtain ⟨line, open_, accepted, decoded⟩ := order
      exact ⟨line, open_, accepted, by rw [decoded, append_assoc]; rfl⟩
  · rename_i data job _ taken
    cases taken
    have whole : s.handed ++ s.job.pending.take len ++ s.job.pending.drop len = s.handed ++ s.job.pending := by
      rw [append_assoc, take_append_drop]
    refine ⟨h.tracks, fun is => (nomatch here.symm.trans is), fun is => (nomatch here.symm.trans is), fun _ => ?_⟩
    rw [whole]
    exact order

theorem step_inv (turn : Turn) (fits : Fits s turn) : Inv (s.step turn) := by
  cases turn with
  | client bytes => exact client_inv h bytes
  | primeNegotiation ready => exact primeNegotiation_inv h fits
  | negotiated => exact negotiated_inv h
  | authenticate ready => exact authenticate_inv h fits
  | portRead len ready => exact portRead_inv h len
  | hangUp => exact hangUp_inv h

end

theorem accept_inv (password : CString) : Inv (accept password) := by
  have silent : decode [] = [] := by
    unfold decode
    rw [strip_nil]
    rfl
  exact ⟨rfl, fun _ => ⟨rfl, Nat.zero_le _, silent⟩, nofun, nofun⟩

/-- On a connection whose turns all fit, the shell reads what was sent after the accepted line. -/
theorem input_in_order (password : CString) (turns : List Turn)
    (fits : Machine.Admits Session.step Fits (accept password) turns) :
    InOrder (Machine.run Session.step (accept password) turns) :=
  (Machine.run_induct (P := Inv) (fun _ turn h fits => step_inv h turn fits) (accept_inv password) fits).shell

theorem InOrder.rest (h : InOrder s) (shell : s.phase = .shell) (asked : s.job.password.bytes ≠ []) :
    (decode s.received).dropWhile (· ≠ carriageReturn) = carriageReturn :: (s.handed ++ s.job.pending) := by
  have order := h shell
  rw [if_neg asked] at order
  obtain ⟨line, clean, -, decoded⟩ := order
  have through : ∀ b ∈ line, decide (b ≠ carriageReturn) = true := by
    intro b there
    exact decide_eq_true fun same => clean (same ▸ there)
  rw [decoded, dropWhile_append_of_pos through, dropWhile_cons_of_neg (by simp)]

def samplePassword : CString := .ofBytes [0x61]

def aheadTurns : List Turn :=
  [.client [iac, doIt, optEcho, 0x61, carriageReturn, lineFeed, 0x6c], .primeNegotiation (.bytes 5), .negotiated,
    .client [0x73, carriageReturn], .authenticate .timeout, .portRead 8 .timeout, .portRead 8 (.bytes 9)]

theorem input_in_order_ahead : InOrder (Machine.run Session.step (accept samplePassword) aheadTurns) :=
  input_in_order samplePassword aheadTurns
    ⟨trivial, fun _ => by decide +kernel, trivial, trivial, fun _ more => absurd more (by decide +kernel),
      trivial, trivial, trivial⟩

def longTurns : List Turn :=
  [.client (0x61 :: carriageReturn :: (List.range 70).map fun n => UInt8.ofNat (0x21 + n)),
    .primeNegotiation (.bytes 64), .primeNegotiation (.bytes 64), .negotiated, .authenticate .timeout,
    .portRead 128 .timeout]

/-- The rest of the piece with the line is put behind what had not been taken yet. -/
theorem longTurns_out_of_order : ¬InOrder (Machine.run Session.step (accept samplePassword) longTurns) := by
  intro order
  have rest := order.rest (by decide +kernel) (by decide +kernel)
  exact absurd rest (by decide +kernel)

end SolarOs.Telnet
