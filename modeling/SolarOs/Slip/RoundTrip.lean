import Mathlib.Data.List.Basic
import SolarOs.Esp

/-! The SLIP job: packets written to a port between END bytes, and the receiver that takes
bytes of the port one by one. -/
namespace SolarOs.Slip
open List

def frameSize : Nat := 1600
def txChunkSize : Nat := 256

def slipEnd : UInt8 := 0xc0
def slipEsc : UInt8 := 0xdb
def slipEscEnd : UInt8 := 0xdc
def slipEscEsc : UInt8 := 0xdd

/-- What the sending job meets: whether it is asked to stop when it looks for the `n`-th time,
and what the port says to the write it does then, how many bytes it took or why none. -/
structure Port where
  stopRequested : Nat → Bool
  write : Nat → List UInt8 → Except EspErr Nat

/-- The sending side of the job. `out` is the buffer of `slip_driver_output`, `wire` what the
port has taken so far, `turn` the number of looks at the stop request. -/
structure Tx where
  running : Bool
  portValid : Bool
  out : List UInt8
  wire : List UInt8
  turn : Nat
  txPackets : UInt32
  txBytes : UInt32
  txErrors : UInt32
  lastError : Option EspErr
  deriving DecidableEq

abbrev Output := EStateM EspErr Tx Unit

/-- `slip_write_all`: what the port leaves of a write is written again. -/
def slipWriteAll (port : Port) (data : List UInt8) : Output := fun s =>
  if data = [] ∨ port.stopRequested s.turn = true then
    .ok () s
  else
    match port.write s.turn data with
    | .error err => .error err { s with turn := s.turn + 1, txErrors := s.txErrors + 1, lastError := some err }
    | .ok 0 => .error .fail { s with turn := s.turn + 1, txErrors := s.txErrors + 1, lastError := some .fail }
    | .ok (written + 1) =>
      slipWriteAll port (data.drop (written + 1))
        { s with turn := s.turn + 1, wire := s.wire ++ data.take (written + 1) }
termination_by data.length
decreasing_by
  rename_i _ go
  have := length_pos_of_ne_nil (fun empty => go (.inl empty))
  rw [length_drop]
  omega

section
variable (port : Port)

def slipTxFlush : Output := fun s =>
  if s.out = [] then
    .ok () s
  else
    match slipWriteAll port s.out s with
    | .ok () s => .ok () { s with out := [] }
    | .error err s => .error err { s with out := [] }

/-- The check at the start of `slip_tx_put`: a full buffer is flushed. -/
def slipTxRoom : Output := fun s => if txChunkSize ≤ s.out.length then slipTxFlush port s else .ok () s

def slipTxPut (value : UInt8) : Output := do
  slipTxRoom port
  modify fun s => { s with out := s.out ++ [value] }

/-- One turn of the loop of `slip_tx_encode_bytes`. -/
def slipTxEncodeByte (value : UInt8) : Output :=
  if value = slipEnd then do
    slipTxPut port slipEsc
    slipTxPut port slipEscEnd
  else if value = slipEsc then do
    slipTxPut port slipEsc
    slipTxPut port slipEscEsc
  else
    slipTxPut port value

def slipTxEncodeBytes (payload : List UInt8) : Output := payload.forM (slipTxEncodeByte port)

/-- The writes of `slip_driver_output`. -/
def slipSendFrame (packet : List UInt8) : Output := do
  slipTxPut port slipEnd
  slipTxEncodeBytes port packet
  slipTxPut port slipEnd
  slipTxFlush port

def slipDriverOutput (packet : List UInt8) : Output := fun s =>
  if packet = [] ∨ s.running = false ∨ port.stopRequested s.turn = true ∨ s.portValid = false then
    .ok () s
  else
    match slipSendFrame port packet { s with out := [], turn := s.turn + 1 } with
    | .ok () s =>
      .ok () { s with txPackets := s.txPackets + 1, txBytes := s.txBytes + UInt32.ofNat packet.length }
    | .error err s => .error err s

end

/-- The receiving side of the job; `received` are the frames `esp_netif_receive` was given. -/
structure Rx where
  frame : List UInt8
  escaped : Bool
  dropping : Bool
  received : List (List UInt8)
  rxPackets : UInt32
  rxBytes : UInt32
  rxErrors : UInt32
  rxOversize : UInt32
  lastError : Option EspErr
  deriving DecidableEq

section
-- what `esp_netif_receive` answers to the last of the frames it was given
variable (netif : List (List UInt8) → Option EspErr)

variable (rx : Rx)

def slipResetRxFrame : Rx := { rx with frame := [], escaped := false, dropping := false }

def slipDeliverFrame : Rx :=
  if rx.frame = [] then
    slipResetRxFrame rx
  else
    let received := rx.received ++ [rx.frame]
    match netif received with
    | some err => slipResetRxFrame { rx with received, rxErrors := rx.rxErrors + 1, lastError := some err }
    | none =>
      slipResetRxFrame { rx with
        received, rxPackets := rx.rxPackets + 1, rxBytes := rx.rxBytes + UInt32.ofNat rx.frame.length }

/-- The end of `slip_rx_byte`, with the value that stands for the byte. -/
def slipStore (value : UInt8) : Rx :=
  if frameSize ≤ rx.frame.length then
    { rx with rxOversize := rx.rxOversize + 1, lastError := some .noMem, dropping := true }
  else
    { rx with frame := rx.frame ++ [value] }

def slipRxByte (value : UInt8) : Rx :=
  if value = slipEnd then
    if rx.dropping then slipResetRxFrame rx else slipDeliverFrame netif rx
  else if rx.dropping then
    rx
  else if rx.escaped then
    if value = slipEscEnd then
      slipStore { rx with escaped := false } slipEnd
    else if value = slipEscEsc then
      slipStore { rx with escaped := false } slipEsc
    else
      { slipResetRxFrame { rx with rxErrors := rx.rxErrors + 1, lastError := some .invalidResponse } with
        dropping := true }
  else if value = slipEsc then
    { rx with escaped := true }
  else
    slipStore rx value

def slipReceive (bytes : List UInt8) : Rx := bytes.foldl (slipRxByte netif) rx

end

end SolarOs.Slip

/-! What the SLIP job sends is what the SLIP job receives, whatever came before. -/
namespace SolarOs.Slip
open List

def escape (value : UInt8) : List UInt8 :=
  if value = slipEnd then [slipEsc, slipEscEnd]
  else if value = slipEsc then [slipEsc, slipEscEsc]
  else [value]

def framed (packet : List UInt8) : List UInt8 := slipEnd :: (packet.flatMap escape ++ [slipEnd])

section Output
variable {port : Port}

def Port.Refuses (port : Port) : Prop :=
  ∃ n data, data ≠ [] ∧ ((∃ err, port.write n data = .error err) ∨ port.write n data = .ok 0)

/-- An output leaves the job running. It ends well and has added these bytes to those written
and still to be written, or the port has refused a write. -/
def Writes (port : Port) (act : Output) (bytes : List UInt8) : Prop :=
  ∀ s, (∃ s', act s = .ok () s' ∧ s'.wire ++ s'.out = s.wire ++ s.out ++ bytes ∧
      s'.running = s.running ∧ s'.portValid = s.portValid) ∨
    (∃ err s', act s = .error err s') ∧ port.Refuses

theorem Writes.pure : Writes port (Pure.pure ()) [] :=
  fun s => .inl ⟨s, rfl, (append_nil _).symm, rfl, rfl⟩

theorem Writes.andThen {first second : Output} {bytes more : List UInt8} (hfirst : Writes port first bytes)
    (hsecond : Writes port second more) : Writes port (do first; second) (bytes ++ more) := by
  intro s
  change (∃ s', EStateM.bind first (fun _ => second) s = .ok () s' ∧ _) ∨
    (∃ err s', EStateM.bind first (fun _ => second) s = .error err s') ∧ _
  unfold EStateM.bind
  rcases hfirst s with ⟨mid, done, wrote, running, valid⟩ | ⟨⟨err, mid, failed⟩, refused⟩
  · rw [done]
    rcases hsecond mid with ⟨s', done', wrote', running', valid'⟩ | ⟨⟨err, s', failed⟩, refused⟩
    · exact .inl ⟨s', done', by rw [wrote', wrote, append_assoc], running'.trans running, valid'.trans valid⟩
    · exact .inr ⟨⟨err, s', failed⟩, refused⟩
  · rw [failed]
    exact .inr ⟨⟨err, mid, rfl⟩, refused⟩

theorem Writes.forM {α : Type} {act : α → Output} {bytes : α → List UInt8}
    (each : ∀ a, Writes port (act a) (bytes a)) (list : List α) : Writes port (list.forM act) (list.flatMap bytes) := by
  induction list with
  | nil => exact .pure
  | cons a list ih =>
    rw [flatMap_cons]
    exact (each a).andThen ih

section
variable (runs : ∀ n, port.stopRequested n = false)
include runs

theorem writeAll_wire (data : List UInt8) (s : Tx) :
    (∃ s', slipWriteAll port data s = .ok () s' ∧ s'.wire = s.wire ++ data ∧ s'.running = s.running ∧
      s'.portValid = s.portValid) ∨ (∃ err s', slipWriteAll port data s = .error err s') ∧ port.Refuses := by
  induction h : data.length using Nat.strongRecOn generalizing data s with
  | ind n ih =>
    rw [slipWriteAll]
    split
    next stop =>
      obtain rfl : data = [] := stop.resolve_right (by rw [runs]; decide)
      exact .inl ⟨s, rfl, (append_nil _).symm, rfl, rfl⟩
    next go =>
      have some : data ≠ [] := fun empty => go (.inl empty)
      split
      next err refused => exact .inr ⟨⟨_, _, rfl⟩, _, data, some, .inl ⟨err, refused⟩⟩
      next refused => exact .inr ⟨⟨_, _, rfl⟩, _, data, some, .inr refused⟩
      next written _ =>
        have shorter : (data.drop (written + 1)).length < n := by
          have := length_pos_of_ne_nil some
          rw [length_drop]
          omega
        rcases ih _ shorter (data.drop (written + 1)) { s with
            turn := s.turn + 1, wire := s.wire ++ data.take (written + 1) } rfl with
          ⟨s', done, wrote, running, valid⟩ | failed
        · refine .inl ⟨s', done, ?_, running, valid⟩
          rw [wrote, append_assoc, take_append_drop]
        · exact .inr failed

theorem flush_wire (s : Tx) :
    (∃ s', slipTxFlush port s = .ok () s' ∧ s'.wire = s.wire ++ s.out ∧ s'.out = [] ∧ s'.running = s.running ∧
      s'.portValid = s.portValid) ∨ (∃ err s', slipTxFlush port s = .error err s') ∧ port.Refuses := by
  unfold slipTxFlush
  split
  next empty =>
    refine .inl ⟨s, rfl, ?_, empty, rfl, rfl⟩
    rw [empty, append_nil]
  next =>
    rcases writeAll_wire runs s.out s with ⟨s', done, wrote, running, valid⟩ | ⟨⟨err, s', failed⟩, refused⟩
    · rw [done]
      exact .inl ⟨_, rfl, wrote, rfl, running, valid⟩
    · rw [failed]
      exact .inr ⟨⟨_, _, rfl⟩, refused⟩

theorem writes_flush : Writes port (slipTxFlush port) [] := by
  intro s
  rcases flush_wire runs s with ⟨s', done, wrote, out, running, valid⟩ | failed
  · exact .inl ⟨s', done, by rw [wrote, out], running, valid⟩
  · exact .inr failed

theorem writes_room : Writes port (slipTxRoom port) [] := by
  intro s
  unfold slipTxRoom
  split
  · exact writes_flush runs s
  · exact Writes.pure s

theorem writes_put (value : UInt8) : Writes port (slipTxPut port value) [value] :=
  (writes_room runs).andThen fun _ => .inl ⟨_, rfl, (append_assoc ..).symm, rfl, rfl⟩

theorem writes_encodeByte (value : UInt8) : Writes port (slipTxEncodeByte port value) (escape value) := by
  unfold slipTxEncodeByte escape
  split_ifs
  · exact (writes_put runs slipEsc).andThen (writes_put runs slipEscEnd)
  · exact (writes_put runs slipEsc).andThen (writes_put runs slipEscEsc)
  · exact writes_put runs value

end

def Drains (act : Output) : Prop := ∀ s s', act s = .ok () s' → s'.out = []

theorem Drains.andThen {first second : Output} (h : Drains second) : Drains (do first; second) := by
  intro s s' done
  change EStateM.bind first (fun _ => second) s = .ok () s' at done
  unfold EStateM.bind at done
  split at done
  next mid _ => exact h mid s' done
  next => exact nomatch done

theorem drains_flush (runs : ∀ n, port.stopRequested n = false) : Drains (slipTxFlush port) := by
  intro s s' done
  rcases flush_wire runs s with ⟨mid, flushed, -, out, -⟩ | ⟨⟨err, mid, failed⟩, -⟩
  · obtain ⟨-, rfl⟩ := EStateM.Result.ok.inj (flushed.symm.trans done)
    exact out
  · exact nomatch failed.symm.trans done

theorem output_wire (runs : ∀ n, port.stopRequested n = false) {packet : List UInt8} (some : packet ≠ [])
    (s : Tx) (running : s.running = true) (valid : s.portValid = true) :
    (∃ s', slipDriverOutput port packet s = .ok () s' ∧ s'.wire = s.wire ++ framed packet ∧ s'.running = true ∧
      s'.portValid = true) ∨ (∃ err s', slipDriverOutput port packet s = .error err s') ∧ port.Refuses := by
  have up : ¬(packet = [] ∨ s.running = false ∨ port.stopRequested s.turn = true ∨ s.portValid = false) := by
    rw [running, valid, runs]
    simpa using some
  have writes : Writes port (slipSendFrame port packet) (framed packet) := by
    have parts := (writes_put runs slipEnd).andThen ((Writes.forM (writes_encodeByte runs) packet).andThen
      ((writes_put runs slipEnd).andThen (writes_flush runs)))
    exact parts
  have drains : Drains (slipSendFrame port packet) := .andThen (.andThen (.andThen (drains_flush runs)))
  unfold slipDriverOutput
  rw [if_neg up]
  rcases writes { s with out := [], turn := s.turn + 1 } with
    ⟨s', done, wrote, running', valid'⟩ | ⟨⟨err, s', failed⟩, refused⟩
  · rw [done]
    rw [drains _ _ done, append_nil, append_nil] at wrote
    exact .inl ⟨_, rfl, wrote, running'.trans running, valid'.trans valid⟩
  · rw [failed]
    exact .inr ⟨⟨err, s', rfl⟩, refused⟩

def slipOutputs (port : Port) (packets : List (List UInt8)) : Output := packets.forM (slipDriverOutput port)

theorem outputs_wire (runs : ∀ n, port.stopRequested n = false) {packets : List (List UInt8)}
    (some : ∀ packet ∈ packets, packet ≠ []) (s : Tx) (running : s.running = true) (valid : s.portValid = true) :
    (∃ s', slipOutputs port packets s = .ok () s' ∧ s'.wire = s.wire ++ packets.flatMap framed) ∨
      (∃ err s', slipOutputs port packets s = .error err s') ∧ port.Refuses := by
  induction packets generalizing s with
  | nil => exact .inl ⟨s, rfl, (append_nil _).symm⟩
  | cons packet packets ih =>
    change (∃ s', EStateM.bind (slipDriverOutput port packet) (fun _ => slipOutputs port packets) s = .ok () s' ∧ _) ∨
      (∃ err s', EStateM.bind (slipDriverOutput port packet) (fun _ => slipOutputs port packets) s = .error err s') ∧ _
    unfold EStateM.bind
    rcases output_wire runs (some packet mem_cons_self) s running valid with
      ⟨mid, done, wrote, running', valid'⟩ | ⟨⟨err, mid, failed⟩, refused⟩
    · rw [done]
      rcases ih (fun packet there => some packet (mem_cons_of_mem _ there)) mid running' valid' with
        ⟨s', done', wrote'⟩ | failed
      · exact .inl ⟨s', done', by rw [wrote', wrote, append_assoc, flatMap_cons]⟩
      · exact .inr failed
    · rw [failed]
      exact .inr ⟨⟨err, mid, rfl⟩, refused⟩

end Output

section Receive
variable (netif : List (List UInt8) → Option EspErr) (rx : Rx)

def Rx.Rests (rx : Rx) : Prop := rx.frame = [] ∧ rx.escaped = false ∧ rx.dropping = false

theorem receive_append (bytes more : List UInt8) :
    slipReceive netif rx (bytes ++ more) = slipReceive netif (slipReceive netif rx bytes) more :=
  foldl_append

theorem rxByte_end : (slipRxByte netif rx slipEnd).Rests ∧ (slipRxByte netif rx slipEnd).received =
      rx.received ++ if rx.dropping = true ∨ rx.frame = [] then [] else [rx.frame] := by
  unfold slipRxByte
  rw [if_pos rfl]
  cases dropping : rx.dropping with
  | true => exact ⟨⟨rfl, rfl, rfl⟩, (append_nil _).symm⟩
  | false =>
    unfold slipDeliverFrame
    by_cases empty : rx.frame = []
    · rw [if_neg Bool.false_ne_true, if_pos empty, if_pos (.inr empty)]
      exact ⟨⟨rfl, rfl, rfl⟩, (append_nil _).symm⟩
    · rw [if_neg Bool.false_ne_true, if_neg empty, if_neg (by simpa using empty)]
      dsimp only
      split <;> exact ⟨⟨rfl, rfl, rfl⟩, rfl⟩

def Rx.Holds (rx : Rx) (frame : List UInt8) : Prop := rx.frame = frame ∧ rx.escaped = false ∧ rx.dropping = false

variable {netif rx}

theorem store_holds {rx : Rx} {frame : List UInt8} (h : rx.Holds frame) (value : UInt8)
    (fits : frame.length < frameSize) :
    (slipStore rx value).Holds (frame ++ [value]) ∧ (slipStore rx value).received = rx.received := by
  obtain ⟨rfl, escaped, dropping⟩ := h
  unfold slipStore
  rw [if_neg (by omega)]
  exact ⟨⟨rfl, escaped, dropping⟩, rfl⟩

theorem receive_escape {frame : List UInt8} (h : rx.Holds frame) (value : UInt8)
    (fits : frame.length < frameSize) : (slipReceive netif rx (escape value)).Holds (frame ++ [value]) ∧
      (slipReceive netif rx (escape value)).received = rx.received := by
  obtain ⟨same, escaped, dropping⟩ := h
  have pair (code : UInt8) (plain : code ≠ slipEnd) (stands : ∀ rx : Rx, rx.escaped = true → rx.dropping = false →
      slipRxByte netif rx code = slipStore { rx with escaped := false } value) :
      (slipReceive netif rx [slipEsc, code]).Holds (frame ++ [value]) ∧
        (slipReceive netif rx [slipEsc, code]).received = rx.received := by
    have first : slipRxByte netif rx slipEsc = { rx with escaped := true } := by
      unfold slipRxByte
      rw [if_neg (by decide), dropping, if_neg Bool.false_ne_true, escaped, if_neg Bool.false_ne_true, if_pos rfl]
    have both : slipReceive netif rx [slipEsc, code] = slipStore { rx with escaped := false } value := by
      show slipRxByte netif (slipRxByte netif rx slipEsc) code = _
      rw [first]
      exact stands { rx with escaped := true } rfl dropping
    rw [both]
    exact @store_holds { rx with escaped := false } frame ⟨same, rfl, dropping⟩ value fits
  unfold escape
  split_ifs with isEnd isEsc
  · refine pair slipEscEnd (by decide) fun rx escaped dropping => ?_
    unfold slipRxByte
    rw [if_neg (by decide), dropping, if_neg Bool.false_ne_true, escaped, if_pos rfl, if_pos rfl, isEnd]
  · refine pair slipEscEsc (by decide) fun rx escaped dropping => ?_
    unfold slipRxByte
    rw [if_neg (by decide), dropping, if_neg Bool.false_ne_true, escaped, if_pos rfl, if_neg (by decide), if_pos rfl,
      isEsc]
  · have plain : slipRxByte netif rx value = slipStore rx value := by
      unfold slipRxByte
      rw [if_neg isEnd, dropping, if_neg Bool.false_ne_true, escaped, if_neg Bool.false_ne_true, if_neg isEsc]
    show (slipRxByte netif rx value).Holds _ ∧ (slipRxByte netif rx value).received = _
    rw [plain]
    exact store_holds ⟨same, escaped, dropping⟩ value fits

theorem receive_payload {frame : List UInt8} (h : rx.Holds frame) (payload : List UInt8)
    (fits : frame.length + payload.length ≤ frameSize) :
    (slipReceive netif rx (payload.flatMap escape)).Holds (frame ++ payload) ∧
      (slipReceive netif rx (payload.flatMap escape)).received = rx.received := by
  induction payload generalizing rx frame with
  | nil =>
    rw [append_nil]
    exact ⟨h, rfl⟩
  | cons value payload ih =>
    rw [length_cons] at fits
    obtain ⟨holds, received⟩ := receive_escape h value (by omega)
    obtain ⟨holds', received'⟩ := ih holds (by rw [length_append, length_singleton]; omega)
    rw [flatMap_cons, receive_append]
    rw [append_assoc, singleton_append] at holds'
    exact ⟨holds', received'.trans received⟩

theorem receive_framed (rx : Rx) {packet : List UInt8} (some : packet ≠ []) (fits : packet.length ≤ frameSize) :
    (slipReceive netif rx (framed packet)).Rests ∧
      (slipReceive netif rx (framed packet)).received = (slipRxByte netif rx slipEnd).received ++ [packet] := by
  have holds : (slipRxByte netif rx slipEnd).Holds [] := (rxByte_end netif rx).1
  obtain ⟨⟨same, -, dropping⟩, received⟩ := receive_payload holds packet (by simpa using fits)
  obtain ⟨rests, delivered⟩ := rxByte_end netif (slipReceive netif (slipRxByte netif rx slipEnd) (packet.flatMap escape))
  have whole : slipReceive netif rx (framed packet) =
      slipRxByte netif (slipReceive netif (slipRxByte netif rx slipEnd) (packet.flatMap escape)) slipEnd :=
    foldl_append
  rw [nil_append] at same
  rw [same, dropping, received] at delivered
  rw [whole]
  exact ⟨rests, by rw [delivered, if_neg (by simpa using some)]⟩

theorem receive_packets {rx : Rx} (rests : rx.Rests) (packets : List (List UInt8))
    (sizes : ∀ packet ∈ packets, packet ≠ [] ∧ packet.length ≤ frameSize) :
    (slipReceive netif rx (packets.flatMap framed)).received = rx.received ++ packets := by
  induction packets generalizing rx with
  | nil => exact (append_nil _).symm
  | cons packet packets ih =>
    obtain ⟨some, fits⟩ := sizes packet mem_cons_self
    obtain ⟨rests', received⟩ := receive_framed rx some fits
    have quiet : (slipRxByte netif rx slipEnd).received = rx.received := by
      rw [(rxByte_end netif rx).2, if_pos (.inr rests.1), append_nil]
    rw [flatMap_cons, receive_append, ih rests' fun packet there => sizes packet (mem_cons_of_mem _ there),
      received, quiet, append_assoc, singleton_append]

theorem receive_after (rx : Rx) (packets : List (List UInt8))
    (sizes : ∀ packet ∈ packets, packet ≠ [] ∧ packet.length ≤ frameSize) :
    ∃ pending, (pending = [] ∨ pending = [rx.frame]) ∧
      (slipReceive netif rx (packets.flatMap framed)).received = rx.received ++ pending ++ packets := by
  cases packets with
  | nil => exact ⟨[], .inl rfl, by simp [slipReceive]⟩
  | cons packet packets =>
    obtain ⟨some, fits⟩ := sizes packet mem_cons_self
    obtain ⟨rests, received⟩ := receive_framed rx some fits
    refine ⟨if rx.dropping = true ∨ rx.frame = [] then [] else [rx.frame], ?_, ?_⟩
    · split_ifs
      · exact .inl rfl
      · exact .inr rfl
    · rw [flatMap_cons, receive_append,
        receive_packets rests packets fun packet there => sizes packet (mem_cons_of_mem _ there), received,
        (rxByte_end netif rx).2, append_assoc, singleton_append]

theorem receive_garbage (rx : Rx) (garbage : List UInt8) (packets : List (List UInt8))
    (sizes : ∀ packet ∈ packets, packet ≠ [] ∧ packet.length ≤ frameSize) :
    (slipReceive netif rx (slipEnd :: garbage ++ slipEnd :: packets.flatMap framed)).received =
      (slipReceive netif rx (slipEnd :: garbage ++ [slipEnd])).received ++ packets := by
  have rests : (slipReceive netif rx (slipEnd :: garbage ++ [slipEnd])).Rests := by
    rw [receive_append]
    exact (rxByte_end netif _).1
  rw [← receive_packets rests packets sizes, ← receive_append, append_assoc, singleton_append]

end Receive

/-- Packets that the running job sends over a port that takes something of every write, in
pieces of any size, arrive in order at a receiver in any state, after at most the frame it
was in the middle of; and garbage between two END bytes reaches no packet behind them. -/
theorem packets_round_trip {port : Port} (runs : ∀ n, port.stopRequested n = false)
    (netif : List (List UInt8) → Option EspErr) (packets : List (List UInt8))
    (sizes : ∀ packet ∈ packets, packet ≠ [] ∧ packet.length ≤ frameSize) (s : Tx)
    (running : s.running = true) (valid : s.portValid = true) :
    (∃ s' bytes, slipOutputs port packets s = .ok () s' ∧ s'.wire = s.wire ++ bytes ∧
      ∀ rx : Rx, (∃ pending, (pending = [] ∨ pending = [rx.frame]) ∧
          (slipReceive netif rx bytes).received = rx.received ++ pending ++ packets) ∧
        ∀ garbage, (slipReceive netif rx (slipEnd :: garbage ++ slipEnd :: bytes)).received =
          (slipReceive netif rx (slipEnd :: garbage ++ [slipEnd])).received ++ packets) ∨
      (∃ err s', slipOutputs port packets s = .error err s') ∧ port.Refuses := by
  rcases outputs_wire runs (fun packet there => (sizes packet there).1) s running valid with ⟨s', done, wire⟩ | failed
  · exact .inl ⟨s', _, done, wire, fun rx =>
      ⟨receive_after rx packets sizes, fun garbage => receive_garbage rx garbage packets sizes⟩⟩
  · exact .inr failed

def slowPort : Port := ⟨fun _ => false, fun _ data => .ok (min data.length 3)⟩

def freshTx : Tx := ⟨true, true, [], [], 0, 0, 0, 0, none⟩

theorem packets_round_trip_slowPort : (∃ s', slipOutputs slowPort [[0xc0, 0x01], [0xdb]] freshTx = .ok () s' ∧
      s'.wire = [0xc0, 0xdb, 0xdc, 0x01, 0xc0, 0xc0, 0xdb, 0xdd, 0xc0]) ∧
    ((∃ s' bytes, slipOutputs slowPort [[0xc0, 0x01], [0xdb]] freshTx = .ok () s' ∧ s'.wire = freshTx.wire ++ bytes ∧
      ∀ rx : Rx, (∃ pending, (pending = [] ∨ pending = [rx.frame]) ∧
          (slipReceive (fun _ => none) rx bytes).received = rx.received ++ pending ++ [[0xc0, 0x01], [0xdb]]) ∧
        ∀ garbage, (slipReceive (fun _ => none) rx (slipEnd :: garbage ++ slipEnd :: bytes)).received =
          (slipReceive (fun _ => none) rx (slipEnd :: garbage ++ [slipEnd])).received ++ [[0xc0, 0x01], [0xdb]]) ∨
      (∃ err s', slipOutputs slowPort [[0xc0, 0x01], [0xdb]] freshTx = .error err s') ∧ slowPort.Refuses) := by
  refine ⟨?_, packets_round_trip (fun _ => rfl) _ _ (by decide) freshTx rfl rfl⟩
  rcases @outputs_wire slowPort (fun _ => rfl) [[0xc0, 0x01], [0xdb]] (by decide) freshTx rfl rfl with
    ⟨s', done, wire⟩ | ⟨-, n, data, some, ⟨err, refused⟩ | refused⟩
  · exact ⟨s', done, wire⟩
  · exact nomatch refused
  · have := length_pos_of_ne_nil some
    have zero : min data.length 3 = 0 := Except.ok.inj refused
    omega

end SolarOs.Slip
