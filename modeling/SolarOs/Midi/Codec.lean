import Mathlib.Data.List.Basic
import Mathlib.Data.Vector.Basic
import Mathlib.Data.List.DropRight

/-! The MIDI codec: the lengths of messages, encoding, and the decoder of a byte stream. -/
namespace SolarOs.Midi

def dataMax : UInt8 := 127

structure Message where
  status : UInt8
  data1 : UInt8
  data2 : UInt8
  length : Nat
  deriving DecidableEq, Repr

def statusSupported (status : UInt8) : Bool :=
  if status < 0x80 then false
  else if status < 0xf0 then true
  else status ∈ [0xf1, 0xf2, 0xf3, 0xf6, 0xf7, 0xf8, 0xfa, 0xfb, 0xfc, 0xfe, 0xff]

def messageLength (status : UInt8) : Nat :=
  if !statusSupported status then 0
  else if status < 0xf0 then
    let kind := status &&& 0xf0
    if kind = 0xc0 ∨ kind = 0xd0 then 2 else 3
  else if status = 0xf1 ∨ status = 0xf3 then 2
  else if status = 0xf2 then 3
  else 1

def Message.valid (m : Message) : Bool :=
  if m.length ≠ messageLength m.status then false
  else if m.length > 1 ∧ m.data1 > dataMax then false
  else m.length ≤ 2 || m.data2 ≤ dataMax

def encode (m : Message) : List UInt8 :=
  if !m.valid || m.length = 0 then []
  else m.status :: (if m.length > 1 then [m.data1] else []) ++ if m.length > 2 then [m.data2] else []

structure Decoder where
  runningStatus : UInt8
  activeStatus : UInt8
  data : Vector UInt8 2
  dataCount : Nat
  sysex : Bool
  deriving DecidableEq

def Decoder.reset : Decoder := ⟨0, 0, .replicate 2 0, 0, false⟩

inductive Decoded where
  | none
  | message (m : Message)
  | unsupported
  deriving DecidableEq

def Decoded.emitted : Decoded → Option Message
  | .message m => some m
  | _ => Option.none

variable (d : Decoder)

def emitStatus (status : UInt8) : Decoder × Decoded :=
  let length := messageLength status
  if length = 0 then ({ d with activeStatus := 0, dataCount := 0 }, .unsupported)
  else
    let started :=
      { d with
        activeStatus := status
        dataCount := 0
        runningStatus := if status < 0xf0 then status else 0 }
    if length ≠ 1 then (started, .none)
    else ({ started with activeStatus := 0 }, .message ⟨status, 0, 0, 1⟩)

/-- The part of `solar_os_midi_decode_byte` for status bytes that are not real-time. -/
def decodeStatus (byte : UInt8) : Decoder × Decoded :=
  if byte = 0xf0 then
    ({ d with runningStatus := 0, activeStatus := 0, dataCount := 0, sysex := true }, .unsupported)
  else emitStatus d byte

/-- The part of `solar_os_midi_decode_byte` for data bytes. -/
def decodeData (byte : UInt8) : Decoder × Decoded :=
  let active := if d.activeStatus = 0 then d.runningStatus else d.activeStatus
  let count := if d.activeStatus = 0 then 0 else d.dataCount
  let length := messageLength active
  if length < 2 ∨ count ≥ 2 then ({ d with activeStatus := 0, dataCount := 0 }, .unsupported)
  else
    let data := d.data.setIfInBounds count byte
    if count + 1 + 1 < length then
      ({ d with activeStatus := active, data, dataCount := count + 1 }, .none)
    else
      ({ d with activeStatus := d.runningStatus, data, dataCount := 0 },
        .message ⟨active, data[0], if length > 2 then data[1] else 0, length⟩)

def decodeByte (byte : UInt8) : Decoder × Decoded :=
  if byte ≥ 0xf8 then
    if messageLength byte = 0 then (d, .unsupported) else (d, .message ⟨byte, 0, 0, 1⟩)
  else if d.sysex ∧ byte = 0xf7 then ({ d with sysex := false }, .unsupported)
  else if d.sysex ∧ byte &&& 0x80 = 0 then (d, .none)
  else
    let d := { d with sysex := false }
    if byte &&& 0x80 ≠ 0 then decodeStatus d byte else decodeData d byte

def decode (d : Decoder) : List UInt8 → List Message
  | [] => []
  | byte :: bytes => (decodeByte d byte).2.emitted.toList ++ decode (decodeByte d byte).1 bytes

end SolarOs.Midi

/-! The messages of a MIDI stream as the MIDI 1.0 grammar has them, told from the status
bytes so far and the data bytes since the last of them. -/
namespace SolarOs.Midi.Grammar

def isData (byte : UInt8) : Bool := byte < 0x80

def isRealTime (byte : UInt8) : Bool := 0xf8 ≤ byte

section
variable (stream : List UInt8)

def statuses : List UInt8 := stream.filter fun byte => !isData byte && !isRealTime byte

def dataSince : List UInt8 :=
  (stream.filter fun byte => !isRealTime byte).rtakeWhile isData

def message (status : UInt8) (data : List UInt8) : Message :=
  ⟨status, data.getD 0 0, data.getD 1 0, data.length + 1⟩

def group (size : Nat) (data : List UInt8) : List UInt8 := data.drop (data.length - data.length % size)

/-- The message that the last byte of the stream completes, by the last status byte, the one
before it and the data bytes since. The status of a channel message stands for every group of
data bytes after it, that of a system common message for one; a system-exclusive or undefined
status gives no message, nor does the end of system-exclusive data. -/
def completed (earlier : Option UInt8) (status : UInt8) (data : List UInt8) : Option Message :=
  let size := messageLength status - 1
  if status < 0xf0 then
    if data ≠ [] ∧ data.length % size = 0 then some (message status (data.drop (data.length - size))) else none
  else if messageLength status = 0 then none
  else if status = 0xf7 ∧ earlier = some 0xf0 then none
  else if data.length = size then some (message status data)
  else none

def next (past : List UInt8) (byte : UInt8) : Option Message :=
  if isRealTime byte then if messageLength byte = 0 then none else some (message byte [])
  else
    (statuses (past ++ [byte])).getLast?.bind fun status =>
      completed (statuses (past ++ [byte])).dropLast.getLast? status (dataSince (past ++ [byte]))

def messagesAfter (past : List UInt8) : List UInt8 → List Message
  | [] => []
  | byte :: bytes => (next past byte).toList ++ messagesAfter (past ++ [byte]) bytes

def messages : List Message := messagesAfter [] stream

def undefined (byte : UInt8) : Bool := byte = 0xf4 || byte = 0xf5

def runningStatus : UInt8 :=
  match ((statuses stream).filter fun status => !undefined status).getLast? with
  | some status => if status < 0xf0 then status else 0
  | none => 0

/-- The stream ends with an undefined status byte and as many data bytes as a message of the
running status before it has. -/
def Uncancelled : Prop :=
  (statuses stream).getLast?.any undefined = true ∧ runningStatus stream ≠ 0 ∧
    (dataSince stream).length = messageLength (runningStatus stream) - 1

end

instance (stream : List UInt8) : Decidable (Uncancelled stream) := inferInstanceAs (Decidable (_ ∧ _ ∧ _))

section Snoc

variable {past : List UInt8} {byte : UInt8}

theorem statuses_realTime (h : isRealTime byte = true) : statuses (past ++ [byte]) = statuses past := by
  simp [statuses, List.filter_append, h]

theorem dataSince_realTime (h : isRealTime byte = true) : dataSince (past ++ [byte]) = dataSince past := by
  simp [dataSince, List.filter_append, h]

theorem realTime_of_data (h : isData byte = true) : isRealTime byte = false := by
  simp only [isData, isRealTime, decide_eq_true_eq, decide_eq_false_iff_not, UInt8.not_le] at *
  exact UInt8.lt_trans h (by decide)

theorem statuses_data (h : isData byte = true) : statuses (past ++ [byte]) = statuses past := by
  simp [statuses, List.filter_append, h]

theorem dataSince_data (h : isData byte = true) : dataSince (past ++ [byte]) = dataSince past ++ [byte] := by
  simp [dataSince, List.filter_append, realTime_of_data h, h]

theorem statuses_status (data : isData byte = false) (realTime : isRealTime byte = false) :
    statuses (past ++ [byte]) = statuses past ++ [byte] := by
  simp [statuses, List.filter_append, data, realTime]

theorem dataSince_status (data : isData byte = false) (realTime : isRealTime byte = false) :
    dataSince (past ++ [byte]) = [] := by
  simp [dataSince, List.filter_append, realTime, data]

theorem runningStatus_congr {stream : List UInt8} (h : statuses stream = statuses past) :
    runningStatus stream = runningStatus past := by
  rw [runningStatus, h, runningStatus]

theorem runningStatus_undefined (h : undefined byte = true) : runningStatus (past ++ [byte]) = runningStatus past := by
  have known : byte = 0xf4 ∨ byte = 0xf5 := by simpa [undefined] using h
  have status : isData byte = false ∧ isRealTime byte = false := by
    rcases known with rfl | rfl <;> decide
  simp [runningStatus, statuses_status status.1 status.2, List.filter_append, h]

theorem runningStatus_status (data : isData byte = false) (realTime : isRealTime byte = false)
    (h : undefined byte = false) : runningStatus (past ++ [byte]) = if byte < 0xf0 then byte else 0 := by
  simp [runningStatus, statuses_status data realTime, List.filter_append, h]

end Snoc

theorem group_length {size : Nat} (data : List UInt8) : (group size data).length = data.length % size := by
  rw [group, List.length_drop]
  have := Nat.mod_le data.length size
  omega

theorem group_concat {size : Nat} (some : size = 1 ∨ size = 2) (data : List UInt8) (byte : UInt8) :
    group size (data ++ [byte]) =
      if (group size data).length + 1 = size then [] else group size data ++ [byte] := by
  rw [group_length]
  split
  · rename_i full
    rw [group, List.drop_eq_nil_iff]
    simp only [List.length_append, List.length_singleton]
    rcases some with rfl | rfl <;> omega
  · rename_i short
    have same : data.length + 1 - (data.length + 1) % size = data.length - data.length % size := by
      rcases some with rfl | rfl <;> omega
    rw [group, group, List.length_append, List.length_singleton, same, List.drop_append_of_le_length (Nat.sub_le ..)]

end SolarOs.Midi.Grammar
