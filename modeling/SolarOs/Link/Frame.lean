import Mathlib.Data.List.Basic
import SolarOs.Esp
import SolarOs.Library.ByteOrder
import Mathlib.Tactic.IntervalCases

/-! The SolarOS Link version 1 frame: header, payload and CRC-16. -/
namespace SolarOs.Link
open ByteOrder List

def protocolVersion : UInt8 := 1
def frameMax : Nat := 256
def headerSize : Nat := 12
def crcSize : Nat := 2
def payloadMax : Nat := frameMax - headerSize - crcSize
def broadcast : UInt32 := 0xffffffff
def flagAckRequested : UInt8 := 1
def flagRelayed : UInt8 := 2

/-- `solar_os_link_message_type_t`; `other` holds a byte that names no enumerator. -/
inductive MessageType where
  | text
  | binary
  | acknowledgement
  | stream
  | other (value : UInt8)
  deriving DecidableEq, Repr

def MessageType.toByte : MessageType → UInt8
  | .text => 1
  | .binary => 2
  | .acknowledgement => 3
  | .stream => 4
  | .other value => value

def MessageType.ofByte (value : UInt8) : MessageType :=
  if value = 1 then .text
  else if value = 2 then .binary
  else if value = 3 then .acknowledgement
  else if value = 4 then .stream
  else .other value

/-- `solar_os_link_message_t`; `payload` holds the first `payload_len` bytes. -/
structure Message where
  version : UInt8
  flags : UInt8
  type : MessageType
  sequence : UInt16
  source : UInt32
  destination : UInt32
  payload : List UInt8
  deriving DecidableEq, Repr

def linkCrc16Bit (crc : UInt16) : UInt16 :=
  if crc &&& 0x8000 ≠ 0 then (crc <<< 1) ^^^ 0x1021 else crc <<< 1

def linkCrc16Byte (crc : UInt16) (byte : UInt8) : UInt16 :=
  linkCrc16Bit^[8] (crc ^^^ (byte.toUInt16 <<< 8))

def linkCrc16 (data : List UInt8) : UInt16 := data.foldl linkCrc16Byte 0xffff

def linkWriteU16 (value : UInt16) : List UInt8 := bigEndian16 value
def linkWriteU32 (value : UInt32) : List UInt8 := bigEndian32 value

def linkReadU16 (src : List UInt8) : UInt16 :=
  fromBigEndian16 (src.getD 0 0) (src.getD 1 0)

def linkReadU32 (src : List UInt8) : UInt32 :=
  fromBigEndian32 (src.getD 0 0) (src.getD 1 0) (src.getD 2 0) (src.getD 3 0)

def linkTypeValid : MessageType → Bool
  | .other _ => false
  | _ => true

def linkTypeRequestsAcknowledgement (type : MessageType) : Bool :=
  type = .text || type = .binary

section
variable (m : Message)

/-- The type rules encoder and decoder share: an acknowledgement is empty, and
neither it nor a stream frame asks for an acknowledgement. -/
def typeRulesBroken : Prop :=
  (m.type = .acknowledgement ∧ (m.payload.length ≠ 0 ∨ m.flags &&& flagAckRequested ≠ 0)) ∨
    (m.type = .stream ∧ m.flags &&& flagAckRequested ≠ 0)

instance (m : Message) : Decidable (typeRulesBroken m) := by
  unfold typeRulesBroken; infer_instance

def frameBody : List UInt8 :=
  ((m.version <<< 4) ||| (m.flags &&& 0x0f)) :: m.type.toByte ::
    (linkWriteU16 m.sequence ++ linkWriteU32 m.source ++ linkWriteU32 m.destination ++ m.payload)

def encode : Except EspErr (List UInt8) :=
  if m.version ≠ protocolVersion ∨ linkTypeValid m.type = false ∨
      payloadMax < m.payload.length ∨ typeRulesBroken m then
    .error .invalidArg
  else
    .ok (frameBody m ++ linkWriteU16 (linkCrc16 (frameBody m)))

/-- The message fields read back from frame bytes whose CRC starts at `crcOffset`. -/
def frameMessage (frame : List UInt8) (crcOffset : Nat) : Message where
  version := frame.getD 0 0 >>> 4
  flags := frame.getD 0 0 &&& 0x0f
  type := .ofByte (frame.getD 1 0)
  sequence := linkReadU16 (frame.drop 2)
  source := linkReadU32 (frame.drop 4)
  destination := linkReadU32 (frame.drop 8)
  payload := (frame.drop headerSize).take (crcOffset - headerSize)

def decode (frame : List UInt8) : Except EspErr Message :=
  if frame.length < headerSize + crcSize ∨ frameMax < frame.length then
    .error .invalidSize
  else
    let crcOffset := frame.length - crcSize
    if linkReadU16 (frame.drop crcOffset) ≠ linkCrc16 (frame.take crcOffset) then
      .error .invalidCrc
    else
      let m := frameMessage frame crcOffset
      if m.version ≠ protocolVersion ∨ linkTypeValid m.type = false ∨ typeRulesBroken m then
        .error .invalidVersion
      else
        .ok m

theorem MessageType.toByte_ofByte (value : UInt8) : (MessageType.ofByte value).toByte = value := by
  unfold MessageType.ofByte
  split_ifs with h1 h2 h3 h4 <;> simp_all [MessageType.toByte]

theorem MessageType.ofByte_toByte {type : MessageType} (h : linkTypeValid type = true) :
    MessageType.ofByte type.toByte = type := by
  cases type with
  | other value => simp [linkTypeValid] at h
  | _ => decide

theorem nibbles_split {flags : UInt8} (h : flags < 16) :
    ((protocolVersion <<< 4) ||| (flags &&& 0x0f)) >>> 4 = protocolVersion ∧
      ((protocolVersion <<< 4) ||| (flags &&& 0x0f)) &&& 0x0f = flags := by
  have hlt : flags.toNat < 16 := h
  rw [← UInt8.ofNat_toNat (x := flags)]
  generalize flags.toNat = n at hlt
  interval_cases n <;> decide

theorem nibbles_join (b : UInt8) : ((b >>> 4) <<< 4) ||| ((b &&& 0x0f) &&& 0x0f) = b := by
  have all : ∀ n : Fin 256, ((UInt8.ofNat n >>> 4) <<< 4) |||
      ((UInt8.ofNat n &&& 0x0f) &&& 0x0f) = UInt8.ofNat n := by decide +kernel
  simpa using all ⟨b.toNat, b.toNat_lt⟩

@[simp] theorem frameBody_length :
    (frameBody m).length = headerSize + m.payload.length := by
  simp [frameBody, linkWriteU16, linkWriteU32, headerSize]
  omega

/-- The frame `encode` writes, whatever it checks first. -/
def rawFrame : List UInt8 :=
  frameBody m ++ linkWriteU16 (linkCrc16 (frameBody m))

end

variable {frame : List UInt8} {m : Message}

theorem encode_eq_ok : encode m = .ok frame ↔
      (m.version = protocolVersion ∧ linkTypeValid m.type = true ∧
        m.payload.length ≤ payloadMax ∧ ¬ typeRulesBroken m) ∧ rawFrame m = frame := by
  unfold encode rawFrame
  split_ifs with h
  · simp only [false_iff, not_and]
    rintro ⟨hv, ht, hp, hr⟩ -
    simp [hv, ht, hr, Nat.not_lt.mpr hp] at h
  · simp only [not_or, Decidable.not_not, Bool.not_eq_false, Nat.not_lt] at h
    simp [h]

@[simp] theorem rawFrame_length (m : Message) :
    (rawFrame m).length = headerSize + m.payload.length + crcSize := by
  simp [rawFrame, linkWriteU16, crcSize]

theorem linkReadU16_write (value : UInt16) (rest : List UInt8) : linkReadU16 (linkWriteU16 value ++ rest) = value := by
  simp [linkReadU16, linkWriteU16, bigEndian16]

theorem linkReadU32_write (value : UInt32) (rest : List UInt8) : linkReadU32 (linkWriteU32 value ++ rest) = value := by
  simp [linkReadU32, linkWriteU32, bigEndian32]

theorem frameMessage_rawFrame (hv : m.version = protocolVersion) (ht : linkTypeValid m.type = true)
    (hf : m.flags < 16) : frameMessage (rawFrame m) (headerSize + m.payload.length) = m := by
  obtain ⟨version, flags, type, sequence, source, destination, payload⟩ := m
  subst hv
  have hn := nibbles_split hf
  have hseq := linkReadU16_write sequence
  have hsrc := linkReadU32_write source
  have hdst := linkReadU32_write destination
  simp only [linkWriteU16, linkWriteU32, bigEndian16, bigEndian32, cons_append, nil_append] at hseq hsrc hdst
  simp only [frameMessage, rawFrame, frameBody, linkWriteU16, linkWriteU32, bigEndian16,
    bigEndian32, cons_append, nil_append, getD_cons_zero, getD_cons_succ,
    drop_succ_cons, drop_zero, hn, hseq, hsrc, hdst, MessageType.ofByte_toByte ht,
    headerSize, Nat.add_sub_cancel_left, take_left']

theorem decode_rawFrame (hv : m.version = protocolVersion) (ht : linkTypeValid m.type = true)
    (hp : m.payload.length ≤ payloadMax) (hr : ¬ typeRulesBroken m) (hf : m.flags < 16) :
    decode (rawFrame m) = .ok m := by
  have hlen : (rawFrame m).length = headerSize + m.payload.length + crcSize := rawFrame_length m
  have hoff : (rawFrame m).length - crcSize = headerSize + m.payload.length := by omega
  have hbody : (rawFrame m).take (headerSize + m.payload.length) = frameBody m := by
    rw [rawFrame, ← frameBody_length m, take_left']
    rfl
  have hcrc : (rawFrame m).drop (headerSize + m.payload.length) =
      linkWriteU16 (linkCrc16 (frameBody m)) := by
    rw [rawFrame, ← frameBody_length m, drop_left']
    rfl
  have hread : linkReadU16 (linkWriteU16 (linkCrc16 (frameBody m))) = linkCrc16 (frameBody m) := by
    simpa using linkReadU16_write (linkCrc16 (frameBody m)) []
  have hbound : ¬ ((rawFrame m).length < headerSize + crcSize ∨ frameMax < (rawFrame m).length) := by
    rw [hlen]
    simp only [payloadMax, headerSize, crcSize, frameMax] at *
    omega
  simp only [decode, if_neg hbound, hoff, hbody, hcrc, hread, frameMessage_rawFrame hv ht hf, hv, ht,
    hr, ne_eq, not_true_eq_false, Bool.true_eq_false, or_self, if_false]

theorem linkWriteU16_read (src : List UInt8) (h : 2 ≤ src.length) : linkWriteU16 (linkReadU16 src) = src.take 2 := by
  match src, h with
  | b0 :: b1 :: rest, _ => simp [linkWriteU16, linkReadU16]

theorem linkWriteU32_read (src : List UInt8) (h : 4 ≤ src.length) : linkWriteU32 (linkReadU32 src) = src.take 4 := by
  match src, h with
  | b0 :: b1 :: b2 :: b3 :: rest, _ => simp [linkWriteU32, linkReadU32]

theorem frameBody_frameMessage {crcOffset : Nat} (hlow : headerSize ≤ crcOffset) (hhigh : crcOffset ≤ frame.length)
    (hv : (frameMessage frame crcOffset).version = protocolVersion) :
    frameBody (frameMessage frame crcOffset) = frame.take crcOffset := by
  have h12 : 12 ≤ crcOffset := hlow
  have hfirst : ((frameMessage frame crcOffset).version <<< 4) |||
      ((frameMessage frame crcOffset).flags &&& 0x0f) = frame.getD 0 0 := nibbles_join _
  have hhead : [frame.getD 0 0, frame.getD 1 0] = frame.take 2 := by
    match frame, (show 2 ≤ frame.length by omega) with
    | b0 :: b1 :: rest, _ => rfl
  have hseq := linkWriteU16_read (frame.drop 2) (by simp; omega)
  have hsrc := linkWriteU32_read (frame.drop 4) (by simp; omega)
  have hdst := linkWriteU32_read (frame.drop 8) (by simp; omega)
  have hsplit : frame.take crcOffset = frame.take 2 ++ ((frame.drop 2).take 2 ++
      ((frame.drop 4).take 4 ++ ((frame.drop 8).take 4 ++
        (frame.drop 12).take (crcOffset - 12)))) := by
    conv_lhs => rw [show crcOffset = 2 + (2 + (4 + (4 + (crcOffset - 12)))) by omega]
    simp only [take_add, drop_drop]
  rw [frameBody, hfirst, hsplit, ← hseq, ← hsrc, ← hdst, ← hhead]
  simp [frameMessage, MessageType.toByte_ofByte, headerSize]

theorem decode_eq_ok (h : decode frame = .ok m) : headerSize + crcSize ≤ frame.length ∧ frame.length ≤ frameMax ∧
      linkReadU16 (frame.drop (frame.length - crcSize)) =
        linkCrc16 (frame.take (frame.length - crcSize)) ∧
      m = frameMessage frame (frame.length - crcSize) ∧
      m.version = protocolVersion ∧ linkTypeValid m.type = true ∧ ¬ typeRulesBroken m := by
  unfold decode at h
  simp only at h
  split_ifs at h with hsize hcrc hrules
  simp only [not_or, Decidable.not_not, Bool.not_eq_false, Nat.not_lt] at hsize hcrc hrules
  obtain rfl := Except.ok.inj h
  exact ⟨hsize.1, hsize.2, hcrc, rfl, hrules.1, hrules.2.1, hrules.2.2⟩

theorem rawFrame_of_decode (h : decode frame = .ok m) : rawFrame m = frame := by
  obtain ⟨hlow, hhigh, hcrc, hm, hv, -, -⟩ := decode_eq_ok h
  have hoff : headerSize ≤ frame.length - crcSize := by simp only [headerSize, crcSize] at *; omega
  have hbody : frameBody m = frame.take (frame.length - crcSize) := by
    rw [hm] at hv ⊢
    exact frameBody_frameMessage hoff (Nat.sub_le _ _) hv
  have hlen : (frame.drop (frame.length - crcSize)).length = 2 := by
    simp only [length_drop, headerSize, crcSize] at *
    omega
  calc rawFrame m
      = frame.take (frame.length - crcSize) ++
          linkWriteU16 (linkReadU16 (frame.drop (frame.length - crcSize))) := by
        rw [rawFrame, hbody, hcrc]
    _ = frame.take (frame.length - crcSize) ++ frame.drop (frame.length - crcSize) := by
        rw [linkWriteU16_read _ hlen.ge, take_of_length_le hlen.le]
    _ = frame := take_append_drop _ _

theorem payload_of_decode (h : decode frame = .ok m) : m.payload.length ≤ payloadMax := by
  obtain ⟨hlow, hhigh, -, -⟩ := decode_eq_ok h
  have hlen := rawFrame_length m
  rw [rawFrame_of_decode h] at hlen
  simp only [payloadMax, headerSize, crcSize, frameMax] at *
  omega

/-- What `encode` accepts is read back unchanged, and what `decode` accepts is
the encoding of the message it read. -/
theorem codec_round_trip : (∀ (m : Message) (frame : List UInt8), m.flags < 16 → encode m = .ok frame →
      decode frame = .ok m) ∧ (∀ (frame : List UInt8) (m : Message), decode frame = .ok m → encode m = .ok frame) := by
  constructor
  · intro m frame hf h
    obtain ⟨⟨hv, ht, hp, hr⟩, rfl⟩ := encode_eq_ok.mp h
    exact decode_rawFrame hv ht hp hr hf
  · intro frame m h
    obtain ⟨-, -, -, -, hv, ht, hr⟩ := decode_eq_ok h
    exact encode_eq_ok.mpr ⟨⟨hv, ht, payload_of_decode h, hr⟩, rawFrame_of_decode h⟩

/-- A two-byte text message that asks for an acknowledgement. -/
def sampleMessage : Message where
  version := protocolVersion
  flags := flagAckRequested
  type := .text
  sequence := 7
  source := 0x10
  destination := 0x20
  payload := [0x68, 0x69]

theorem codec_round_trip_sample : decode (rawFrame sampleMessage) = .ok sampleMessage ∧
      encode sampleMessage = .ok (rawFrame sampleMessage) := by
  have h : encode sampleMessage = .ok (rawFrame sampleMessage) := encode_eq_ok.mpr ⟨by decide, rfl⟩
  have hd := codec_round_trip.1 sampleMessage _ (by decide) h
  exact ⟨hd, codec_round_trip.2 _ _ hd⟩

end SolarOs.Link
