import Mathlib.Logic.Function.Iterate
import SolarOs.Library.ByteOrder
import SolarOs.Esp
import SolarOs.Library.Transducer

/-! What a ZMODEM sender writes: headers and data subpackets as bytes on the line. -/
namespace SolarOs.Zmodem

open ByteOrder

def zpad : UInt8 := 0x2a
def zdle : UInt8 := 0x18
def zbin : UInt8 := 0x41
def zhex : UInt8 := 0x42
def zbin32 : UInt8 := 0x43

def zcrce : UInt8 := 0x68
def zcrcg : UInt8 := 0x69
def zcrcq : UInt8 := 0x6a
def zcrcw : UInt8 := 0x6b
def zrub0 : UInt8 := 0x6c
def zrub1 : UInt8 := 0x6d

def zrqinit : UInt8 := 0
def zrinit : UInt8 := 1
def zsinit : UInt8 := 2
def zack : UInt8 := 3
def zfile : UInt8 := 4
def zabort : UInt8 := 7
def zfin : UInt8 := 8
def zrpos : UInt8 := 9
def zdata : UInt8 := 10
def zeof : UInt8 := 11
def zferr : UInt8 := 12

inductive CrcMode where
  | crc16
  | crc32
  deriving DecidableEq, Repr

structure Header where
  type : UInt8
  pos : UInt32
  crcMode : CrcMode
  deriving DecidableEq, Repr

def zmCrc16Bit (crc : UInt16) : UInt16 :=
  if crc &&& 0x8000 ≠ 0 then (crc <<< 1) ^^^ 0x1021 else crc <<< 1

def zmCrc16Update (crc : UInt16) (byte : UInt8) : UInt16 :=
  zmCrc16Bit^[8] (crc ^^^ (byte.toUInt16 <<< 8))

variable (data : List UInt8)

def zmCrc16 : UInt16 := data.foldl zmCrc16Update 0

def zmCrc32Bit (crc : UInt32) : UInt32 :=
  if crc &&& 1 ≠ 0 then (crc >>> 1) ^^^ 0xedb88320 else crc >>> 1

def zmCrc32UpdateRaw (crc : UInt32) (byte : UInt8) : UInt32 :=
  zmCrc32Bit^[8] (crc ^^^ byte.toUInt32)

def zmCrc32 : UInt32 := ~~~data.foldl zmCrc32UpdateRaw 0xffffffff

variable (byte : UInt8)

def zmMustEscape : Bool :=
  byte = zdle || byte = 0x10 || byte = 0x11 || byte = 0x13 || byte = 0x90 || byte = 0x91 ||
    byte = 0x93 || byte < 0x20 || byte = 0x7f || byte = 0xff

/-- `zm_write_escaped_byte`. -/
def zmEscapedByte : List UInt8 :=
  if !zmMustEscape byte then [byte]
  else if byte = 0x7f then [zdle, zrub0]
  else if byte = 0xff then [zdle, zrub1]
  else [zdle, byte ^^^ 0x40]

def zmEscaped (bytes : List UInt8) : List UInt8 := bytes.flatMap zmEscapedByte

/-- `zm_write_escaped_le32`. -/
def zmEscapedLe32 (value : UInt32) : List UInt8 := zmEscaped (littleEndian32 value)

def rawHeader (type : UInt8) (pos : UInt32) : List UInt8 := type :: littleEndian32 pos

def hexDigits : List UInt8 :=
  [0x30, 0x31, 0x32, 0x33, 0x34, 0x35, 0x36, 0x37, 0x38, 0x39, 0x61, 0x62, 0x63, 0x64, 0x65, 0x66]

def hexDigit (value : UInt8) : UInt8 := hexDigits.getD value.toNat 0

def hexByte : List UInt8 := [hexDigit (byte >>> 4), hexDigit (byte &&& 0x0f)]

/-- `zm_send_hex_header_bytes`. -/
def zmHexHeaderBytes (raw : List UInt8) : List UInt8 :=
  let crc := zmCrc16 raw
  [zpad, zpad, zdle, zhex] ++ raw.flatMap hexByte ++
    [hexDigit ((crc >>> 12) &&& 0x0f).toUInt8, hexDigit ((crc >>> 8) &&& 0x0f).toUInt8,
      hexDigit ((crc >>> 4) &&& 0x0f).toUInt8, hexDigit (crc &&& 0x0f).toUInt8] ++
    [0x0d, 0x8a, 0x11]

/-- `zm_send_hex_header`. -/
def zmHexHeader (type : UInt8) (pos : UInt32) : List UInt8 := zmHexHeaderBytes (rawHeader type pos)

/-- `zm_send_zrinit`: it can full duplex, overlapped I/O and 32-bit CRCs. -/
def zmZrinit : List UInt8 := zmHexHeaderBytes [zrinit, 0, 0, 0, 0x01 ||| 0x02 ||| 0x20]

/-- `zm_send_bin32_header`. -/
def zmBin32Header (type : UInt8) (pos : UInt32) : List UInt8 :=
  [zpad, zdle, zbin32] ++ zmEscaped (rawHeader type pos) ++ zmEscapedLe32 (zmCrc32 (rawHeader type pos))

/-- `zm_send_data32`. -/
def zmData32 (terminator : UInt8) : List UInt8 :=
  let crc := zmCrc32UpdateRaw (data.foldl zmCrc32UpdateRaw 0xffffffff) terminator
  zmEscaped data ++ [zdle, terminator] ++ zmEscapedLe32 (~~~crc) ++
    if terminator = zcrcw then [0x11] else []

def isTerminator : Bool :=
  byte = zcrce || byte = zcrcg || byte = zcrcq || byte = zcrcw

theorem ne_zdle_of_plain {byte : UInt8} (plain : zmMustEscape byte = false) : byte ≠ zdle := by
  rintro rfl
  exact absurd plain (by decide)

theorem escaped_clear {byte : UInt8} (escape : zmMustEscape byte = true) (rub0 : byte ≠ 0x7f) (rub1 : byte ≠ 0xff) :
    byte ^^^ 0x40 ≠ zrub0 ∧ byte ^^^ 0x40 ≠ zrub1 ∧ isTerminator (byte ^^^ 0x40) = false ∧
      (byte ^^^ 0x40) ^^^ 0x40 = byte := by
  have every : ∀ n < 256, zmMustEscape (UInt8.ofNat n) = true →
      UInt8.ofNat n = 0x7f ∨ UInt8.ofNat n = 0xff ∨ UInt8.ofNat n ^^^ 0x40 ≠ zrub0 ∧
        UInt8.ofNat n ^^^ 0x40 ≠ zrub1 ∧ isTerminator (UInt8.ofNat n ^^^ 0x40) = false ∧
        UInt8.ofNat n ^^^ 0x40 ^^^ 0x40 = UInt8.ofNat n := by decide +kernel
  have this := every byte.toNat byte.toNat_lt
  rw [UInt8.ofNat_toNat] at this
  exact ((this escape).resolve_left rub0).resolve_left rub1

theorem hexDigits_crc (crc : UInt16) :
    [hexDigit ((crc >>> 12) &&& 0x0f).toUInt8, hexDigit ((crc >>> 8) &&& 0x0f).toUInt8,
      hexDigit ((crc >>> 4) &&& 0x0f).toUInt8, hexDigit (crc &&& 0x0f).toUInt8] =
      (bigEndian16 crc).flatMap hexByte := by
  have h := crc.toNat_lt
  have low : ∀ n : Nat, n &&& 15 = n % 16 := fun n => Nat.and_two_pow_sub_one_eq_mod n 4
  have nibbles : ((crc >>> 12) &&& 0x0f).toUInt8 = (crc >>> 8).toUInt8 >>> 4 ∧
      ((crc >>> 8) &&& 0x0f).toUInt8 = (crc >>> 8).toUInt8 &&& 0x0f ∧
      ((crc >>> 4) &&& 0x0f).toUInt8 = crc.toUInt8 >>> 4 ∧
      (crc &&& 0x0f).toUInt8 = crc.toUInt8 &&& 0x0f := by
    refine ⟨?_, ?_, ?_, ?_⟩ <;> apply UInt8.toNat_inj.mp <;>
      simp [UInt16.toNat_shiftRight, UInt8.toNat_shiftRight, low, Nat.shiftRight_eq_div_pow] <;> omega
  simp only [bigEndian16, List.flatMap_cons, List.flatMap_nil, hexByte, nibbles, List.append_nil,
    List.cons_append, List.nil_append]

end SolarOs.Zmodem

/-! What a ZMODEM receiver makes of the line: bytes out of port reads, headers in their
three formats, and data subpackets. -/
namespace SolarOs.Zmodem

open ByteOrder Reading

/-- An `esp_err_t` other than `ESP_OK`. -/
structure Fault where
  err : EspErr
  failed : err ≠ .ok
  deriving DecidableEq

namespace Fault

def timeout : Fault := ⟨.timeout, by decide⟩
def invalidState : Fault := ⟨.invalidState, by decide⟩
def invalidResponse : Fault := ⟨.invalidResponse, by decide⟩
def invalidCrc : Fault := ⟨.invalidCrc, by decide⟩
def invalidSize : Fault := ⟨.invalidSize, by decide⟩

end Fault

inductive Poll where
  | bytes (first : UInt8) (more : List UInt8)
  | nothing
  | expired
  | cancelled
  | failed (fault : Fault)

/-- What the receive buffer still holds, and the polls to come. -/
structure Session where
  rxBuffer : List UInt8
  polls : List Poll

/-- The polling loop of `zm_read_byte`, for when the receive buffer is empty. -/
def pollByte : List Poll → Except Fault UInt8 × Session
  | [] => (.error .timeout, ⟨[], []⟩)
  | .bytes first more :: polls => (.ok first, ⟨more, polls⟩)
  | .nothing :: polls => pollByte polls
  | .expired :: polls => (.error .timeout, ⟨[], polls⟩)
  | .cancelled :: polls => (.error .invalidState, ⟨[], polls⟩)
  | .failed fault :: polls =>
    if fault.err = .timeout then pollByte polls else (.error fault, ⟨[], polls⟩)

/-- `zm_read_byte` on the port. -/
def Session.readByte (session : Session) : Except Fault UInt8 × Session :=
  match session.rxBuffer with
  | byte :: more => (.ok byte, ⟨more, session.polls⟩)
  | [] => pollByte session.polls

/-- What successive calls of `zm_read_byte` return. -/
abbrev Feed := Reading.Feed Fault UInt8

def Poll.feed : Poll → Feed
  | .bytes first more => (first :: more).map .ok
  | .nothing => []
  | .expired => [.error .timeout]
  | .cancelled => [.error .invalidState]
  | .failed fault => if fault.err = .timeout then [] else [.error fault]

def Session.feed (session : Session) : Feed :=
  session.rxBuffer.map .ok ++ session.polls.flatMap Poll.feed

abbrev Reader := Reading.Reader Fault UInt8

/-- `zm_read_byte`: when nothing comes any more, the deadline passes. -/
def zmReadByte : Reader UInt8 := fun feed =>
  match feed with
  | [] => (.error .timeout, [])
  | outcome :: feed => (outcome, feed)

/-- `zm_read_zdl`: a byte, and whether it ends a subpacket. -/
def zmReadZdl : Reader (UInt8 × Bool) := do
  let ch ← zmReadByte
  if ch ≠ zdle then return (ch, false)
  else
    let ch ← zmReadByte
    if isTerminator ch then return (ch, true)
    else if ch = zrub0 then return (0x7f, false)
    else if ch = zrub1 then return (0xff, false)
    else return (ch ^^^ 0x40, false)

def zmReadPlain : Reader UInt8 := do
  let (byte, terminator) ← zmReadZdl
  if terminator then throw .invalidResponse else return byte

def zmHexDigit (byte : UInt8) : Option UInt8 :=
  if 0x30 ≤ byte ∧ byte ≤ 0x39 then some (byte - 0x30)
  else if 0x61 ≤ byte ∧ byte ≤ 0x66 then some (byte - 0x61 + 10)
  else if 0x41 ≤ byte ∧ byte ≤ 0x46 then some (byte - 0x41 + 10)
  else none

def zmReadHexByte : Reader UInt8 := do
  let hi ← zmReadByte
  let lo ← zmReadByte
  match zmHexDigit hi, zmHexDigit lo with
  | some hiValue, some loValue => return (hiValue <<< 4) ||| loValue
  | _, _ => throw .invalidResponse

/-- The five bytes of a header and its 16-bit checksum. -/
def readHeader16 (byte : Reader UInt8) : Reader Header := do
  let type ← byte
  let p0 ← byte
  let p1 ← byte
  let p2 ← byte
  let p3 ← byte
  let c0 ← byte
  let c1 ← byte
  if zmCrc16 [type, p0, p1, p2, p3] ≠ fromBigEndian16 c0 c1 then throw .invalidCrc
  else return ⟨type, fromLittleEndian32 p0 p1 p2 p3, .crc16⟩

def zmReadHeaderHex : Reader Header := readHeader16 zmReadHexByte

def zmReadHeaderBin16 : Reader Header := readHeader16 zmReadPlain

def zmReadHeaderBin32 : Reader Header := do
  let type ← zmReadPlain
  let p0 ← zmReadPlain
  let p1 ← zmReadPlain
  let p2 ← zmReadPlain
  let p3 ← zmReadPlain
  let c0 ← zmReadPlain
  let c1 ← zmReadPlain
  let c2 ← zmReadPlain
  let c3 ← zmReadPlain
  if zmCrc32 [type, p0, p1, p2, p3] ≠ fromLittleEndian32 c0 c1 c2 c3 then throw .invalidCrc
  else return ⟨type, fromLittleEndian32 p0 p1 p2 p3, .crc32⟩

inductive Sought where
  | pad
  | zdle
  | kind

/-- `zm_read_header`. The deadline of the whole header is checked before each byte outside
of a frame: a deadline that has passed is an error of that byte. -/
def zmReadHeaderFrom : Sought → Reader Header
  | _, [] => (.error .timeout, [])
  | _, .error fault :: feed => (.error fault, feed)
  | .pad, .ok ch :: feed => zmReadHeaderFrom (if ch ≠ zpad then .pad else .zdle) feed
  | .zdle, .ok ch :: feed =>
    zmReadHeaderFrom (if ch = zpad then .zdle else if ch ≠ zdle then .pad else .kind) feed
  | .kind, .ok ch :: feed =>
    if ch = zhex then zmReadHeaderHex feed
    else if ch = zbin then zmReadHeaderBin16 feed
    else if ch = zbin32 then zmReadHeaderBin32 feed
    else zmReadHeaderFrom .pad feed

def zmReadHeader : Reader Header := zmReadHeaderFrom .pad

structure Crcs where
  crc16 : UInt16
  crc32 : UInt32

def Crcs.start : Crcs := ⟨0, 0xffffffff⟩

def Crcs.update (mode : CrcMode) (crcs : Crcs) (byte : UInt8) : Crcs :=
  match mode with
  | .crc32 => { crcs with crc32 := zmCrc32UpdateRaw crcs.crc32 byte }
  | .crc16 => { crcs with crc16 := zmCrc16Update crcs.crc16 byte }

/-- The checksum behind a terminator, compared with the one of the subpacket. -/
def readPacketCrc (mode : CrcMode) (crcs : Crcs) (data : List UInt8) (terminator : UInt8) :
    Reader (List UInt8 × UInt8) := do
  let crcs := crcs.update mode terminator
  match mode with
  | .crc32 =>
    let c0 ← zmReadPlain
    let c1 ← zmReadPlain
    let c2 ← zmReadPlain
    let c3 ← zmReadPlain
    if fromLittleEndian32 c0 c1 c2 c3 ≠ ~~~crcs.crc32 then throw .invalidCrc
    else return (data, terminator)
  | .crc16 =>
    let c0 ← zmReadPlain
    let c1 ← zmReadPlain
    if fromBigEndian16 c0 c1 ≠ crcs.crc16 then throw .invalidCrc
    else return (data, terminator)

theorem zmReadByte_shorter {feed rest : Feed} {byte : UInt8}
    (h : zmReadByte feed = (.ok byte, rest)) : rest.length < feed.length := by
  cases feed with
  | nil => cases h
  | cons outcome feed =>
    cases h
    exact Nat.lt_succ_self _

theorem zmReadZdl_shorter {feed rest : Feed} {read : UInt8 × Bool}
    (h : zmReadZdl feed = (.ok read, rest)) : rest.length < feed.length := by
  obtain ⟨ch, rest', first, later⟩ := of_bind_ok h
  have shorter := zmReadByte_shorter first
  split at later
  · cases later
    exact shorter
  · obtain ⟨code, rest'', second, last⟩ := of_bind_ok later
    have shorter' := zmReadByte_shorter second
    have same : rest = rest'' := by
      split at last
      · cases last
        rfl
      split at last
      · cases last
        rfl
      split at last
      · cases last
        rfl
      · cases last
        rfl
    rw [same]
    omega

/-- The loop of `zm_read_data_packet`, with the data that has come. -/
def readPacketFrom (mode : CrcMode) (bufferLen : Nat) (crcs : Crcs) (data : List UInt8) :
    Reader (List UInt8 × UInt8) := fun feed =>
  match _h : zmReadZdl feed with
  | (.error fault, rest) => (.error fault, rest)
  | (.ok (ch, true), rest) => readPacketCrc mode crcs data ch rest
  | (.ok (ch, false), rest) =>
    if data.length ≥ bufferLen then (.error .invalidSize, rest)
    else readPacketFrom mode bufferLen (crcs.update mode ch) (data ++ [ch]) rest
termination_by feed => feed.length
decreasing_by exact zmReadZdl_shorter ‹_›

/-- `zm_read_data_packet`: the data of a subpacket, and what ended it. -/
def zmReadDataPacket (mode : CrcMode) (bufferLen : Nat) : Reader (List UInt8 × UInt8) :=
  readPacketFrom mode bufferLen .start []

end SolarOs.Zmodem
