import Mathlib.Data.List.Basic
import SolarOs.Zmodem.Reader

/-! A ZMODEM reader reads back the headers and subpackets that a sender wrote. -/
namespace SolarOs.Zmodem
open List

open ByteOrder Reading

def Poll.Open : Poll → Prop
  | .bytes _ _ | .nothing => True
  | .failed fault => fault.err = .timeout
  | .expired | .cancelled => False

def Poll.received : Poll → List UInt8
  | .bytes first more => first :: more
  | _ => []

def Session.Open (session : Session) : Prop := ∀ poll ∈ session.polls, poll.Open

def Session.received (session : Session) : List UInt8 :=
  session.rxBuffer ++ session.polls.flatMap Poll.received

theorem feed_of_open {session : Session} (h : session.Open) : session.feed = session.received.map .ok := by
  rw [Session.feed, Session.received, map_append, map_flatMap]
  congr 1
  refine flatMap_congr fun poll there => ?_
  cases poll with
  | bytes first more => rfl
  | nothing => rfl
  | expired => exact absurd (h _ there) id
  | cancelled => exact absurd (h _ there) id
  | failed fault => exact if_pos (h _ there)

theorem pollByte_feed (polls : List Poll) :
    zmReadByte (polls.flatMap Poll.feed) = ((pollByte polls).1, (pollByte polls).2.feed) := by
  induction polls with
  | nil => rfl
  | cons poll polls ih =>
    rw [flatMap_cons]
    cases poll with
    | nothing => exact ih
    | failed fault =>
      rw [Poll.feed, pollByte]
      split
      · exact ih
      · rfl
    | _ => rfl

theorem readByte_feed (session : Session) :
    zmReadByte session.feed = (session.readByte.1, session.readByte.2.feed) := by
  obtain ⟨rxBuffer, polls⟩ := session
  cases rxBuffer with
  | nil => exact pollByte_feed polls
  | cons byte more => rfl

/-- Wherever the polls cut the stream, successive reads return the outcomes of its feed in turn, and
time out when it is over. -/
theorem reads_in_turn (session : Session) (n : Nat) :
    ((fun session : Session => session.readByte.2)^[n] session).readByte.1 = session.feed.getD n (.error .timeout) := by
  induction n generalizing session with
  | zero =>
    have read := congrArg Prod.fst (readByte_feed session)
    cases feed : session.feed <;> exact (feed ▸ read).symm
  | succ n ih =>
    have rest : _ = session.readByte.2.feed := congrArg Prod.snd (readByte_feed session)
    rw [Function.iterate_succ_apply, ih, ← rest]
    cases session.feed <;> rfl

theorem reads_zdl (byte : UInt8) : Reads zmReadZdl (zmEscapedByte byte) (byte, false) := by
  intro rest
  cases escape : zmMustEscape byte with
  | false =>
    rw [zmEscapedByte, escape]
    exact (bind_ok rfl).trans (by rw [if_pos (ne_zdle_of_plain escape)]; rfl)
  | true =>
    rw [zmEscapedByte, escape]
    by_cases rub0 : byte = 0x7f
    · rw [rub0]
      rfl
    · by_cases rub1 : byte = 0xff
      · rw [rub1]
        rfl
      · obtain ⟨clear0, clear1, clear, back⟩ := escaped_clear escape rub0 rub1
        simp only [rub0, rub1, Bool.not_true, Bool.false_eq_true, if_false]
        refine (bind_ok (a := zdle) rfl).trans ((bind_ok (a := byte ^^^ 0x40) rfl).trans ?_)
        rw [clear, if_neg Bool.false_ne_true, if_neg clear0, if_neg clear1, back]
        rfl

theorem reads_plain (byte : UInt8) : Reads zmReadPlain (zmEscapedByte byte) byte :=
  (reads_zdl byte).last (Reads.pure byte)

theorem reads_terminator {code : UInt8} (h : isTerminator code = true) : Reads zmReadZdl [zdle, code] (code, true) := by
  intro rest
  refine (bind_ok (a := zdle) rfl).trans ((bind_ok (a := code) rfl).trans ?_)
  rw [if_pos h]
  rfl

theorem reads_hexByte (byte : UInt8) : Reads zmReadHexByte (hexByte byte) byte := by
  have every : ∀ n < 256, zmHexDigit (hexDigit (UInt8.ofNat n >>> 4)) = some (UInt8.ofNat n >>> 4) ∧
      zmHexDigit (hexDigit (UInt8.ofNat n &&& 0x0f)) = some (UInt8.ofNat n &&& 0x0f) ∧
      (UInt8.ofNat n >>> 4) <<< 4 ||| (UInt8.ofNat n &&& 0x0f) = UInt8.ofNat n := by decide +kernel
  obtain ⟨high, low, whole⟩ := every byte.toNat byte.toNat_lt
  rw [UInt8.ofNat_toNat] at high low whole
  intro rest
  refine (bind_ok (a := hexDigit (byte >>> 4)) rfl).trans ((bind_ok (a := hexDigit (byte &&& 0x0f)) rfl).trans ?_)
  simp only [high, low, whole]
  rfl

theorem zmEscaped_cons (byte : UInt8) (bytes : List UInt8) :
    zmEscaped (byte :: bytes) = zmEscapedByte byte ++ zmEscaped bytes := flatMap_cons

theorem reads_header16 {byte : Reader UInt8} {code : UInt8 → List UInt8}
    (coded : ∀ b, Reads byte (code b) b) (type : UInt8) (pos : UInt32) : Reads (readHeader16 byte)
      ((rawHeader type pos ++ bigEndian16 (zmCrc16 (rawHeader type pos))).flatMap code)
      ⟨type, pos, .crc16⟩ := by
  refine (coded _).bind ((coded _).bind ((coded _).bind ((coded _).bind ((coded _).bind
    ((coded _).bind ((coded _).bind ?_))))))
  rw [fromBigEndian16_write, fromLittleEndian32_write]
  show Reads (if zmCrc16 (rawHeader type pos) ≠ zmCrc16 (rawHeader type pos) then _ else _) [] _
  rw [if_neg (not_not_intro rfl)]
  exact Reads.pure _

theorem reads_headerBin32 (type : UInt8) (pos : UInt32) : Reads zmReadHeaderBin32
      (zmEscaped (rawHeader type pos ++ littleEndian32 (zmCrc32 (rawHeader type pos))))
      ⟨type, pos, .crc32⟩ := by
  refine (reads_plain _).bind ((reads_plain _).bind ((reads_plain _).bind ((reads_plain _).bind
    ((reads_plain _).bind ((reads_plain _).bind ((reads_plain _).bind ((reads_plain _).bind
      ((reads_plain _).bind ?_))))))))
  rw [fromLittleEndian32_write, fromLittleEndian32_write]
  show Reads (if zmCrc32 (rawHeader type pos) ≠ zmCrc32 (rawHeader type pos) then _ else _) [] _
  rw [if_neg (not_not_intro rfl)]
  exact Reads.pure _

variable {junk : List UInt8}

theorem readHeader_skip (clean : zpad ∉ junk) (feed : Feed) :
    zmReadHeader (junk.map .ok ++ feed) = zmReadHeader feed := by
  induction junk with
  | nil => rfl
  | cons byte junk ih =>
    have away : byte ≠ zpad := fun same => clean (same ▸ mem_cons_self)
    show zmReadHeaderFrom (if byte ≠ zpad then .pad else .zdle) _ = _
    rw [if_pos away]
    exact ih fun there => clean (mem_cons_of_mem _ there)

theorem reads_hexHeader (type : UInt8) (pos : UInt32) (clean : zpad ∉ junk) :
    ∃ bytes, zmHexHeader type pos = bytes ++ [0x0d, 0x8a, 0x11] ∧
      Reads zmReadHeader (junk ++ bytes) ⟨type, pos, .crc16⟩ := by
  refine ⟨[zpad, zpad, zdle, zhex] ++
    (rawHeader type pos ++ bigEndian16 (zmCrc16 (rawHeader type pos))).flatMap hexByte, ?_, ?_⟩
  · rw [zmHexHeader, zmHexHeaderBytes, hexDigits_crc, flatMap_append, append_assoc, append_assoc]
    rfl
  · intro rest
    rw [map_append, append_assoc, readHeader_skip clean]
    exact reads_header16 reads_hexByte type pos rest

theorem reads_bin32Header (type : UInt8) (pos : UInt32) (clean : zpad ∉ junk) :
    Reads zmReadHeader (junk ++ zmBin32Header type pos) ⟨type, pos, .crc32⟩ := by
  have coded : zmBin32Header type pos = [zpad, zdle, zbin32] ++
      zmEscaped (rawHeader type pos ++ littleEndian32 (zmCrc32 (rawHeader type pos))) := by
    rw [zmEscaped, flatMap_append]
    rfl
  intro rest
  rw [map_append, append_assoc, readHeader_skip clean, coded]
  exact reads_headerBin32 type pos rest

/-- What the sender writes of a subpacket, less the byte that trails it after `ZCRCW`. -/
def data32Core (data : List UInt8) (terminator : UInt8) : List UInt8 :=
  zmEscaped data ++ [zdle, terminator] ++
    zmEscapedLe32 (~~~zmCrc32UpdateRaw (data.foldl zmCrc32UpdateRaw 0xffffffff) terminator)

theorem reads_packetCrc (crcs : Crcs) (data : List UInt8) (terminator : UInt8) :
    Reads (readPacketCrc .crc32 crcs data terminator)
      (zmEscapedLe32 (~~~zmCrc32UpdateRaw crcs.crc32 terminator)) (data, terminator) := by
  refine (reads_plain _).bind ((reads_plain _).bind ((reads_plain _).bind ((reads_plain _).bind ?_)))
  rw [fromLittleEndian32_write]
  show Reads (if ~~~zmCrc32UpdateRaw crcs.crc32 terminator ≠ ~~~zmCrc32UpdateRaw crcs.crc32 terminator
    then _ else _) [] _
  rw [if_neg (not_not_intro rfl)]
  exact Reads.pure _

section Steps

variable {mode : CrcMode} {bufferLen : Nat} {crcs : Crcs} {before xs ys : List UInt8}
  {result : List UInt8 × UInt8}

theorem reads_packet_byte {byte : UInt8} (room : before.length < bufferLen) (read : Reads zmReadZdl xs (byte, false))
    (later : Reads (readPacketFrom mode bufferLen (crcs.update mode byte) (before ++ [byte])) ys result) :
    Reads (readPacketFrom mode bufferLen crcs before) (xs ++ ys) result := by
  intro rest
  rw [map_append, append_assoc, readPacketFrom]
  split
  · rename_i h
    rw [read] at h
    cases h
  · rename_i h
    rw [read] at h
    cases h
  · rename_i h
    rw [read] at h
    cases h
    rw [if_neg (Nat.not_le.mpr room)]
    exact later rest

theorem reads_packet_end {code : UInt8} (read : Reads zmReadZdl xs (code, true))
    (later : Reads (readPacketCrc mode crcs before code) ys result) :
    Reads (readPacketFrom mode bufferLen crcs before) (xs ++ ys) result := by
  intro rest
  rw [map_append, append_assoc, readPacketFrom]
  split
  · rename_i h
    rw [read] at h
    cases h
  · rename_i h
    rw [read] at h
    cases h
    exact later rest
  · rename_i h
    rw [read] at h
    cases h

end Steps

theorem reads_packetFrom {bufferLen : Nat} {terminator : UInt8} (ends : isTerminator terminator = true)
    {crcs : Crcs} {before data : List UInt8} (fits : (before ++ data).length ≤ bufferLen) :
    Reads (readPacketFrom .crc32 bufferLen crcs before)
      (zmEscaped data ++ [zdle, terminator] ++
        zmEscapedLe32 (~~~zmCrc32UpdateRaw (data.foldl zmCrc32UpdateRaw crcs.crc32) terminator))
      (before ++ data, terminator) := by
  induction data generalizing crcs before with
  | nil =>
    rw [append_nil]
    exact reads_packet_end (reads_terminator ends) (reads_packetCrc crcs before terminator)
  | cons byte data ih =>
    have room : before.length < bufferLen := by
      rw [length_append, length_cons] at fits
      omega
    have shifted : before ++ byte :: data = before ++ [byte] ++ data := by
      rw [append_assoc, singleton_append]
    rw [shifted] at fits ⊢
    rw [zmEscaped_cons, append_assoc, append_assoc, ← append_assoc (zmEscaped data)]
    exact reads_packet_byte room (reads_zdl byte) (ih fits)

theorem reads_data32 {bufferLen : Nat} {data : List UInt8} {terminator : UInt8}
    (ends : isTerminator terminator = true) (fits : data.length ≤ bufferLen) :
    Reads (zmReadDataPacket .crc32 bufferLen) (data32Core data terminator) (data, terminator) :=
  @reads_packetFrom bufferLen terminator ends .start [] data fits

inductive Terminator where
  | crce
  | crcg
  | crcq
  | crcw
  deriving DecidableEq

def Terminator.code : Terminator → UInt8
  | .crce => zcrce
  | .crcg => zcrcg
  | .crcq => zcrcq
  | .crcw => zcrcw

theorem Terminator.ends (terminator : Terminator) : isTerminator terminator.code = true := by
  cases terminator <;> rfl

/-- A subpacket: its data, and what ends it. -/
abbrev Packet := List UInt8 × Terminator

def Packet.wire (packet : Packet) : List UInt8 := zmData32 packet.1 packet.2.code

/-- What a sender writes in one go: a hex header, or a binary one with its subpackets. -/
inductive Frame where
  | hex (type : UInt8) (pos : UInt32)
  | bin32 (type : UInt8) (pos : UInt32) (packets : List Packet)

namespace Frame

def header : Frame → Header
  | hex type pos => ⟨type, pos, .crc16⟩
  | bin32 type pos _ => ⟨type, pos, .crc32⟩

def packets : Frame → List Packet
  | hex _ _ => []
  | bin32 _ _ packets => packets

def wire : Frame → List UInt8
  | hex type pos => zmHexHeader type pos
  | bin32 type pos packets => zmBin32Header type pos ++ packets.flatMap Packet.wire

def content (frame : Frame) : Header × List (List UInt8 × UInt8) :=
  (frame.header, frame.packets.map fun packet => (packet.1, packet.2.code))

end Frame

def scriptWire (script : List (List UInt8 × Frame)) : List UInt8 :=
  script.flatMap fun part => part.1 ++ part.2.wire

def readPackets (mode : CrcMode) (bufferLen : Nat) : Nat → Reader (List (List UInt8 × UInt8))
  | 0 => return []
  | count + 1 => do
    let packet ← zmReadDataPacket mode bufferLen
    let packets ← readPackets mode bufferLen count
    return packet :: packets

def readFrame (bufferLen count : Nat) : Reader (Header × List (List UInt8 × UInt8)) := do
  let header ← zmReadHeader
  let packets ← readPackets header.crcMode bufferLen count
  return (header, packets)

def readFrames (bufferLen : Nat) : List Nat → Reader (List (Header × List (List UInt8 × UInt8)))
  | [] => return []
  | count :: counts => do
    let frame ← readFrame bufferLen count
    let frames ← readFrames bufferLen counts
    return frame :: frames

theorem packets_trail {packets : List Packet} (last : ∀ packet ∈ packets.dropLast, packet.2 ≠ .crcw) :
    ∃ trail, zpad ∉ trail ∧ packets.flatMap Packet.wire =
      (packets.flatMap fun packet => data32Core packet.1 packet.2.code) ++ trail := by
  induction packets with
  | nil => exact ⟨[], not_mem_nil, rfl⟩
  | cons packet packets ih =>
    cases packets with
    | nil =>
      refine ⟨if packet.2.code = zcrcw then [0x11] else [], ?_, ?_⟩
      · split <;> decide
      · rw [flatMap_singleton, flatMap_singleton]
        rfl
    | cons next packets =>
      obtain ⟨trail, clean, split⟩ := ih fun p there => last p (mem_cons_of_mem _ there)
      have none : packet.2.code ≠ zcrcw := by
        have := last packet mem_cons_self
        cases terminator : packet.2 with
        | crcw => exact absurd terminator this
        | crce => decide
        | crcg => decide
        | crcq => decide
      have whole : packet.wire = data32Core packet.1 packet.2.code := by
        rw [Packet.wire, zmData32, if_neg none, append_nil]
        rfl
      refine ⟨trail, clean, ?_⟩
      rw [flatMap_cons, split, whole, ← append_assoc]
      rfl

theorem reads_packets {bufferLen : Nat} {packets : List Packet}
    (fits : ∀ packet ∈ packets, packet.1.length ≤ bufferLen) : Reads (readPackets .crc32 bufferLen packets.length)
      (packets.flatMap fun packet => data32Core packet.1 packet.2.code)
      (packets.map fun packet => (packet.1, packet.2.code)) := by
  induction packets with
  | nil => exact Reads.pure _
  | cons packet packets ih =>
    exact (reads_data32 packet.2.ends (fits packet mem_cons_self)).bind
      ((ih fun p there => fits p (mem_cons_of_mem _ there)).last (Reads.pure _))

theorem reads_frame {bufferLen : Nat} {frame : Frame} (clean : zpad ∉ junk)
    (fits : ∀ packet ∈ frame.packets, packet.1.length ≤ bufferLen)
    (last : ∀ packet ∈ frame.packets.dropLast, packet.2 ≠ .crcw) :
    ∃ bytes trail, frame.wire = bytes ++ trail ∧ zpad ∉ trail ∧
      Reads (readFrame bufferLen frame.packets.length) (junk ++ bytes) frame.content := by
  cases frame with
  | hex type pos =>
    obtain ⟨bytes, split, reads⟩ := reads_hexHeader type pos clean
    exact ⟨bytes, _, split, by decide, reads.last ((Reads.pure _).last (Reads.pure _))⟩
  | bin32 type pos packets =>
    obtain ⟨trail, clear, split⟩ := packets_trail last
    refine ⟨_, trail, (congrArg (zmBin32Header type pos ++ ·) split).trans (append_assoc ..).symm, clear, ?_⟩
    rw [← append_assoc]
    exact (reads_bin32Header type pos clean).bind ((reads_packets fits).last (Reads.pure _))

theorem readFrames_script {bufferLen : Nat} {script : List (List UInt8 × Frame)} {trail : List UInt8}
    (behind : zpad ∉ trail) (clean : ∀ part ∈ script, zpad ∉ part.1)
    (fits : ∀ part ∈ script, ∀ packet ∈ part.2.packets, packet.1.length ≤ bufferLen)
    (last : ∀ part ∈ script, ∀ packet ∈ part.2.packets.dropLast, packet.2 ≠ .crcw) (rest : Feed) :
    (readFrames bufferLen (script.map fun part => part.2.packets.length)
      ((trail ++ scriptWire script).map .ok ++ rest)).1 = .ok (script.map fun part => part.2.content) := by
  induction script generalizing trail with
  | nil => rfl
  | cons part script ih =>
    have apart : zpad ∉ trail ++ part.1 := fun there =>
      (mem_append.mp there).elim behind (clean part mem_cons_self)
    obtain ⟨bytes, trail', split, behind', reads⟩ :=
      reads_frame apart (fits part mem_cons_self) (last part mem_cons_self)
    have later := ih behind' (fun p there => clean p (mem_cons_of_mem _ there))
      (fun p there => fits p (mem_cons_of_mem _ there))
      (fun p there => last p (mem_cons_of_mem _ there))
    have parted : trail ++ scriptWire (part :: script) =
        (trail ++ part.1 ++ bytes) ++ (trail' ++ scriptWire script) := by
      rw [scriptWire, flatMap_cons, split]
      simp only [append_assoc, scriptWire]
    rw [parted, map_append, append_assoc]
    refine (congrArg Prod.fst (bind_ok (reads _))).trans ?_
    rcases read : readFrames bufferLen (script.map fun part => part.2.packets.length)
      ((trail' ++ scriptWire script).map .ok ++ rest) with ⟨outcome, rest'⟩
    rw [read] at later
    cases later
    exact congrArg Prod.fst (bind_ok read)

/-- Reading back what was sent: the headers, the data and the terminators, however the stream is
split into port reads and whatever other bytes come before a header. -/
theorem frames_round_trip (bufferLen : Nat) (script : List (List UInt8 × Frame)) (rest : List UInt8)
    (session : Session) (clean : ∀ part ∈ script, ∀ byte ∈ part.1, byte ≠ zpad)
    (fits : ∀ part ∈ script, ∀ packet ∈ part.2.packets, packet.1.length ≤ bufferLen)
    (last : ∀ part ∈ script, ∀ packet ∈ part.2.packets.dropLast, packet.2 ≠ .crcw)
    (reading : session.Open) (received : session.received = scriptWire script ++ rest) :
    (readFrames bufferLen (script.map fun part => part.2.packets.length) session.feed).1 =
      .ok (script.map fun part => part.2.content) := by
  rw [feed_of_open reading, received, map_append]
  exact @readFrames_script bufferLen script [] not_mem_nil
    (fun part there pad => clean part there _ pad rfl) fits last _

def fileScript : List (List UInt8 × Frame) :=
  [([0x20], .hex zrqinit 0), ([0x0d], .bin32 zfile 7 [([0x18, 0x2a], .crcg), ([0x7f], .crcw)])]

def fileSession : Session :=
  ⟨(scriptWire fileScript).take 1, [.nothing, .bytes zpad (((scriptWire fileScript).drop 2).take 30),
    .nothing, .bytes ((scriptWire fileScript).getD 32 0) ((scriptWire fileScript).drop 33)]⟩

theorem file_round_trip :
    (readFrames 1024 [0, 2] fileSession.feed).1 = .ok (fileScript.map fun part => part.2.content) :=
  frames_round_trip 1024 fileScript [] fileSession (by decide) (by decide) (by decide)
    (by simp [fileSession, Session.Open, Poll.Open]) (by decide +kernel)

/-- Another subpacket after `ZCRCW`. -/
def crcwScript : List (List UInt8 × Frame) := [([], .bin32 zdata 0 [([1], .crcw), ([2], .crce)])]

/-- It is read together with the flow control byte before it. -/
theorem subpacket_after_crcw : (readFrames 1024 [2] (Session.feed ⟨scriptWire crcwScript, []⟩)).1 ≠
      .ok (crcwScript.map fun part => part.2.content) := by
  decide +kernel

end SolarOs.Zmodem
