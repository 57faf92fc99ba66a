import SolarOs.Zmodem.Receive

/-! What a ZMODEM transfer that succeeded says about the file: it is what the peer sent, at
the positions it sent it for, exactly when the positions in the stream are true. -/
namespace SolarOs.Zmodem
open Program

/-- The subpackets behind a `ZDATA` header. -/
inductive Subpackets (mode : CrcMode) : Feed → List (List UInt8) → Feed → Prop
  | last {feed rest : Feed} {data : List UInt8} {terminator : UInt8}
      (read : zmReadDataPacket mode zmRecvChunkSize feed = (.ok (data, terminator), rest))
      (ends : terminator = zcrce ∨ terminator = zcrcw) : Subpackets mode feed [data] rest
  | more {feed rest rest' : Feed} {data : List UInt8} {terminator : UInt8} {packets : List (List UInt8)}
      (read : zmReadDataPacket mode zmRecvChunkSize feed = (.ok (data, terminator), rest))
      (on : ¬(terminator = zcrce ∨ terminator = zcrcw)) (later : Subpackets mode rest packets rest') :
      Subpackets mode feed (data :: packets) rest'

inductive Part where
  | data (header : Header) (packets : List (List UInt8))
  | other (header : Header)
  | eof (header : Header)
  | fin (header : Header)

/-- The stream after the file header, up to the header that ends the file. -/
inductive Parts : Feed → List Part → Prop
  | data {feed rest rest' : Feed} {header : Header} {packets : List (List UInt8)} {parts : List Part}
      (read : zmReadHeader feed = (.ok header, rest)) (type : header.type = zdata)
      (run : Subpackets header.crcMode rest packets rest') (later : Parts rest' parts) :
      Parts feed (.data header packets :: parts)
  | other {feed rest : Feed} {header : Header} {parts : List Part}
      (read : zmReadHeader feed = (.ok header, rest))
      (type : header.type ∉ [zdata, zeof, zfin, zabort, zferr]) (later : Parts rest parts) :
      Parts feed (.other header :: parts)
  | eof {feed rest : Feed} {header : Header} (read : zmReadHeader feed = (.ok header, rest))
      (type : header.type = zeof) : Parts feed [.eof header]
  | fin {feed rest : Feed} {header : Header} (read : zmReadHeader feed = (.ok header, rest))
      (type : header.type = zfin) : Parts feed [.fin header]

/-- The stream up to the file header and its subpacket. -/
inductive Opening : Feed → Feed → Prop
  | late {feed rest file : Feed} {fault : Fault} (read : zmReadHeader feed = (.error fault, rest))
      (late : fault.err = .timeout) (later : Opening rest file) : Opening feed file
  | sinit {feed rest file : Feed} {header : Header} (read : zmReadHeader feed = (.ok header, rest))
      (type : header.type = zsinit)
      (later : Opening (zmReadDataPacket header.crcMode zmFileinfoMax rest).2 file) : Opening feed file
  | other {feed rest file : Feed} {header : Header} (read : zmReadHeader feed = (.ok header, rest))
      (type : header.type ∉ [zsinit, zfile, zfin, zabort, zferr]) (later : Opening rest file) :
      Opening feed file
  | file {feed rest file : Feed} {header : Header} {info : List UInt8 × UInt8}
      (read : zmReadHeader feed = (.ok header, rest)) (type : header.type = zfile)
      (named : zmReadDataPacket header.crcMode (zmFileinfoMax - 1) rest = (.ok info, file)) :
      Opening feed file

/-- The positions in the headers are where the data stands: each `ZDATA` carries the number of
bytes that came before, and a `ZEOF` with the number of all bytes ends the file. -/
def Truthful : Nat → List Part → Prop
  | _, [] => False
  | n, .data header packets :: parts =>
    header.pos = UInt32.ofNat n ∧ Truthful (n + packets.flatten.length) parts
  | n, .other _ :: parts => Truthful n parts
  | n, .eof header :: _ => header.pos = UInt32.ofNat n
  | _, .fin _ :: _ => False

structure World.Intact (w : World) : Prop where
  ended : ∃ heard ∈ w.heard, heard.1.type = zeof ∧ heard.1.pos = UInt32.ofNat w.written
  placed : ∀ heard ∈ w.heard, heard.1.type = zdata → heard.1.pos = UInt32.ofNat heard.2
  whole : w.file = w.packets.flatten

section Unique

variable {feed file file' : Feed} {mode : CrcMode} {packets packets' : List (List UInt8)}
  {parts parts' : List Part}

theorem Subpackets.unique (h : Subpackets mode feed packets file) (h' : Subpackets mode feed packets' file') :
    packets = packets' ∧ file = file' := by
  induction h generalizing packets' with
  | last read ends =>
    cases h' with
    | last read' ends' =>
      rw [read] at read'
      cases read'
      exact ⟨rfl, rfl⟩
    | more read' on' later' =>
      rw [read] at read'
      cases read'
      exact absurd ends on'
  | more read on later ih =>
    cases h' with
    | last read' ends' =>
      rw [read] at read'
      cases read'
      exact absurd ends' on
    | more read' on' later' =>
      rw [read] at read'
      cases read'
      obtain ⟨rfl, rfl⟩ := ih later'
      exact ⟨rfl, rfl⟩

theorem Parts.begins {rest : Feed} {header : Header} (h : Parts feed parts)
    (read : zmReadHeader feed = (.ok header, rest)) :
    (header.type = zdata ∧ ∃ packets rest' later, parts = .data header packets :: later ∧
        Subpackets header.crcMode rest packets rest' ∧ Parts rest' later) ∨
      (header.type ∉ [zdata, zeof, zfin, zabort, zferr] ∧
        ∃ later, parts = .other header :: later ∧ Parts rest later) ∨
      (header.type = zeof ∧ parts = [.eof header]) ∨ (header.type = zfin ∧ parts = [.fin header]) := by
  cases h with
  | data read' type run later =>
    cases read.symm.trans read'
    exact .inl ⟨type, _, _, _, rfl, run, later⟩
  | other read' type later =>
    cases read.symm.trans read'
    exact .inr (.inl ⟨type, _, rfl, later⟩)
  | eof read' type =>
    cases read.symm.trans read'
    exact .inr (.inr (.inl ⟨type, rfl⟩))
  | fin read' type =>
    cases read.symm.trans read'
    exact .inr (.inr (.inr ⟨type, rfl⟩))

theorem Parts.unique (h : Parts feed parts) (h' : Parts feed parts') : parts = parts' := by
  induction h generalizing parts' with
  | data read type run later ih =>
    rcases h'.begins read with ⟨-, packets', rest', later', rfl, run', follow⟩ | ⟨type', -⟩ | ⟨type', -⟩ | ⟨type', -⟩
    · obtain ⟨rfl, rfl⟩ := run.unique run'
      rw [ih follow]
    all_goals exact absurd type' (by rw [type]; decide)
  | other read type later ih =>
    rcases h'.begins read with ⟨type', -⟩ | ⟨-, later', rfl, follow⟩ | ⟨type', -⟩ | ⟨type', -⟩
    · exact absurd type (by rw [type']; decide)
    · rw [ih follow]
    all_goals exact absurd type (by rw [type']; decide)
  | eof read type =>
    rcases h'.begins read with ⟨type', -⟩ | ⟨type', -⟩ | ⟨-, rfl⟩ | ⟨type', -⟩
    · exact absurd type' (by rw [type]; decide)
    · exact absurd type' (by rw [type]; decide)
    · rfl
    · exact absurd type' (by rw [type]; decide)
  | fin read type =>
    rcases h'.begins read with ⟨type', -⟩ | ⟨type', -⟩ | ⟨type', -⟩ | ⟨-, rfl⟩
    · exact absurd type' (by rw [type]; decide)
    · exact absurd type' (by rw [type]; decide)
    · exact absurd type' (by rw [type]; decide)
    · rfl

theorem Opening.begins {rest : Feed} {header : Header} (h : Opening feed file)
    (read : zmReadHeader feed = (.ok header, rest)) :
    (header.type = zsinit ∧ Opening (zmReadDataPacket header.crcMode zmFileinfoMax rest).2 file) ∨
      (header.type ∉ [zsinit, zfile, zfin, zabort, zferr] ∧ Opening rest file) ∨
      (header.type = zfile ∧
        ∃ info, zmReadDataPacket header.crcMode (zmFileinfoMax - 1) rest = (.ok info, file)) := by
  cases h with
  | late read' _ later => cases read.symm.trans read'
  | sinit read' type later =>
    cases read.symm.trans read'
    exact .inl ⟨type, later⟩
  | other read' type later =>
    cases read.symm.trans read'
    exact .inr (.inl ⟨type, later⟩)
  | file read' type named =>
    cases read.symm.trans read'
    exact .inr (.inr ⟨type, _, named⟩)

theorem Opening.unique (h : Opening feed file) (h' : Opening feed file') : file = file' := by
  induction h with
  | late read _ later ih =>
    cases h' with
    | late read' _ later' =>
      cases read.symm.trans read'
      exact ih later'
    | sinit read' => cases read.symm.trans read'
    | other read' => cases read.symm.trans read'
    | file read' => cases read.symm.trans read'
  | sinit read type later ih =>
    rcases h'.begins read with ⟨-, later'⟩ | ⟨type', -⟩ | ⟨type', -⟩
    · exact ih later'
    all_goals exact absurd type' (by rw [type]; decide)
  | other read type later ih =>
    rcases h'.begins read with ⟨type', -⟩ | ⟨-, later'⟩ | ⟨type', -⟩
    · exact absurd type (by rw [type']; decide)
    · exact ih later'
    · exact absurd type (by rw [type']; decide)
  | file read type named =>
    rcases h'.begins read with ⟨type', -⟩ | ⟨type', -⟩ | ⟨-, info, named'⟩
    · exact absurd type' (by rw [type]; decide)
    · exact absurd type' (by rw [type]; decide)
    · cases named.symm.trans named'
      rfl

end Unique

/-- The headers that are read while the file is open, when so many bytes were there before. -/
def heardOf : Nat → List Part → List (Header × Nat)
  | _, [] => []
  | n, .data header packets :: parts => (header, n) :: heardOf (n + packets.flatten.length) parts
  | n, .other header :: parts => (header, n) :: heardOf n parts
  | n, .eof header :: parts => (header, n) :: heardOf n parts
  | n, .fin header :: parts => (header, n) :: heardOf n parts

def packetsOf (parts : List Part) : List (List UInt8) :=
  parts.flatMap fun
    | .data _ packets => packets
    | _ => []

@[simp] theorem packetsOf_data (header : Header) (packets : List (List UInt8)) (parts : List Part) :
    packetsOf (.data header packets :: parts) = packets ++ packetsOf parts := rfl

@[simp] theorem packetsOf_other (header : Header) (parts : List Part) :
    packetsOf (.other header :: parts) = packetsOf parts := rfl

theorem truthful_iff {feed : Feed} {parts : List Part} (h : Parts feed parts) (n : Nat) :
    ((∃ heard ∈ heardOf n parts, heard.1.type = zeof ∧
        heard.1.pos = UInt32.ofNat (n + (packetsOf parts).flatten.length)) ∧
      ∀ heard ∈ heardOf n parts, heard.1.type = zdata → heard.1.pos = UInt32.ofNat heard.2) ↔
      Truthful n parts := by
  induction h generalizing n with
  | @data feed rest rest' header packets parts read type run later ih =>
    have total : n + (packetsOf (.data header packets :: parts)).flatten.length =
        n + packets.flatten.length + (packetsOf parts).flatten.length := by
      rw [packetsOf_data, List.flatten_append, List.length_append, Nat.add_assoc]
    rw [Truthful, ← ih, total, heardOf]
    simp only [List.exists_mem_cons_iff, List.forall_mem_cons, type, forall_const]
    tauto
  | @other feed rest header parts read type later ih =>
    have eof : header.type ≠ zeof := fun same => type (by rw [same]; decide)
    have data : header.type ≠ zdata := fun same => type (by rw [same]; decide)
    rw [Truthful, ← ih, packetsOf_other, heardOf]
    simp only [List.exists_mem_cons_iff, List.forall_mem_cons, eof, data, false_and, false_or, false_implies, true_and]
  | @eof feed rest header read type =>
    simp only [Truthful, heardOf, packetsOf, List.mem_singleton, exists_eq_left, forall_eq, type, true_and]
    exact ⟨fun h => h.1, fun h => ⟨h, fun same => absurd same (by decide)⟩⟩
  | @fin feed rest header read type =>
    have away : header.type ≠ zeof := by rw [type]; decide
    simp [Truthful, heardOf, away]

end SolarOs.Zmodem
