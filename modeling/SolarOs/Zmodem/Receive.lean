import SolarOs.Library.Alone
import SolarOs.Zmodem.Reader

/-! Receiving a file by ZMODEM: the wait for a file header, the loop over the headers that
follow, and what they leave in the destination file. -/
namespace SolarOs.Zmodem
open Program

def zmRecvChunkSize : Nat := 1024
def zmFileinfoMax : Nat := 256
def zmSessionTimeoutUs : Int := 60000 * 1000
def zrinitIntervalUs : Int := 3000000

/-- What a transfer calls. -/
inductive Op : Type → Type where
  | sessionInit : Op Bool
  | time : Op Int
  | shouldCancel : Op Bool
  | write (bytes : List UInt8) : Op EspErr
  | readByte : Op (Except Fault UInt8)
  | readHeader : Op (Except Fault Header)
  | readDataPacket (mode : CrcMode) (bufferLen : Nat) : Op (Except Fault (List UInt8 × UInt8))
  | fopen (append : Bool) : Op EspErr
  | fwrite (data : List UInt8) : Op Bool
  | fclose : Op Bool

/-- The line and the destination file. While the file is open, it is noted which headers were
read, each with the number of bytes written before, and which subpackets. -/
structure World where
  feed : Feed
  sent : List UInt8
  file : List UInt8
  isOpen : Bool
  opened : Bool
  written : Nat
  heard : List (Header × Nat)
  packets : List (List UInt8)

/-- What the outside decides when something is called; a write that fails stops at `reach`. -/
structure Moment where
  available : Bool
  now : Int
  cancelled : Bool
  error : EspErr
  reach : Nat
  succeeded : Bool

def World.hear (w : World) (header : Header) : World :=
  if w.isOpen then { w with heard := w.heard ++ [(header, w.written)] } else w

def World.take (w : World) (data : List UInt8) : World :=
  if w.isOpen then { w with packets := w.packets ++ [data] } else w

def World.append (w : World) (data : List UInt8) : World :=
  { w with file := w.file ++ data, written := w.written + data.length }

def act : {β : Type} → Op β → World → Moment → World × β
  | _, .sessionInit, w, m => (w, m.available)
  | _, .time, w, m => (w, m.now)
  | _, .shouldCancel, w, m => (w, m.cancelled)
  | _, .write bytes, w, m =>
    ({ w with sent := w.sent ++ if m.error = .ok then bytes else bytes.take m.reach }, m.error)
  | _, .readByte, w, _ => ({ w with feed := (zmReadByte w.feed).2 }, (zmReadByte w.feed).1)
  | _, .readHeader, w, _ =>
    match zmReadHeader w.feed with
    | (.ok header, rest) => ({ w with feed := rest }.hear header, .ok header)
    | (.error fault, rest) => ({ w with feed := rest }, .error fault)
  | _, .readDataPacket mode bufferLen, w, _ =>
    match zmReadDataPacket mode bufferLen w.feed with
    | (.ok (data, terminator), rest) => ({ w with feed := rest }.take data, .ok (data, terminator))
    | (.error fault, rest) => ({ w with feed := rest }, .error fault)
  | _, .fopen append, w, m =>
    if m.succeeded then
      ({ w with isOpen := true, opened := true, file := if append then w.file else [] }, .ok)
    else (w, if m.error = .notFound then .notFound else .fail)
  | _, .fwrite data, w, m =>
    if m.succeeded then (w.append data, true) else (w.append (data.take m.reach), false)
  | _, .fclose, w, m => ({ w with isOpen := false }, m.succeeded)

def sendHexHeader (type : UInt8) (pos : UInt32) : Program Op EspErr :=
  invoke (.write (zmHexHeader type pos))

def sendZrinit : Program Op EspErr := invoke (.write zmZrinit)

def readOo : Program Op Unit := do
  match ← invoke .readByte with
  | .ok byte =>
    if byte ≠ 0x4f then return ()
    else
      let _ ← invoke .readByte
      return ()
  | .error _ => return ()

/-- `zm_wait_for_header_type` with the timeout of a session; at most `fuel` headers. -/
def waitForHeaderType (wanted : UInt8) (start : Int) : (fuel : Nat) → Program Op (Option EspErr)
  | 0 => return none
  | fuel + 1 => do
    let now ← invoke .time
    if now - start ≥ zmSessionTimeoutUs then return some .timeout
    else
      match ← invoke .readHeader with
      | .error fault => return some fault.err
      | .ok header =>
        if header.type = wanted then return some .ok
        else if header.type = zabort ∨ header.type = zferr then return some .fail
        else waitForHeaderType wanted start fuel

/-- `zm_recv_file_data`; at most `fuel` subpackets. -/
def recvFileData (mode : CrcMode) : (fuel : Nat) → (transferred : UInt64) → Program Op (Option (EspErr × UInt64))
  | 0, _ => return none
  | fuel + 1, transferred => do
    match ← invoke (.readDataPacket mode zmRecvChunkSize) with
    | .error fault => return some (fault.err, transferred)
    | .ok (data, terminator) =>
      let stored ← (if data.length > 0 then invoke (.fwrite data) else return true)
      if stored = false then return some (.fail, transferred)
      else
        let transferred := transferred + UInt64.ofNat data.length
        if terminator = zcrce then return some (.ok, transferred)
        else if terminator = zcrcq ∨ terminator = zcrcw then
          let _ ← sendHexHeader zack transferred.toUInt32
          if terminator = zcrcw then return some (.ok, transferred)
          else recvFileData mode fuel transferred
        else recvFileData mode fuel transferred

structure Awaited where
  err : EspErr
  cancelled : Bool
  gotFile : Bool

/-- The first loop of `solar_os_zmodem_recv`; at most `fuel` rounds. -/
def awaitFile (append : Bool) (start : Int) : (fuel : Nat) → (nextZrinit : Int) → Program Op (Option Awaited)
  | 0, _ => return none
  | fuel + 1, nextZrinit => do
    if ← invoke .shouldCancel then return some ⟨.ok, true, false⟩
    else
      let now ← invoke .time
      let err ← (if now ≥ nextZrinit then sendZrinit else return .ok)
      if err ≠ .ok then return some ⟨err, false, false⟩
      else
        let nextZrinit := if now ≥ nextZrinit then now + zrinitIntervalUs else nextZrinit
        if now - start ≥ zmSessionTimeoutUs then return some ⟨.timeout, false, false⟩
        else
          match ← invoke .readHeader with
          | .error fault =>
            if fault.err = .timeout then awaitFile append start fuel nextZrinit
            else return some ⟨fault.err, false, false⟩
          | .ok header =>
            if header.type = zrqinit then awaitFile append start fuel 0
            else if header.type = zsinit then
              let _ ← invoke (.readDataPacket header.crcMode zmFileinfoMax)
              let _ ← sendHexHeader zack 0
              awaitFile append start fuel nextZrinit
            else if header.type = zfile then
              match ← invoke (.readDataPacket header.crcMode (zmFileinfoMax - 1)) with
              | .error fault => return some ⟨fault.err, false, false⟩
              | .ok _ =>
                let err ← invoke (.fopen append)
                if err ≠ .ok then return some ⟨err, false, false⟩
                else
                  let err ← sendHexHeader zrpos 0
                  return some ⟨err, false, true⟩
            else if header.type = zfin then
              let _ ← sendHexHeader zfin 0
              readOo
              return some ⟨.ok, false, false⟩
            else if header.type = zabort ∨ header.type = zferr then return some ⟨.fail, false, false⟩
            else awaitFile append start fuel nextZrinit

structure Taken where
  err : EspErr
  cancelled : Bool
  transferred : UInt64
  fileOpen : Bool

/-- The second loop of `solar_os_zmodem_recv`; at most `fuel` headers. -/
def takeFile : (fuel : Nat) → (transferred : UInt64) → Program Op (Option Taken)
  | 0, _ => return none
  | fuel + 1, transferred => do
    if ← invoke .shouldCancel then return some ⟨.ok, true, transferred, true⟩
    else
      match ← invoke .readHeader with
      | .error fault => return some ⟨fault.err, false, transferred, true⟩
      | .ok header =>
        if header.type = zdata then
          match ← recvFileData header.crcMode fuel transferred with
          | none => return none
          | some (err, transferred) =>
            if err ≠ .ok then return some ⟨err, false, transferred, true⟩
            else takeFile fuel transferred
        else if header.type = zeof then
          if (← invoke .fclose) = false then return some ⟨.fail, false, transferred, false⟩
          else
            let err ← sendZrinit
            if err ≠ .ok then return some ⟨err, false, transferred, false⟩
            else
              let start ← invoke .time
              match ← waitForHeaderType zfin start fuel with
              | none => return none
              | some err =>
                if err = .ok then
                  let _ ← sendHexHeader zfin 0
                  readOo
                  return some ⟨.ok, false, transferred, false⟩
                else return some ⟨err, false, transferred, false⟩
        else if header.type = zfin then
          let _ ← sendHexHeader zfin 0
          readOo
          return some ⟨.ok, false, transferred, true⟩
        else if header.type = zabort ∨ header.type = zferr then
          return some ⟨.fail, false, transferred, true⟩
        else takeFile fuel transferred

/-- `solar_os_transfer_result_t`, and what the call returns. -/
structure Result where
  err : EspErr
  bytes : UInt64
  cancelled : Bool
  deriving DecidableEq

def closeFile (taken : Taken) : Program Op EspErr := do
  if taken.fileOpen then
    let closed ← invoke .fclose
    if closed = false ∧ taken.err = .ok then return .fail else return taken.err
  else return taken.err

def zmodemRecv (append : Bool) (fuel : Nat) : Program Op (Option Result) := do
  let start ← invoke .time
  if (← invoke .sessionInit) = false then return some ⟨.noMem, 0, false⟩
  else
    match ← awaitFile append start fuel 0 with
    | none => return none
    | some awaited =>
      let taken ← (if awaited.err = .ok ∧ awaited.gotFile = true ∧ awaited.cancelled = false then
          takeFile fuel 0
        else return some ⟨awaited.err, awaited.cancelled, 0, awaited.gotFile⟩)
      match taken with
      | none => return none
      | some taken =>
        let err ← closeFile taken
        return some ⟨err, taken.transferred, taken.cancelled⟩

end SolarOs.Zmodem
