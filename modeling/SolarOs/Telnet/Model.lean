import SolarOs.Library.CString
import SolarOs.Library.Transducer
import SolarOs.Esp

/-! The telnet job: the parser of what the client sends, the buffer of bytes that came too
early, the negotiation, the password prompt and the port the shell reads from. -/
namespace SolarOs.Telnet

def passwordMax : Nat := 64
def ttypeMax : Nat := 32
def pendingMax : Nat := 128
def sbMax : Nat := 40
def wireSize : Nat := 128
def pieceSize : Nat := 64

def iac : UInt8 := 255
def dont : UInt8 := 254
def doIt : UInt8 := 253
def wont : UInt8 := 252
def will : UInt8 := 251
def sb : UInt8 := 250
def se : UInt8 := 240

def optEcho : UInt8 := 1
def optSga : UInt8 := 3
def optTtype : UInt8 := 24
def optNaws : UInt8 := 31
def optLinemode : UInt8 := 34

def ttypeIs : UInt8 := 0
def ttypeSend : UInt8 := 1

def nul : UInt8 := 0
def backspace : UInt8 := 8
def lineFeed : UInt8 := 10
def carriageReturn : UInt8 := 13
def delete : UInt8 := 0x7f

inductive ParseState where
  | data
  | iac
  | iacDo
  | iacDont
  | iacWill
  | iacWont
  | sbOption
  | sbData
  | sbIac
  deriving DecidableEq

/-- `telnetd_parser_t`; `sbData` holds the first `sb_len` bytes. -/
structure Parser where
  state : ParseState
  sbOption : UInt8
  sbData : List UInt8
  suppressNvtFollow : Bool
  deriving DecidableEq

def Parser.zero : Parser := ⟨.data, 0, [], false⟩

/-- The job as far as a connection goes; `sent` are the commands that answer the client. -/
structure Job where
  password : CString
  parser : Parser
  pending : List UInt8
  terminalType : List UInt8
  cols : Nat
  rows : Nat
  sent : List (List UInt8)
  deriving DecidableEq

def isPrint (b : UInt8) : Bool := 0x20 ≤ b && b ≤ 0x7e

def toLower (b : UInt8) : UInt8 := if 0x41 ≤ b ∧ b ≤ 0x5a then b + 0x20 else b

namespace Job

variable (job : Job)

def sendCommand (command option : UInt8) : Job := { job with sent := job.sent ++ [[iac, command, option]] }

def requestTerminalType : Job :=
  { job with sent := job.sent ++ [[iac, sb, optTtype, ttypeSend, iac, se]] }

def updateDimensions (cols rows : Nat) : Job :=
  if cols < 20 ∨ rows < 8 ∨ 300 < cols ∨ 120 < rows then job else { job with cols, rows }

def handleSubnegotiation : Job :=
  let parser := { job.parser with sbData := [] }
  let data := job.parser.sbData
  if job.parser.sbOption = optNaws ∧ 4 ≤ data.length then
    { job.updateDimensions ((data.getD 0 0).toNat * 256 + (data.getD 1 0).toNat)
        ((data.getD 2 0).toNat * 256 + (data.getD 3 0).toNat) with parser }
  else if job.parser.sbOption = optTtype ∧ 1 < data.length ∧ data.getD 0 0 = ttypeIs then
    { job with
      parser
      terminalType := (data.tail.take (ttypeMax - 1)).map fun ch => if isPrint ch then toLower ch else 0x3f }
  else { job with parser }

def handleDo (option : UInt8) : Job :=
  if option ≠ optEcho ∧ option ≠ optSga then job.sendCommand wont option else job

def handleWill (option : UInt8) : Job :=
  if option = optTtype then job.requestTerminalType
  else if option = optSga ∨ option = optNaws then job
  else job.sendCommand dont option

def goTo (state : ParseState) : Job := { job with parser := { job.parser with state } }

def emit (out : List UInt8) (cap : Nat) (byte : UInt8) : List UInt8 :=
  if out.length < cap then out ++ [byte] else out

def emitNvtByte (byte : UInt8) (out : List UInt8) (cap : Nat) : Job × List UInt8 :=
  if job.parser.suppressNvtFollow = true ∧ (byte = lineFeed ∨ byte = nul) then
    ({ job with parser := { job.parser with suppressNvtFollow := false } }, out)
  else if byte = carriageReturn then
    ({ job with parser := { job.parser with suppressNvtFollow := true } }, emit out cap byte)
  else
    ({ job with parser := { job.parser with suppressNvtFollow := false } },
      emit out cap (if byte = lineFeed then carriageReturn else byte))

def keepSbByte (byte : UInt8) : Job :=
  if job.parser.sbData.length < sbMax then
    { job with parser := { job.parser with sbData := job.parser.sbData ++ [byte] } }
  else job

def feedWireByte (byte : UInt8) (out : List UInt8) (cap : Nat) : Job × List UInt8 :=
  match job.parser.state with
  | .data => if byte = iac then (job.goTo .iac, out) else job.emitNvtByte byte out cap
  | .iac =>
    if byte = iac then
      let (job, out) := job.emitNvtByte iac out cap
      (job.goTo .data, out)
    else if byte = doIt then (job.goTo .iacDo, out)
    else if byte = dont then (job.goTo .iacDont, out)
    else if byte = will then (job.goTo .iacWill, out)
    else if byte = wont then (job.goTo .iacWont, out)
    else if byte = sb then
      ({ job with parser := { job.parser with sbOption := 0, sbData := [], state := .sbOption } }, out)
    else (job.goTo .data, out)
  | .iacDo => ((job.handleDo byte).goTo .data, out)
  | .iacDont => (job.goTo .data, out)
  | .iacWill => ((job.handleWill byte).goTo .data, out)
  | .iacWont => (job.goTo .data, out)
  | .sbOption => ({ job with parser := { job.parser with sbOption := byte, state := .sbData } }, out)
  | .sbData => if byte = iac then (job.goTo .sbIac, out) else (job.keepSbByte byte, out)
  | .sbIac =>
    if byte = se then (job.handleSubnegotiation.goTo .data, out)
    else if byte = iac then ((job.keepSbByte iac).goTo .sbData, out)
    else (job.goTo .data, out)

/-- The loop over the bytes that `recv` gave. -/
def feedWire (cap : Nat) (job : Job) (out : List UInt8) : List UInt8 → Job × List UInt8
  | [] => (job, out)
  | byte :: wire => feedWire cap (job.feedWireByte byte out cap).1 (job.feedWireByte byte out cap).2 wire

/-- `telnetd_pending_take`: what it hands out and what it leaves. -/
def pendingTake (len : Nat) : List UInt8 × Job :=
  (job.pending.take len, { job with pending := job.pending.drop len })

def pendingAppend (data : List UInt8) : Job :=
  { job with pending := job.pending ++ data.take (pendingMax - job.pending.length) }

end Job

inductive Phase where
  | negotiating
  | prompting
  | shell
  | closed
  deriving DecidableEq

/-- A connection. `incoming` is what the client sent and nobody received yet, `received` what was
received, `handed` what the shell has read. -/
structure Session where
  job : Job
  phase : Phase
  entered : List UInt8
  incoming : List UInt8
  received : List UInt8
  handed : List UInt8
  deriving DecidableEq

/-- What the socket does when it is read: the wait or the call runs out of time, it fails or the
client has closed it, or some bytes are there. -/
inductive Ready where
  | timeout
  | failed
  | bytes (count : Nat)

namespace Session

variable (s : Session)

def socketRead (len : Nat) (ready : Ready) : EspErr × List UInt8 × Session :=
  match ready with
  | .timeout => (.timeout, [], s)
  | .failed => (.invalidState, [], s)
  | .bytes count =>
    let got := s.incoming.take (min count (min len wireSize))
    let (job, out) := Job.feedWire len s.job [] got
    (if out = [] then .timeout else .ok, out,
      { s with
        job
        incoming := s.incoming.drop (min count (min len wireSize))
        received := s.received ++ got })

/-- A round of the loop of `telnetd_prime_negotiation`. -/
def primeNegotiation (ready : Ready) : Session :=
  if s.phase ≠ .negotiating then s
  else
    match s.socketRead pieceSize ready with
    | (.ok, data, s) => { s with job := s.job.pendingAppend data }
    | (.timeout, _, s) => s
    | (_, _, s) => { s with phase := .closed }

def negotiated : Session :=
  if s.phase ≠ .negotiating then s
  else if s.job.password.bytes = [] then { s with phase := .shell }
  else { s with phase := .prompting, entered := [] }

def enter (entered : List UInt8) (ch : UInt8) : List UInt8 :=
  if ch = backspace ∨ ch = delete then entered.dropLast
  else if isPrint ch = true ∧ entered.length + 1 < passwordMax then entered ++ [ch]
  else entered

/-- The loop of `telnetd_authenticate` over a piece of data. -/
def enterPiece (s : Session) : List UInt8 → Session
  | [] => s
  | ch :: data =>
    if ch = carriageReturn ∨ ch = lineFeed then
      let accepted := s.entered = s.job.password.bytes
      let job := s.job.pendingAppend data
      if accepted then { s with job, phase := .shell } else { s with job, phase := .closed }
    else enterPiece { s with entered := enter s.entered ch } data

/-- A round of the loop of `telnetd_authenticate`. -/
def authenticate (ready : Ready) : Session :=
  if s.phase ≠ .prompting then s
  else
    match s.job.pendingTake pieceSize with
    | ([], _) =>
      match s.socketRead pieceSize ready with
      | (.ok, data, s) => s.enterPiece data
      | (.timeout, _, s) => s
      | (_, _, s) => { s with phase := .closed }
    | (data, job) => enterPiece { s with job } data

/-- `telnetd_port_read`, the caller being the shell. -/
def portRead (len : Nat) (ready : Ready) : Session :=
  if s.phase ≠ .shell ∨ len = 0 then s
  else
    match s.job.pendingTake len with
    | ([], _) =>
      match s.socketRead len ready with
      | (_, data, s) => { s with handed := s.handed ++ data }
    | (data, job) => { s with job, handed := s.handed ++ data }

def client (bytes : List UInt8) : Session := { s with incoming := s.incoming ++ bytes }

def hangUp : Session := { s with phase := .closed }

end Session

/-- A connection that was just accepted, with the commands that open the negotiation. -/
def accept (password : CString) : Session where
  job :=
    { password
      parser := .zero
      pending := []
      terminalType := []
      cols := 80
      rows := 24
      sent := [[iac, will, optEcho], [iac, will, optSga], [iac, doIt, optSga], [iac, doIt, optTtype],
        [iac, doIt, optNaws], [iac, dont, optLinemode]] }
  phase := .negotiating
  entered := []
  incoming := []
  received := []
  handed := []

inductive Turn where
  | client (bytes : List UInt8)
  | primeNegotiation (ready : Ready)
  | negotiated
  | authenticate (ready : Ready)
  | portRead (len : Nat) (ready : Ready)
  | hangUp

def Session.step (s : Session) : Turn → Session
  | .client bytes => s.client bytes
  | .primeNegotiation ready => s.primeNegotiation ready
  | .negotiated => s.negotiated
  | .authenticate ready => s.authenticate ready
  | .portRead len ready => s.portRead len ready
  | .hangUp => s.hangUp

end SolarOs.Telnet
