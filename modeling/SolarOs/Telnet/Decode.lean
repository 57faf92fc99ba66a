import SolarOs.Telnet.Model

/-! What a client's bytes mean: commands and subnegotiations are taken out, then the ends of
lines are made one. The parser works that out byte by byte. -/
namespace SolarOs.Telnet
open Transducer List

/-- What follows a subnegotiation; it ends at an IAC that no second one follows. -/
def subEnd : List UInt8 → List UInt8
  | [] => []
  | [_] => []
  | b :: c :: rest =>
    if b ≠ iac then subEnd (c :: rest)
    else if c = iac then subEnd rest
    else rest

theorem length_subEnd_le (bytes : List UInt8) : (subEnd bytes).length ≤ bytes.length := by
  fun_induction subEnd bytes with
  | case1 => exact le_rfl
  | case2 => exact Nat.zero_le _
  | case3 b c rest _ ih => exact Nat.le_succ_of_le ih
  | case4 b rest _ ih => exact le_trans ih (Nat.le_add_right _ 2)
  | case5 b c rest => exact Nat.le_add_right _ 2

/-- The data of a stream: a doubled IAC is one, any other IAC begins what is no data. -/
def strip : List UInt8 → List UInt8
  | [] => []
  | [b] => if b = iac then [] else [b]
  | b :: c :: rest =>
    if b ≠ iac then b :: strip (c :: rest)
    else if c = iac then iac :: strip rest
    else if c = doIt ∨ c = dont ∨ c = will ∨ c = wont then strip (rest.drop 1)
    else if c = sb then strip (subEnd (rest.drop 1))
    else strip rest
termination_by bytes => bytes.length
decreasing_by
  · simp
  · simp only [length_cons]
    omega
  · simp only [length_drop, length_cons]
    omega
  · have := length_subEnd_le (rest.drop 1)
    simp only [length_drop, length_cons] at *
    omega
  · simp only [length_cons]
    omega

theorem strip_nil : strip [] = [] := by rw [strip]

theorem strip_singleton (b : UInt8) : strip [b] = if b = iac then [] else [b] := by rw [strip]

def newline (b : UInt8) : UInt8 := if b = lineFeed then carriageReturn else b

def nvt : List UInt8 → List UInt8
  | [] => []
  | [b] => [newline b]
  | b :: c :: rest =>
    if b = carriageReturn ∧ (c = lineFeed ∨ c = nul) then carriageReturn :: nvt rest
    else newline b :: nvt (c :: rest)

section
variable (bytes : List UInt8)

def decode : List UInt8 := nvt (strip bytes)

/-- The parser's state as far as it decides what is data. -/
def scan : ParseState → UInt8 → ParseState × List UInt8
  | .data, b => if b = iac then (.iac, []) else (.data, [b])
  | .iac, b =>
    if b = iac then (.data, [iac])
    else if b = doIt then (.iacDo, [])
    else if b = dont then (.iacDont, [])
    else if b = will then (.iacWill, [])
    else if b = wont then (.iacWont, [])
    else if b = sb then (.sbOption, [])
    else (.data, [])
  | .iacDo, _ => (.data, [])
  | .iacDont, _ => (.data, [])
  | .iacWill, _ => (.data, [])
  | .iacWont, _ => (.data, [])
  | .sbOption, _ => (.sbData, [])
  | .sbData, b => if b = iac then (.sbIac, []) else (.sbData, [])
  | .sbIac, b => if b = se then (.data, []) else if b = iac then (.sbData, []) else (.data, [])

def endLine (suppress : Bool) (b : UInt8) : Bool × List UInt8 :=
  if suppress = true ∧ (b = lineFeed ∨ b = nul) then (false, [])
  else (b = carriageReturn, [newline b])

/-- Bytes that lead the parser into a state. -/
def ParseState.context : ParseState → List UInt8
  | .data => []
  | .iac => [Telnet.iac]
  | .iacDo => [Telnet.iac, doIt]
  | .iacDont => [Telnet.iac, dont]
  | .iacWill => [Telnet.iac, will]
  | .iacWont => [Telnet.iac, wont]
  | .sbOption => [Telnet.iac, sb]
  | .sbData => [Telnet.iac, sb, 0]
  | .sbIac => [Telnet.iac, sb, 0, Telnet.iac]

theorem strip_data {b : UInt8} (plain : b ≠ iac) (rest : List UInt8) : strip (b :: rest) = b :: strip rest := by
  cases rest with
  | nil => rw [strip_singleton, if_neg plain, strip_nil]
  | cons c rest => rw [strip, if_pos plain]

theorem strip_iac (rest : List UInt8) : strip (iac :: iac :: rest) = iac :: strip rest := by
  rw [strip, if_neg (not_not.mpr rfl), if_pos rfl]

theorem strip_verb {c : UInt8} (verb : c = doIt ∨ c = dont ∨ c = will ∨ c = wont) (rest : List UInt8) :
    strip (iac :: c :: rest) = strip (rest.drop 1) := by
  have other : c ≠ iac := by rcases verb with rfl | rfl | rfl | rfl <;> decide
  rw [strip, if_neg (not_not.mpr rfl), if_neg other, if_pos verb]

theorem strip_sb (rest : List UInt8) : strip (iac :: sb :: rest) = strip (subEnd (rest.drop 1)) := by
  rw [strip, if_neg (not_not.mpr rfl), if_neg (by decide), if_neg (by decide), if_pos rfl]

theorem strip_command {c : UInt8} (other : c ≠ iac) (verb : ¬(c = doIt ∨ c = dont ∨ c = will ∨ c = wont))
    (plain : c ≠ sb) (rest : List UInt8) : strip (iac :: c :: rest) = strip rest := by
  rw [strip, if_neg (not_not.mpr rfl), if_neg other, if_neg verb, if_neg plain]

theorem subEnd_data {b : UInt8} (plain : b ≠ iac) (rest : List UInt8) : subEnd (b :: rest) = subEnd rest := by
  cases rest with
  | nil => rfl
  | cons c rest => rw [subEnd, if_pos plain]

theorem subEnd_iac (rest : List UInt8) : subEnd (iac :: iac :: rest) = subEnd rest := by
  rw [subEnd, if_neg (not_not.mpr rfl), if_pos rfl]

theorem subEnd_over {c : UInt8} (other : c ≠ iac) (rest : List UInt8) : subEnd (iac :: c :: rest) = rest := by
  rw [subEnd, if_neg (not_not.mpr rfl), if_neg other]

variable (state : ParseState)

/-- One byte more takes the parser from bytes that led to its state to bytes that lead to the next. -/
theorem strip_scan (b : UInt8) (rest : List UInt8) :
    strip (state.context ++ b :: rest) = (scan state b).2 ++ strip ((scan state b).1.context ++ rest) := by
  cases state with
  | data =>
    unfold scan
    dsimp only
    by_cases command : b = iac
    · rw [if_pos command, command]
      rfl
    · rw [if_neg command]
      exact strip_data command rest
  | iac =>
    unfold scan
    dsimp only
    by_cases doubled : b = iac
    · rw [if_pos doubled, doubled]
      exact strip_iac rest
    rw [if_neg doubled]
    by_cases isDo : b = doIt
    · rw [if_pos isDo, isDo]
      rfl
    rw [if_neg isDo]
    by_cases isDont : b = dont
    · rw [if_pos isDont, isDont]
      rfl
    rw [if_neg isDont]
    by_cases isWill : b = will
    · rw [if_pos isWill, isWill]
      rfl
    rw [if_neg isWill]
    by_cases isWont : b = wont
    · rw [if_pos isWont, isWont]
      rfl
    rw [if_neg isWont]
    by_cases isSb : b = sb
    · rw [if_pos isSb, isSb]
      rfl
    · rw [if_neg isSb]
      refine strip_command doubled ?_ isSb rest
      rintro (is | is | is | is)
      · exact isDo is
      · exact isDont is
      · exact isWill is
      · exact isWont is
  | iacDo => exact strip_verb (.inl rfl) (b :: rest)
  | iacDont => exact strip_verb (.inr (.inl rfl)) (b :: rest)
  | iacWill => exact strip_verb (.inr (.inr (.inl rfl))) (b :: rest)
  | iacWont => exact strip_verb (.inr (.inr (.inr rfl))) (b :: rest)
  | sbOption => exact (strip_sb (b :: rest)).trans (strip_sb (0 :: rest)).symm
  | sbData =>
    unfold scan
    dsimp only
    by_cases command : b = iac
    · rw [if_pos command, command]
      rfl
    · rw [if_neg command]
      calc strip (iac :: sb :: 0 :: b :: rest) = strip (subEnd (b :: rest)) := strip_sb _
        _ = strip (subEnd rest) := by rw [subEnd_data command]
        _ = strip (iac :: sb :: 0 :: rest) := (strip_sb (0 :: rest)).symm
  | sbIac =>
    have inside : strip (iac :: sb :: 0 :: iac :: b :: rest) = strip (subEnd (iac :: b :: rest)) := strip_sb _
    unfold scan
    dsimp only
    by_cases doubled : b = iac
    · subst doubled
      rw [if_neg (by decide), if_pos rfl]
      calc strip (iac :: sb :: 0 :: iac :: iac :: rest) = strip (subEnd (iac :: iac :: rest)) := inside
        _ = strip (subEnd rest) := by rw [subEnd_iac]
        _ = strip (iac :: sb :: 0 :: rest) := (strip_sb (0 :: rest)).symm
    · have past : strip (iac :: sb :: 0 :: iac :: b :: rest) = strip rest := by rw [inside, subEnd_over doubled]
      split
      · exact past
      · exact past

theorem strip_context : strip state.context = [] := by
  cases state with
  | data => exact strip_nil
  | iac => rw [ParseState.context, strip_singleton, if_pos rfl]
  | iacDo => rw [ParseState.context, strip_verb (.inl rfl), drop_nil, strip_nil]
  | iacDont => rw [ParseState.context, strip_verb (.inr (.inl rfl)), drop_nil, strip_nil]
  | iacWill => rw [ParseState.context, strip_verb (.inr (.inr (.inl rfl))), drop_nil, strip_nil]
  | iacWont => rw [ParseState.context, strip_verb (.inr (.inr (.inr rfl))), drop_nil, strip_nil]
  | sbOption => rw [ParseState.context, strip_sb, drop_nil, subEnd, strip_nil]
  | sbData | sbIac => rw [ParseState.context, strip_sb, drop_one, tail_cons, subEnd, strip_nil]

theorem feed_scan (bytes : List UInt8) : (feed scan state bytes).2 = strip (state.context ++ bytes) := by
  induction bytes generalizing state with
  | nil => rw [append_nil, strip_context, feed_nil]
  | cons b rest ih => rw [feed_cons, strip_scan, ih]

theorem feed_endLine : (feed endLine false bytes).2 = nvt bytes ∧
    carriageReturn :: (feed endLine true bytes).2 = nvt (carriageReturn :: bytes) := by
  induction bytes with
  | nil => exact ⟨rfl, rfl⟩
  | cons b rest ih =>
    have plain : ∀ suppress, ¬(suppress = true ∧ (b = lineFeed ∨ b = nul)) →
        (feed endLine suppress (b :: rest)).2 = nvt (b :: rest) := by
      intro suppress other
      rw [feed_cons, endLine, if_neg other]
      by_cases cr : b = carriageReturn
      · subst cr
        exact ih.2
      · rw [decide_eq_false cr]
        show newline b :: (feed endLine false rest).2 = _
        rw [ih.1]
        cases rest with
        | nil => rfl
        | cons c rest => rw [nvt, if_neg fun both => cr both.1]
    constructor
    · exact plain false fun both => Bool.false_ne_true both.1
    · by_cases follow : b = lineFeed ∨ b = nul
      · rw [feed_cons, endLine, if_pos ⟨rfl, follow⟩, nvt, if_pos ⟨rfl, follow⟩]
        exact congrArg _ ih.1
      · rw [plain true fun both => follow both.2, nvt.eq_def (carriageReturn :: b :: rest)]
        dsimp only
        rw [if_neg fun both => follow both.2]
        rfl

theorem feed_decode : (feed (cascade scan endLine) (.data, false) bytes).2 = decode bytes := by
  rw [feed_cascade, feed_scan]
  exact (feed_endLine _).1

theorem lineFeed_notMem_nvt : lineFeed ∉ nvt bytes := by
  have ne : ∀ b, lineFeed ≠ newline b := by
    intro b same
    unfold newline at same
    split at same
    · exact absurd same (by decide)
    · rename_i other
      exact other same.symm
  fun_induction nvt bytes with
  | case1 => exact not_mem_nil
  | case2 b => exact fun there => ne b (mem_singleton.mp there)
  | case3 b c rest _ ih =>
    intro there
    rcases mem_cons.mp there with same | later
    · exact absurd same (by decide)
    · exact ih later
  | case4 b c rest _ ih =>
    intro there
    rcases mem_cons.mp there with same | later
    · exact ne b same
    · exact ih later

end

def Job.parts (job : Job) : ParseState × Bool := (job.parser.state, job.parser.suppressNvtFollow)

variable {job : Job} {byte : UInt8} {out : List UInt8} {cap : Nat}

theorem length_scan_le (state : ParseState) (byte : UInt8) : (scan state byte).2.length ≤ 1 := by
  cases state <;> unfold scan <;> dsimp only <;> (repeat' split) <;> simp

theorem length_endLine_le (suppress : Bool) (byte : UInt8) : (endLine suppress byte).2.length ≤ 1 := by
  unfold endLine
  split <;> simp

theorem length_cascade_le (parts : ParseState × Bool) (byte : UInt8) : (cascade scan endLine parts byte).2.length ≤ 1 :=
  le_trans (length_feed_le length_endLine_le _ _) (length_scan_le _ _)

theorem emit_of_room (room : out.length < cap) : Job.emit out cap byte = out ++ [byte] := if_pos room

theorem emitNvtByte_room (room : out.length < cap) : job.emitNvtByte byte out cap =
      ({ job with parser := { job.parser with
          suppressNvtFollow := (endLine job.parser.suppressNvtFollow byte).1 } },
        out ++ (endLine job.parser.suppressNvtFollow byte).2) := by
  unfold Job.emitNvtByte endLine
  split
  · rw [append_nil]
  · rw [emit_of_room room, emit_of_room room]
    split
    · rename_i cr
      rw [newline, if_neg (cr ▸ by decide), decide_eq_true cr]
    · rename_i other
      rw [newline, decide_eq_false other]

/-- The job still has what it had, but for the parser's state and what answers the client. -/
structure Job.Kept (job job' : Job) : Prop where
  flag : job'.parser.suppressNvtFollow = job.parser.suppressNvtFollow
  pending : job'.pending = job.pending
  password : job'.password = job.password

section
variable (job : Job)

theorem handleDo_kept (option : UInt8) : job.Kept (job.handleDo option) := by
  unfold Job.handleDo
  split <;> exact ⟨rfl, rfl, rfl⟩

theorem handleWill_kept (option : UInt8) : job.Kept (job.handleWill option) := by
  unfold Job.handleWill
  split
  · exact ⟨rfl, rfl, rfl⟩
  · split <;> exact ⟨rfl, rfl, rfl⟩

theorem keepSbByte_kept (byte : UInt8) : job.Kept (job.keepSbByte byte) := by
  unfold Job.keepSbByte
  split <;> exact ⟨rfl, rfl, rfl⟩

theorem keepSbByte_state (byte : UInt8) : (job.keepSbByte byte).parser.state = job.parser.state := by
  unfold Job.keepSbByte
  split <;> rfl

theorem handleSubnegotiation_kept : job.Kept job.handleSubnegotiation := by
  unfold Job.handleSubnegotiation Job.updateDimensions
  dsimp only
  split
  · split <;> exact ⟨rfl, rfl, rfl⟩
  · split <;> exact ⟨rfl, rfl, rfl⟩

/-- What a byte comes to, whatever it makes of the terminal and the answers. -/
structure Fed (out : List UInt8) (byte : UInt8) (fed : Job × List UInt8) : Prop where
  parts : fed.1.parts = (cascade scan endLine job.parts byte).1
  out : fed.2 = out ++ (cascade scan endLine job.parts byte).2
  pending : fed.1.pending = job.pending
  password : fed.1.password = job.password

end

theorem fed_silent {job' : Job} {state : ParseState} (kept : job.Kept job')
    (step : scan job.parser.state byte = (state, [])) : Fed job out byte (job'.goTo state, out) := by
  have parts : cascade scan endLine job.parts byte = ((state, job.parser.suppressNvtFollow), []) :=
    cascade_of endLine step job.parser.suppressNvtFollow
  refine ⟨?_, ?_, kept.pending, kept.password⟩
  · rw [parts, ← kept.flag]
    rfl
  · rw [parts, append_nil]

theorem fed_data {value : UInt8} (room : out.length < cap) (step : scan job.parser.state byte = (.data, [value])) :
    Fed job out byte (((job.emitNvtByte value out cap).1.goTo .data), (job.emitNvtByte value out cap).2) := by
  have parts : cascade scan endLine job.parts byte =
      ((.data, (endLine job.parser.suppressNvtFollow value).1), (endLine job.parser.suppressNvtFollow value).2) := by
    rw [Job.parts, cascade_of endLine step, feed_singleton]
  rw [emitNvtByte_room room]
  exact ⟨by rw [parts]; rfl, by rw [parts], rfl, rfl⟩

/-- The job lets through what its two parts let through, and leaves the buffers alone. -/
theorem feedWireByte_fed (job : Job) (byte : UInt8) (room : out.length < cap) :
    Fed job out byte (job.feedWireByte byte out cap) := by
  have same : job.Kept job := ⟨rfl, rfl, rfl⟩
  unfold Job.feedWireByte
  cases state : job.parser.state with
  | data =>
    dsimp only
    split
    · rename_i command
      exact fed_silent same (by rw [state, scan, if_pos command])
    · rename_i plain
      have fed := @fed_data job byte out cap byte room (by rw [state, scan, if_neg plain])
      have there : (job.emitNvtByte byte out cap).1.goTo .data = (job.emitNvtByte byte out cap).1 := by
        rw [emitNvtByte_room room, ← state]
        rfl
      rw [there] at fed
      exact fed
  | iac =>
    dsimp only
    split
    · rename_i doubled
      exact fed_data room (by rw [state, scan, if_pos doubled])
    split
    · rename_i isDo
      exact fed_silent same (by rw [state, isDo]; rfl)
    split
    · rename_i isDont
      exact fed_silent same (by rw [state, isDont]; rfl)
    split
    · rename_i isWill
      exact fed_silent same (by rw [state, isWill]; rfl)
    split
    · rename_i isWont
      exact fed_silent same (by rw [state, isWont]; rfl)
    split
    · rename_i isSb
      have cleared : job.Kept { job with parser := { job.parser with sbOption := 0, sbData := [] } } := ⟨rfl, rfl, rfl⟩
      exact fed_silent cleared (by rw [state, isSb]; rfl)
    · rename_i doubled isDo isDont isWill isWont isSb
      refine fed_silent same ?_
      rw [state, scan, if_neg doubled, if_neg isDo, if_neg isDont, if_neg isWill, if_neg isWont, if_neg isSb]
  | iacDo => exact fed_silent (handleDo_kept job byte) (by rw [state]; rfl)
  | iacDont | iacWont => exact fed_silent same (by rw [state]; rfl)
  | iacWill => exact fed_silent (handleWill_kept job byte) (by rw [state]; rfl)
  | sbOption =>
    have named : job.Kept { job with parser := { job.parser with sbOption := byte } } := ⟨rfl, rfl, rfl⟩
    exact fed_silent named (by rw [state]; rfl)
  | sbData =>
    dsimp only
    split
    · rename_i command
      exact fed_silent same (by rw [state, scan, if_pos command])
    · rename_i plain
      have fed : Fed job out byte ((job.keepSbByte byte).goTo .sbData, out) :=
        fed_silent (keepSbByte_kept job byte) (by rw [state, scan, if_neg plain])
      have there : (job.keepSbByte byte).goTo .sbData = job.keepSbByte byte := by
        rw [← state, ← keepSbByte_state job byte]
        rfl
      rw [there] at fed
      exact fed
  | sbIac =>
    dsimp only
    split
    · rename_i ends
      exact fed_silent (handleSubnegotiation_kept job) (by rw [state, scan, if_pos ends])
    split
    · rename_i ends doubled
      exact fed_silent (keepSbByte_kept job iac) (by rw [state, scan, if_neg ends, if_pos doubled])
    · rename_i ends other
      exact fed_silent same (by rw [state, scan, if_neg ends, if_neg other])

theorem feedWire_fed (job : Job) (out wire : List UInt8) (room : out.length + wire.length ≤ cap) :
    (Job.feedWire cap job out wire).1.parts = (feed (cascade scan endLine) job.parts wire).1 ∧
    (Job.feedWire cap job out wire).2 = out ++ (feed (cascade scan endLine) job.parts wire).2 ∧
    (Job.feedWire cap job out wire).1.pending = job.pending ∧
    (Job.feedWire cap job out wire).1.password = job.password := by
  induction wire generalizing job out with
  | nil => exact ⟨rfl, (append_nil out).symm, rfl, rfl⟩
  | cons byte wire ih =>
    rw [length_cons] at room
    have fed := feedWireByte_fed job byte (show out.length < cap by omega)
    have little := length_cascade_le job.parts byte
    have fits : (job.feedWireByte byte out cap).2.length + wire.length ≤ cap := by
      rw [fed.out, length_append]
      omega
    obtain ⟨parts, written, pending, password⟩ := ih (job.feedWireByte byte out cap).1 _ fits
    rw [Job.feedWire, feed_cons, ← fed.parts]
    refine ⟨parts, ?_, pending.trans fed.pending, password.trans fed.password⟩
    rw [written, fed.out, append_assoc]

end SolarOs.Telnet
