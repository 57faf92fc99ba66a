import SolarOs.Library.Program
import SolarOs.Zmodem.Reader

/-! The deadlines of a ZMODEM receiver: what is left of a timeout is handed down in whole
milliseconds, and a byte that is read with no timeout left is waited for without end. -/
namespace SolarOs.Zmodem.Timed

open ByteOrder Program

def readPollMs : UInt32 := 10
def headerTimeoutMs : UInt32 := 1000
def sessionTimeoutMs : UInt32 := 60000

/-- What the header functions call: the clock, read at the head of the loop of `zm_read_header`
or elsewhere, and `zm_read_byte`. -/
inductive HeaderOp : Type → Type where
  | clock : HeaderOp Int
  | headClock (timeout : UInt32) (start : Int) : HeaderOp Int
  | readByte (timeout : UInt32) : HeaderOp (Except Fault UInt8)

/-- An error without a fault stands for loops that were cut off. -/
abbrev Timed := ExceptT (Option Fault) (Program HeaderOp)

def readClock : Timed Int := ExceptT.mk (.call .clock fun now => .done (.ok now))

section
variable (timeout : UInt32)

def readHeadClock (start : Int) : Timed Int :=
  ExceptT.mk (.call (.headClock timeout start) fun now => .done (.ok now))

def readByte : Timed UInt8 :=
  ExceptT.mk (.call (.readByte timeout) fun reply => .done (reply.mapError some))

def zmReadZdl : Timed (UInt8 × Bool) := do
  let ch ← readByte timeout
  if ch ≠ zdle then return (ch, false)
  else
    let ch ← readByte timeout
    if isTerminator ch then return (ch, true)
    else if ch = zrub0 then return (0x7f, false)
    else if ch = zrub1 then return (0xff, false)
    else return (ch ^^^ 0x40, false)

def zmReadPlain : Timed UInt8 := do
  let (byte, terminator) ← zmReadZdl headerTimeoutMs
  if terminator then throw (some .invalidResponse) else return byte

def zmReadHexByte : Timed UInt8 := do
  let hi ← readByte headerTimeoutMs
  let lo ← readByte headerTimeoutMs
  match zmHexDigit hi, zmHexDigit lo with
  | some hiValue, some loValue => return (hiValue <<< 4) ||| loValue
  | _, _ => throw (some .invalidResponse)

def readBytes (byte : Timed UInt8) : Nat → Timed (List UInt8)
  | 0 => return []
  | n + 1 => do
    let b ← byte
    let bs ← readBytes byte n
    return b :: bs

/-- The five bytes of a header and then its checksum. -/
def readHeaderWith (byte : Timed UInt8) (crcBytes : Nat) (mode : CrcMode)
    (fits : List UInt8 → List UInt8 → Bool) : Timed Header := do
  let raw ← readBytes byte 5
  let crc ← readBytes byte crcBytes
  if fits raw crc then
    return ⟨raw.getD 0 0, fromLittleEndian32 (raw.getD 1 0) (raw.getD 2 0) (raw.getD 3 0) (raw.getD 4 0),
      mode⟩
  else throw (some .invalidCrc)

def fits16 (raw crc : List UInt8) : Bool := zmCrc16 raw = fromBigEndian16 (crc.getD 0 0) (crc.getD 1 0)

def fits32 (raw crc : List UInt8) : Bool :=
  zmCrc32 raw = fromLittleEndian32 (crc.getD 0 0) (crc.getD 1 0) (crc.getD 2 0) (crc.getD 3 0)

def zmReadHeaderHex : Timed Header := readHeaderWith zmReadHexByte 2 .crc16 fits16

def zmReadHeaderBin16 : Timed Header := readHeaderWith zmReadPlain 2 .crc16 fits16

def zmReadHeaderBin32 : Timed Header := readHeaderWith zmReadPlain 4 .crc32 fits32

def skipPads : Nat → Timed UInt8
  | 0 => throw none
  | rounds + 1 => do
    let ch ← readByte headerTimeoutMs
    if ch = zpad then skipPads rounds else return ch

def remainingMs (elapsed : Int) : UInt32 :=
  UInt32.ofInt (((timeout.toNat : Int) * 1000 - elapsed) / 1000)

/-- The loop of `zm_read_header`, cut off after some rounds. -/
def readHeaderLoop (timeout : UInt32) (start : Int) : Nat → Timed Header
  | 0 => throw none
  | rounds + 1 => do
    let now ← readHeadClock timeout start
    if timeout ≠ 0 ∧ now - start ≥ timeout.toNat * 1000 then throw (some .timeout)
    else
      let ch ← readByte (if timeout = 0 then headerTimeoutMs else remainingMs timeout (now - start))
      if ch ≠ zpad then readHeaderLoop timeout start rounds
      else
        let ch ← skipPads rounds
        if ch ≠ zdle then readHeaderLoop timeout start rounds
        else
          let ch ← readByte headerTimeoutMs
          if ch = zhex then zmReadHeaderHex
          else if ch = zbin then zmReadHeaderBin16
          else if ch = zbin32 then zmReadHeaderBin32
          else readHeaderLoop timeout start rounds

def zmReadHeader (rounds : Nat) : Timed Header := do
  let start ← readClock
  readHeaderLoop timeout start rounds

end

def aborted : Fault := ⟨.fail, by decide⟩

def waitLoop (wanted : UInt8) (timeout : UInt32) (start : Int) (headerRounds : Nat) :
    Nat → Timed Header
  | 0 => throw none
  | rounds + 1 => do
    let now ← readClock
    if timeout ≠ 0 ∧ now - start ≥ timeout.toNat * 1000 then throw (some .timeout)
    else
      let header ← zmReadHeader
        (if timeout = 0 then sessionTimeoutMs else remainingMs timeout (now - start)) headerRounds
      if header.type = wanted then return header
      else if header.type = zabort ∨ header.type = zferr then throw (some aborted)
      else waitLoop wanted timeout start headerRounds rounds

def zmWaitForHeaderType (wanted : UInt8) (timeout : UInt32) (rounds : Nat) : Timed Header := do
  let start ← readClock
  waitLoop wanted timeout start rounds rounds

/-- The clock goes on by the first part of what the environment brings; the second part is what
a byte that is read turns out to be. -/
def act : {β : Type} → HeaderOp β → Int → Nat × Except Fault UInt8 → Int × β
  | _, .clock, time, e => (time + e.1, time + e.1)
  | _, .headClock _ _, time, e => (time + e.1, time + e.1)
  | _, .readByte _, time, e => (time + e.1, e.2)

def WithTimeout {β : Type} : HeaderOp β → Int → Nat × Except Fault UInt8 → Prop
  | .readByte timeout, _, _ => timeout ≠ 0
  | _, _, _ => True

def LastMs (timeout : UInt32) (elapsed : Int) : Prop :=
  (timeout.toNat : Int) * 1000 - 1000 < elapsed ∧ elapsed < (timeout.toNat : Int) * 1000

/-- No reading at the head of the loop of `zm_read_header` falls into the last millisecond. -/
def Clear {β : Type} : HeaderOp β → Int → Nat × Except Fault UInt8 → Prop
  | .headClock timeout start, time, e => timeout ≠ 0 → ¬ LastMs timeout (time + e.1 - start)
  | _, _, _ => True

/-- From a time on, the program reads all bytes with a timeout just when no reading of the clock
is too late. -/
def Alike {α : Type} (since : Int) (p : Program HeaderOp α) : Prop :=
  ∀ (time : Int) (env : Nat → Nat × Except Fault UInt8), since ≤ time →
    (Meets act WithTimeout p time env ↔ Meets act Clear p time env)

section Alike

variable {α β : Type} {since : Int}

theorem finish_since (p : Program HeaderOp α) {time : Int} (env : Nat → Nat × Except Fault UInt8)
    (h : since ≤ time) : since ≤ (finish act p time env).1 := by
  induction p generalizing time env with
  | done result => exact h
  | call op next ih =>
    apply ih
    cases op <;> exact Int.le_trans h (Int.le_add_of_nonneg_right (Int.natCast_nonneg _))

theorem Alike.bindProgram {p : Program HeaderOp α} {f : α → Program HeaderOp β} (hp : Alike since p)
    (hf : ∀ a, Alike since (f a)) : Alike since (p >>= f) := by
  intro time env h
  obtain ⟨later, -, parts⟩ := @meets_bind _ _ _ _ _ act p f time env
  rw [parts WithTimeout, parts Clear, hp time env h, hf _ _ later (finish_since p env h)]

theorem Alike.done (a : α) : Alike since (.done a : Program HeaderOp α) :=
  fun _ _ _ => Iff.rfl

theorem Alike.bind {x : Timed α} {f : α → Timed β} (hx : Alike since x.run)
    (hf : ∀ a, Alike since (f a).run) : Alike since (x >>= f).run := by
  apply Alike.bindProgram hx
  intro reply
  cases reply with
  | ok a => exact hf a
  | error fault => exact .done _

theorem Alike.pure (a : α) : Alike since (Pure.pure a : Timed α).run := .done _

theorem Alike.throw (fault : Option Fault) : Alike since (throw fault : Timed α).run := .done _

theorem Alike.readByte {timeout : UInt32} (wait : timeout ≠ 0) : Alike since (readByte timeout).run :=
  fun _ _ _ => ⟨fun _ => ⟨trivial, trivial⟩, fun _ => ⟨wait, trivial⟩⟩

theorem Alike.clock : Alike since readClock.run := fun _ _ _ => Iff.rfl

theorem headerTimeoutMs_ne : headerTimeoutMs ≠ 0 := by decide

theorem Alike.zmReadPlain : Alike since zmReadPlain.run := by
  apply Alike.bind
  · apply Alike.bind (.readByte headerTimeoutMs_ne)
    intro ch
    split
    · exact .pure _
    · apply Alike.bind (.readByte headerTimeoutMs_ne)
      intro code
      split
      · exact .pure _
      · split
        · exact .pure _
        · split
          · exact .pure _
          · exact .pure _
  · rintro ⟨byte, terminator⟩
    cases terminator with
    | true => exact .throw _
    | false => exact .pure _

theorem Alike.zmReadHexByte : Alike since zmReadHexByte.run := by
  apply Alike.bind (.readByte headerTimeoutMs_ne)
  intro hi
  apply Alike.bind (.readByte headerTimeoutMs_ne)
  intro lo
  split
  · exact .pure _
  · exact .throw _

theorem Alike.readBytes {byte : Timed UInt8} (h : Alike since byte.run) (n : Nat) :
    Alike since (readBytes byte n).run := by
  induction n with
  | zero => exact .pure _
  | succ n ih => exact h.bind fun b => ih.bind fun bs => .pure _

theorem Alike.readHeaderWith {byte : Timed UInt8} (h : Alike since byte.run) (crcBytes : Nat)
    (mode : CrcMode) (fits : List UInt8 → List UInt8 → Bool) :
    Alike since (readHeaderWith byte crcBytes mode fits).run := by
  apply (h.readBytes 5).bind
  intro raw
  apply (h.readBytes crcBytes).bind
  intro crc
  split
  · exact .pure _
  · exact .throw _

theorem Alike.skipPads (rounds : Nat) : Alike since (skipPads rounds).run := by
  induction rounds with
  | zero => exact .throw _
  | succ rounds ih =>
    apply Alike.bind (.readByte headerTimeoutMs_ne)
    intro ch
    split
    · exact ih
    · exact .pure _

theorem remainingMs_ne {timeout : UInt32} {elapsed : Int} (forward : 0 ≤ elapsed)
    (early : elapsed < timeout.toNat * 1000) : remainingMs timeout elapsed ≠ 0 ↔ ¬ LastMs timeout elapsed := by
  have small := timeout.toNat_lt
  have value : (remainingMs timeout elapsed).toNat = (((timeout.toNat : Int) * 1000 - elapsed) / 1000).toNat := by
    rw [remainingMs, UInt32.ofInt, UInt32.toNat_ofNat_of_lt']
    · rw [Int.emod_eq_of_lt (by omega) (by omega)]
    · rw [Int.emod_eq_of_lt (by omega) (by omega)]
      change _ < 2 ^ 32
      omega
  rw [ne_eq, ← UInt32.toNat_inj, value]
  unfold LastMs
  change ¬ _ = 0 ↔ _
  omega

theorem Alike.afterByte {sought : UInt8 → Timed β} (rest : ∀ ch, Alike since (sought ch).run)
    (timeout : UInt32) {now : Int} (env : Nat → Nat × Except Fault UInt8) (h : since ≤ now) :
    Meets act WithTimeout (Timed.readByte timeout >>= sought).run now env ↔
      timeout ≠ 0 ∧ Meets act Clear (Timed.readByte timeout >>= sought).run now env := by
  obtain ⟨later, -, parts⟩ := @meets_bind _ _ _ _ _ act (Timed.readByte timeout).run (ExceptT.bindCont sought) now env
  have reached := finish_since (Timed.readByte timeout).run env h
  have same : ∀ reply, Alike since (ExceptT.bindCont sought reply) := by
    intro reply
    cases reply with
    | ok ch => exact rest ch
    | error fault => exact .done _
  have first : Meets act WithTimeout (Timed.readByte timeout).run now env ↔ timeout ≠ 0 := and_iff_left trivial
  have second : Meets act Clear (Timed.readByte timeout).run now env := ⟨trivial, trivial⟩
  refine (parts WithTimeout).trans ?_
  rw [first, same _ _ later reached]
  exact and_congr_right' (((parts Clear).trans (and_iff_right second)).symm)

def afterHead (timeout : UInt32) (start : Int) (sought : UInt8 → Timed β) (now : Int) : Timed β :=
  if timeout ≠ 0 ∧ now - start ≥ timeout.toNat * 1000 then MonadExcept.throw (some .timeout)
  else
    Timed.readByte (if timeout = 0 then headerTimeoutMs else remainingMs timeout (now - start)) >>=
      sought

theorem Alike.head {timeout : UInt32} {start : Int} {sought : UInt8 → Timed β}
    (rest : ∀ ch, Alike start (sought ch).run) :
    Alike start (readHeadClock timeout start >>= afterHead timeout start sought).run := by
  intro time env h
  have forward : (0 : Int) ≤ time + (env 0).1 - start := by omega
  have reached : start ≤ time + (env 0).1 := by omega
  change True ∧ Meets act WithTimeout
      (afterHead timeout start sought (time + (env 0).1)).run (time + (env 0).1) _ ↔
    (timeout ≠ 0 → ¬ LastMs timeout (time + (env 0).1 - start)) ∧ Meets act Clear
      (afterHead timeout start sought (time + (env 0).1)).run (time + (env 0).1) _
  rw [true_and, afterHead]
  by_cases late : timeout ≠ 0 ∧ time + (env 0).1 - start ≥ timeout.toNat * 1000
  · rw [if_pos late]
    refine iff_of_true trivial ⟨?_, trivial⟩
    intro _ last
    exact absurd last.2 (by omega)
  · rw [if_neg late]
    refine (Alike.afterByte rest _ _ reached).trans (and_congr_left' ?_)
    by_cases none : timeout = 0
    · rw [if_pos none]
      exact iff_of_true headerTimeoutMs_ne fun wait => absurd none wait
    · have early := Int.not_le.mp fun le => late ⟨none, le⟩
      rw [if_neg none, remainingMs_ne forward early]
      exact ⟨fun clear _ => clear, fun clear => clear none⟩

theorem Alike.readHeaderLoop (timeout : UInt32) (start : Int) (rounds : Nat) :
    Alike start (readHeaderLoop timeout start rounds).run := by
  induction rounds with
  | zero => exact .throw _
  | succ rounds ih =>
    change Alike start (readHeadClock timeout start >>= afterHead timeout start _).run
    apply Alike.head
    intro ch
    split
    · exact ih
    · apply Alike.bind (.skipPads rounds)
      intro ch
      split
      · exact ih
      · apply Alike.bind (.readByte headerTimeoutMs_ne)
        intro ch
        split
        · exact .readHeaderWith .zmReadHexByte _ _ _
        · split
          · exact .readHeaderWith .zmReadPlain _ _ _
          · split
            · exact .readHeaderWith .zmReadPlain _ _ _
            · exact ih

theorem Alike.fromClock {p : Int → Timed β} (h : ∀ start, Alike start (p start).run) :
    Alike since (readClock >>= p).run := by
  intro time env _
  exact and_congr_right' (h _ _ _ (Int.le_refl _))

theorem Alike.zmReadHeader (timeout : UInt32) (rounds : Nat) : Alike since (zmReadHeader timeout rounds).run :=
  .fromClock fun start => .readHeaderLoop timeout start rounds

theorem Alike.waitLoop (wanted : UInt8) (timeout : UInt32) (start : Int) (headerRounds rounds : Nat) :
    Alike since (waitLoop wanted timeout start headerRounds rounds).run := by
  induction rounds with
  | zero => exact .throw _
  | succ rounds ih =>
    apply Alike.bind .clock
    intro now
    split
    · exact .throw _
    · apply Alike.bind (.zmReadHeader _ _)
      intro header
      split
      · exact .pure _
      · split
        · exact .throw _
        · exact ih

theorem Alike.zmWaitForHeaderType (wanted : UInt8) (timeout : UInt32) (rounds : Nat) :
    Alike since (zmWaitForHeaderType wanted timeout rounds).run :=
  .fromClock fun start => .waitLoop wanted timeout start rounds rounds

end Alike

/-- What `zm_read_byte` calls; what a read of the port brings goes to the receive buffer. -/
inductive PortOp : Type → Type where
  | clock : PortOp Int
  | buffered : PortOp (Option UInt8)
  | shouldCancel : PortOp Bool
  | portRead (timeout : UInt32) : PortOp (Except Fault (List UInt8))
  | delay : PortOp Unit

abbrev OnPort := ExceptT (Option Fault) (Program PortOp)

def onPort {α : Type} (op : PortOp α) : OnPort α :=
  ExceptT.mk (.call op fun reply => .done (.ok reply))

def readTimeoutMs (timeout : UInt32) (elapsed : Int) : UInt32 :=
  let remaining := UInt32.ofInt (((timeout.toNat : Int) * 1000 - elapsed + 999) / 1000)
  if remaining < readPollMs then (if remaining = 0 then 1 else remaining) else readPollMs

/-- The end of a round of the loop of `zm_read_byte`. -/
def pollPort (readTimeout : UInt32) (again : OnPort UInt8) : OnPort UInt8 := do
  let reply ← onPort (.portRead readTimeout)
  match reply with
  | .ok (byte :: _) => return byte
  | .ok [] => do
    onPort .delay
    again
  | .error fault =>
    if fault.err ≠ .timeout then throw (some fault)
    else do
      onPort .delay
      again

/-- The loop of `zm_read_byte`, cut off after some rounds. -/
def readByteLoop (timeout : UInt32) (start : Int) : Nat → OnPort UInt8
  | 0 => throw none
  | rounds + 1 => do
    let buffered ← onPort .buffered
    if let some byte := buffered then return byte
    else if ← onPort .shouldCancel then throw (some .invalidState)
    else if timeout = 0 then pollPort readPollMs (readByteLoop timeout start rounds)
    else
      let now ← onPort .clock
      if now - start ≥ timeout.toNat * 1000 then throw (some .timeout)
      else pollPort (readTimeoutMs timeout (now - start)) (readByteLoop timeout start rounds)

def zmReadByte (timeout : UInt32) (rounds : Nat) : OnPort UInt8 := do
  let start ← onPort .clock
  readByteLoop timeout start rounds

/-- What a call of `zm_read_byte` returned is handed on. -/
def handOn {α : Type} (next : Except Fault UInt8 → Program PortOp (Except (Option Fault) α)) :
    Except (Option Fault) UInt8 → Program PortOp (Except (Option Fault) α)
  | .ok byte => next (.ok byte)
  | .error (some fault) => next (.error fault)
  | .error none => .done (.error none)

/-- A header function with `zm_read_byte` in the place of its calls. -/
def expand {α : Type} (rounds : Nat) :
    Program HeaderOp (Except (Option Fault) α) → Program PortOp (Except (Option Fault) α)
  | .done result => .done result
  | .call .clock next => .call .clock fun now => expand rounds (next now)
  | .call (.headClock _ _) next => .call .clock fun now => expand rounds (next now)
  | .call (.readByte timeout) next =>
    (zmReadByte timeout rounds).run >>= handOn fun reply => expand rounds (next reply)

section Silent

/-- A silent line: the clock shows one reading after another, and nothing ever comes. -/
def silent (readings : Nat → Int) : {β : Type} → PortOp β → Nat → Bool → Nat × β
  | _, .clock, k, _ => (k + 1, readings k)
  | _, .buffered, k, _ => (k, none)
  | _, .shouldCancel, k, _ => (k, false)
  | _, .portRead _, k, expired => (k, if expired then .error .timeout else .ok [])
  | _, .delay, k, _ => (k, ())

variable {readings : Nat → Int} {timeout : UInt32}

theorem finish_pollPort (readings : Nat → Int) (readTimeout : UInt32) (again : OnPort UInt8) (k : Nat)
    (env : Nat → Bool) : ∃ env', finish (silent readings) (pollPort readTimeout again).run k env =
      finish (silent readings) again.run k env' := by
  have first : finish (silent readings) (pollPort readTimeout again).run k env =
      finish (silent readings) (ExceptT.bindCont _ _) k fun n => env (n + 1) := rfl
  rw [first]
  simp only [silent]
  cases env 0 with
  | true => exact ⟨_, rfl⟩
  | false => exact ⟨_, rfl⟩

theorem readByteLoop_endless (start : Int) (rounds k : Nat) (env : Nat → Bool) :
    finish (silent readings) (readByteLoop 0 start rounds).run k env = (k, .error none) := by
  induction rounds generalizing env with
  | zero => rfl
  | succ rounds ih =>
    obtain ⟨env', same⟩ := finish_pollPort readings readPollMs (readByteLoop 0 start rounds) k fun n => env (n + 2)
    exact same.trans (ih env')

theorem readByteLoop_round (wait : timeout ≠ 0) (start : Int) (rounds k : Nat) (env : Nat → Bool) :
    ∃ env', finish (silent readings) (readByteLoop timeout start (rounds + 1)).run k env =
      if readings k - start ≥ timeout.toNat * 1000 then (k + 1, .error (some .timeout))
      else finish (silent readings) (readByteLoop timeout start rounds).run (k + 1) env' := by
  have first : finish (silent readings) (readByteLoop timeout start (rounds + 1)).run k env =
      finish (silent readings) (ite (timeout = 0) _ _ : OnPort UInt8).run k
        fun n => env (n + 2) := rfl
  have second (p : Int → OnPort UInt8) (env : Nat → Bool) :
      finish (silent readings) (onPort .clock >>= p).run k env =
        finish (silent readings) (p (readings k)).run (k + 1) fun n => env (n + 1) := rfl
  rw [first, if_neg wait, second]
  by_cases late : readings k - start ≥ timeout.toNat * 1000
  · simp only [if_pos late]
    exact ⟨env, rfl⟩
  · simp only [if_neg late]
    exact finish_pollPort _ _ _ _ _

theorem readByteLoop_expires (wait : timeout ≠ 0) (start : Int) (n k : Nat)
    (passed : start + timeout.toNat * 1000 ≤ readings (k + n)) : ∃ k', ∀ rounds env, n < rounds →
      finish (silent readings) (readByteLoop timeout start rounds).run k env =
        (k', .error (some .timeout)) := by
  induction n generalizing k with
  | zero =>
    refine ⟨k + 1, ?_⟩
    intro rounds env enough
    obtain ⟨rounds, rfl⟩ := Nat.exists_eq_add_of_lt enough
    obtain ⟨env', round⟩ := readByteLoop_round wait start (0 + rounds) k env
    rw [Nat.add_zero] at passed
    rw [round, if_pos (by omega)]
  | succ n ih =>
    by_cases late : readings k - start ≥ timeout.toNat * 1000
    · refine ⟨k + 1, ?_⟩
      intro rounds env enough
      obtain ⟨rounds, rfl⟩ := Nat.exists_eq_add_of_lt enough
      obtain ⟨env', round⟩ := readByteLoop_round wait start (n + 1 + rounds) k env
      rw [round, if_pos late]
    · obtain ⟨k', ends⟩ := ih (k + 1) (by rw [Nat.add_assoc, Nat.add_comm 1 n]; exact passed)
      refine ⟨k', ?_⟩
      intro rounds env enough
      obtain ⟨rounds, rfl⟩ := Nat.exists_eq_add_of_lt enough
      obtain ⟨env', round⟩ := readByteLoop_round wait start (n + 1 + rounds) k env
      rw [round, if_neg late]
      exact ends _ env' (by omega)

/-- The readings of the clock never decrease and pass every bound. -/
structure Ticks (readings : Nat → Int) : Prop where
  mono : ∀ n, readings n ≤ readings (n + 1)
  unbounded : ∀ bound, ∃ n, bound ≤ readings n

theorem Ticks.le (h : Ticks readings) {m n : Nat} (le : m ≤ n) : readings m ≤ readings n := by
  induction le with
  | refl => exact Int.le_refl _
  | step _ ih => exact Int.le_trans ih (h.mono _)

theorem zmReadByte_expires (h : Ticks readings) (wait : timeout ≠ 0) (k : Nat) : ∃ n k', ∀ rounds env, n < rounds →
      finish (silent readings) (zmReadByte timeout rounds).run k env =
        (k', .error (some .timeout)) := by
  obtain ⟨n, passed⟩ := h.unbounded (readings k + timeout.toNat * 1000)
  obtain ⟨k', ends⟩ := readByteLoop_expires wait (readings k) n (k + 1) (Int.le_trans passed (h.le (by omega)))
  exact ⟨n, k', fun rounds env enough => ends rounds _ enough⟩

variable {α : Type}

/-- How a header function ends on a silent line, its calls of `zm_read_byte` cut off after some
rounds. -/
def outcome (readings : Nat → Int) (rounds : Nat) (x : Timed α) (k : Nat)
    (env : Nat → Bool) : Except (Option Fault) α :=
  (finish (silent readings) (expand rounds x.run) k env).2

def Expires (readings : Nat → Int) (x : Nat → Timed α) (k : Nat) : Prop :=
  ∃ n, ∀ rounds env, n < rounds → outcome readings rounds (x rounds) k env = .error (some .timeout)

def WaitsForEver (readings : Nat → Int) (x : Nat → Timed α) (k : Nat) : Prop :=
  ∀ rounds env, outcome readings rounds (x rounds) k env = .error none

theorem finish_expand (timeout : UInt32) (rounds : Nat) (sought : UInt8 → Timed α) (k : Nat)
    (env : Nat → Bool) : ∃ later,
    finish (silent readings) (expand rounds (readByte timeout >>= sought).run) k env =
      finish (silent readings) (handOn
          (fun reply => expand rounds (ExceptT.bindCont sought (reply.mapError some)))
          (finish (silent readings) (zmReadByte timeout rounds).run k env).2)
        (finish (silent readings) (zmReadByte timeout rounds).run k env).1 later :=
  finish_bind _ _ _ _

theorem outcome_readByte (h : Ticks readings) (wait : timeout ≠ 0) (k : Nat) :
    ∃ n, ∀ (α : Type) rounds (sought : UInt8 → Timed α) env, n < rounds →
      outcome readings rounds (readByte timeout >>= sought) k env = .error (some .timeout) := by
  obtain ⟨n, k', ends⟩ := zmReadByte_expires h wait k
  refine ⟨n, ?_⟩
  intro α rounds sought env enough
  obtain ⟨later, same⟩ := finish_expand timeout rounds sought k env
  rw [outcome, same, ends rounds env enough]
  rfl

theorem outcome_readByte_zero (k rounds : Nat) (sought : UInt8 → Timed α) (env : Nat → Bool) :
    outcome readings rounds (readByte 0 >>= sought) k env = .error none := by
  obtain ⟨later, same⟩ := finish_expand 0 rounds sought k env
  have endless : finish (silent readings) (zmReadByte 0 rounds).run k env =
      (k + 1, .error none) := readByteLoop_endless _ _ _ _
  rw [outcome, same, endless]
  rfl

theorem outcome_head (h : Ticks readings) {start : Int} {k : Nat} (forward : start ≤ readings k)
    (clear : timeout ≠ 0 → ¬ LastMs timeout (readings k - start)) :
    ∃ n, ∀ (α : Type) rounds (sought : UInt8 → Timed α) env, n < rounds →
      outcome readings rounds (readHeadClock timeout start >>= afterHead timeout start sought) k env =
        .error (some .timeout) := by
  have head {α : Type} (rounds : Nat) (sought : UInt8 → Timed α) (env : Nat → Bool) :
      outcome readings rounds (readHeadClock timeout start >>= afterHead timeout start sought) k env =
        outcome readings rounds (afterHead timeout start sought (readings k)) (k + 1)
          fun n => env (n + 1) := rfl
  by_cases late : timeout ≠ 0 ∧ readings k - start ≥ timeout.toNat * 1000
  · refine ⟨0, ?_⟩
    intro α rounds sought env _
    rw [head, afterHead, if_pos late]
    rfl
  · have wait : (if timeout = 0 then headerTimeoutMs else remainingMs timeout (readings k - start)) ≠ 0 := by
      split
      · exact headerTimeoutMs_ne
      · rename_i some
        have early := Int.not_le.mp fun le => late ⟨some, le⟩
        exact (remainingMs_ne (by omega) early).mpr (clear some)
    obtain ⟨n, ends⟩ := outcome_readByte h wait (k + 1)
    refine ⟨n, ?_⟩
    intro α rounds sought env enough
    rw [head, afterHead, if_neg late]
    exact ends α rounds sought _ enough

theorem outcome_head_last {start : Int} {k : Nat} (wait : timeout ≠ 0)
    (forward : start ≤ readings k) (last : LastMs timeout (readings k - start)) {α : Type} (rounds : Nat)
    (sought : UInt8 → Timed α) (env : Nat → Bool) :
    outcome readings rounds (readHeadClock timeout start >>= afterHead timeout start sought) k env =
      .error none := by
  have head : outcome readings rounds (readHeadClock timeout start >>= afterHead timeout start sought) k
      env = outcome readings rounds (afterHead timeout start sought (readings k)) (k + 1)
        fun n => env (n + 1) := rfl
  have zero : remainingMs timeout (readings k - start) = 0 := by
    by_contra some
    exact (remainingMs_ne (by omega) last.2).mp some last
  rw [head, afterHead, if_neg (fun late => absurd last.2 (by omega)), if_neg wait, zero]
  exact outcome_readByte_zero _ _ _ _

theorem readHeaderLoop_head (timeout : UInt32) (start : Int) (rounds : Nat) :
    ∃ sought, readHeaderLoop timeout start (rounds + 1) =
      readHeadClock timeout start >>= afterHead timeout start sought := ⟨_, rfl⟩

theorem readHeaderLoop_bind (timeout : UInt32) (start : Int) (rounds : Nat)
    (f : Header → Timed α) : ∃ sought, (readHeaderLoop timeout start (rounds + 1) >>= f) =
      readHeadClock timeout start >>= afterHead timeout start sought := by
  obtain ⟨sought, same⟩ := readHeaderLoop_head timeout start rounds
  refine ⟨fun ch => sought ch >>= f, ?_⟩
  have assoc : (readHeadClock timeout start >>= afterHead timeout start sought) >>= f =
      readHeadClock timeout start >>= fun now => afterHead timeout start sought now >>= f := rfl
  rw [same, assoc]
  congr 1
  funext now
  unfold afterHead
  split
  · rfl
  · refine congrArg (Program.call (HeaderOp.readByte _)) ?_
    funext reply
    cases reply with
    | ok ch => rfl
    | error fault => rfl

theorem zmReadHeader_silent (h : Ticks readings) (wait : timeout ≠ 0) (k : Nat) :
    (¬ LastMs timeout (readings (k + 1) - readings k) → Expires readings (zmReadHeader timeout) k) ∧
      (LastMs timeout (readings (k + 1) - readings k) →
        WaitsForEver readings (zmReadHeader timeout) k) := by
  constructor
  · intro clear
    obtain ⟨n, ends⟩ := outcome_head h (h.mono k) fun _ => clear
    refine ⟨n, ?_⟩
    intro rounds env enough
    obtain ⟨rounds, rfl⟩ := Nat.exists_eq_add_of_lt enough
    obtain ⟨sought, same⟩ := readHeaderLoop_head timeout (readings k) (n + rounds)
    have first : outcome readings (n + rounds + 1) (zmReadHeader timeout (n + rounds + 1)) k env =
        outcome readings (n + rounds + 1) (readHeaderLoop timeout (readings k) (n + rounds + 1)) (k + 1)
          fun i => env (i + 1) := rfl
    rw [first, same]
    exact ends _ _ _ _ enough
  · intro last rounds env
    have first : outcome readings rounds (zmReadHeader timeout rounds) k env =
        outcome readings rounds (readHeaderLoop timeout (readings k) rounds) (k + 1)
          fun i => env (i + 1) := rfl
    rw [first]
    cases rounds with
    | zero => rfl
    | succ rounds =>
      obtain ⟨sought, same⟩ := readHeaderLoop_head timeout (readings k) rounds
      rw [same]
      exact outcome_head_last wait (h.mono k) last _ _ _

/-- What `zm_wait_for_header_type` hands down is too short for the reading that follows. -/
def TooLate (readings : Nat → Int) (timeout : UInt32) (k : Nat) : Prop :=
  readings (k + 1) - readings k < timeout.toNat * 1000 ∧
    LastMs (remainingMs timeout (readings (k + 1) - readings k)) (readings (k + 3) - readings (k + 2))

/-- Nor does `zm_wait_for_header_type` end on a silent line in that case, and only then. -/
theorem zmWaitForHeaderType_silent (h : Ticks readings) (wanted : UInt8) (wait : timeout ≠ 0) (k : Nat) :
    (¬ TooLate readings timeout k → Expires readings (zmWaitForHeaderType wanted timeout) k) ∧
      (TooLate readings timeout k →
        WaitsForEver readings (zmWaitForHeaderType wanted timeout) k) := by
  generalize hleft : remainingMs timeout (readings (k + 1) - readings k) = left
  have forward : readings (k + 2) ≤ readings (k + 3) := h.mono (k + 2)
  -- the two readings of the waiting loop, and then the call that reads a header
  have first (rounds : Nat) : ∃ f : Header → Timed Header, ∀ env,
      outcome readings (rounds + 1) (zmWaitForHeaderType wanted timeout (rounds + 1)) k env =
        if timeout ≠ 0 ∧ readings (k + 1) - readings k ≥ timeout.toNat * 1000 then
          .error (some .timeout)
        else outcome readings (rounds + 1) (readHeaderLoop left (readings (k + 2)) (rounds + 1) >>= f)
          (k + 3) fun i => env (i + 3) := by
    refine ⟨fun header =>
      if header.type = wanted then pure header
      else if header.type = zabort ∨ header.type = zferr then throw (some aborted)
      else waitLoop wanted timeout (readings k) (rounds + 1) rounds, fun env => ?_⟩
    have unfolded : outcome readings (rounds + 1) (zmWaitForHeaderType wanted timeout (rounds + 1)) k env =
        outcome readings (rounds + 1)
          (ite (timeout ≠ 0 ∧ readings (k + 1) - readings k ≥ timeout.toNat * 1000) _ _ : Timed Header)
          (k + 2) fun i => env (i + 2) := rfl
    rw [unfolded]
    subst hleft
    split <;> rfl
  constructor
  · intro fits
    by_cases late : timeout ≠ 0 ∧ readings (k + 1) - readings k ≥ timeout.toNat * 1000
    · refine ⟨0, ?_⟩
      intro rounds env enough
      obtain ⟨rounds, rfl⟩ := Nat.exists_eq_add_of_lt enough
      obtain ⟨f, same⟩ := first (0 + rounds)
      rw [same, if_pos late]
    · have early := Int.not_le.mp fun le => late ⟨wait, le⟩
      have clear : ¬ LastMs left (readings (k + 3) - readings (k + 2)) := by
        rw [← hleft]
        exact fun last => fits ⟨early, last⟩
      obtain ⟨n, ends⟩ := outcome_head h forward fun _ => clear
      refine ⟨n, ?_⟩
      intro rounds env enough
      obtain ⟨rounds, rfl⟩ := Nat.exists_eq_add_of_lt enough
      obtain ⟨f, same⟩ := first (n + rounds)
      obtain ⟨sought, head⟩ := readHeaderLoop_bind left (readings (k + 2)) (n + rounds) f
      rw [same, if_neg late, head]
      exact ends _ _ _ _ enough
  · rintro ⟨early, last⟩ rounds env
    rw [hleft] at last
    cases rounds with
    | zero => rfl
    | succ rounds =>
      obtain ⟨f, same⟩ := first rounds
      obtain ⟨sought, head⟩ := readHeaderLoop_bind left (readings (k + 2)) rounds f
      have some : left ≠ 0 := by
        rintro rfl
        exact absurd last.2 (by simp only [UInt32.toNat_zero]; omega)
      rw [same, if_neg (fun late => absurd late.2 (by omega)), head]
      exact outcome_head_last some forward last _ _ _

end Silent

/-- Every byte is read with a timeout just when no reading of the clock at the head of the loop
of `zm_read_header` falls into the last millisecond of its timeout; and on a silent line the
calls end with a timeout in that case and otherwise never. -/
theorem timeouts_finite_iff (wanted : UInt8) (timeout : UInt32) (wait : timeout ≠ 0) : (∀ rounds time env,
      (Program.Meets act WithTimeout (zmReadHeader timeout rounds).run time env ↔
        Program.Meets act Clear (zmReadHeader timeout rounds).run time env) ∧
      (Program.Meets act WithTimeout (zmWaitForHeaderType wanted timeout rounds).run time env ↔
        Program.Meets act Clear (zmWaitForHeaderType wanted timeout rounds).run time env)) ∧
    ∀ readings k, Ticks readings →
      ((¬ LastMs timeout (readings (k + 1) - readings k) → Expires readings (zmReadHeader timeout) k) ∧
        (LastMs timeout (readings (k + 1) - readings k) →
          WaitsForEver readings (zmReadHeader timeout) k)) ∧
      ((¬ TooLate readings timeout k → Expires readings (zmWaitForHeaderType wanted timeout) k) ∧
        (TooLate readings timeout k →
          WaitsForEver readings (zmWaitForHeaderType wanted timeout) k)) := by
  constructor
  · intro rounds time env
    exact ⟨Alike.zmReadHeader timeout rounds time env (Int.le_refl time),
      Alike.zmWaitForHeaderType wanted timeout rounds time env (Int.le_refl time)⟩
  · intro readings k h
    exact ⟨zmReadHeader_silent h wait k, zmWaitForHeaderType_silent h wanted wait k⟩

/-- The timeout with which the sender waits for the receiver. -/
theorem timeouts_finite_iff_session : (∀ rounds time env,
      (Program.Meets act WithTimeout (zmReadHeader sessionTimeoutMs rounds).run time env ↔
        Program.Meets act Clear (zmReadHeader sessionTimeoutMs rounds).run time env) ∧
      (Program.Meets act WithTimeout (zmWaitForHeaderType zrinit sessionTimeoutMs rounds).run time env ↔
        Program.Meets act Clear (zmWaitForHeaderType zrinit sessionTimeoutMs rounds).run time env)) ∧
    ∀ readings k, Ticks readings →
      ((¬ LastMs sessionTimeoutMs (readings (k + 1) - readings k) →
          Expires readings (zmReadHeader sessionTimeoutMs) k) ∧
        (LastMs sessionTimeoutMs (readings (k + 1) - readings k) →
          WaitsForEver readings (zmReadHeader sessionTimeoutMs) k)) ∧
      ((¬ TooLate readings sessionTimeoutMs k →
          Expires readings (zmWaitForHeaderType zrinit sessionTimeoutMs) k) ∧
        (TooLate readings sessionTimeoutMs k →
          WaitsForEver readings (zmWaitForHeaderType zrinit sessionTimeoutMs) k)) :=
  timeouts_finite_iff zrinit sessionTimeoutMs (by decide)

def slowReadings (n : Nat) : Int := n * 999500

/-- A header is to come within a second, and the second reading falls half a millisecond before
its end: on a silent line the call is never done. -/
theorem zmReadHeader_waits : ¬ ∀ (timeout : UInt32) (readings : Nat → Int), timeout ≠ 0 → Ticks readings →
      Expires readings (zmReadHeader timeout) 0 := by
  intro claim
  have ticks : Ticks slowReadings := by
    constructor
    · intro n
      unfold slowReadings
      omega
    · intro bound
      refine ⟨bound.toNat, ?_⟩
      unfold slowReadings
      omega
  obtain ⟨n, ends⟩ := claim 1000 slowReadings (by decide) ticks
  have wait : (1000 : UInt32) ≠ 0 := by decide
  have last : LastMs 1000 (slowReadings (0 + 1) - slowReadings 0) := by
    unfold LastMs slowReadings
    decide
  have never := (zmReadHeader_silent ticks wait 0).2 last (n + 1) fun _ => true
  rw [ends (n + 1) (fun _ => true) (Nat.lt_succ_self n)] at never
  cases never

end SolarOs.Zmodem.Timed
