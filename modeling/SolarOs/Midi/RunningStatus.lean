import SolarOs.Midi.Decoding

/-! Streams written with running status and with real-time messages between their bytes:
the decoder gives the messages that were written. -/
namespace SolarOs.Midi
open Grammar List

def Message.cleared (m : Message) : Message :=
  ⟨m.status, if m.length > 1 then m.data1 else 0, if m.length > 2 then m.data2 else 0, m.length⟩

/-- A byte of a stream and the message that it completes. -/
abbrev Marked := UInt8 × Option Message

def marked : List UInt8 → Message → List Marked
  | [], _ => []
  | [byte], m => [(byte, some m)]
  | byte :: rest, m => (byte, none) :: marked rest m

/-- The running status after a message: system common messages cancel it, real-time ones
leave it. -/
def inForce (running : UInt8) (m : Message) : UInt8 :=
  if m.status < 0xf0 then m.status else if isRealTime m.status then running else 0

/-- The bytes of messages one after the other, where the status byte of a message may be left
out when it is the running status. -/
inductive Written : UInt8 → List Message → List Marked → Prop
  | nil {running : UInt8} : Written running [] []
  | whole {running : UInt8} {m : Message} {ms : List Message} {xs : List Marked} :
      Written (inForce running m) ms xs → Written running (m :: ms) (marked (encode m) m.cleared ++ xs)
  | short {running : UInt8} {m : Message} {ms : List Message} {xs : List Marked} : m.status = running →
      Written (inForce running m) ms xs → Written running (m :: ms) (marked (encode m).tail m.cleared ++ xs)

inductive Woven : List Marked → List Marked → Prop
  | nil : Woven [] []
  | byte {x : Marked} {xs ys : List Marked} : Woven xs ys → Woven (x :: xs) (x :: ys)
  | realTime {status : UInt8} {xs ys : List Marked} : isRealTime status = true → messageLength status ≠ 0 →
      Woven xs ys → Woven xs ((status, some (message status [])) :: ys)

def Emits : Decoder → List Marked → Prop
  | _, [] => True
  | d, (byte, m) :: xs => (decodeByte d byte).2.emitted = m ∧ Emits (decodeByte d byte).1 xs

def feed (d : Decoder) (xs : List Marked) : Decoder := xs.foldl (fun d x => (decodeByte d x.1).1) d

structure Ready (d : Decoder) (running : UInt8) : Prop where
  outside : d.sysex = false
  same : d.runningStatus = running
  held : Held d running []

variable {d : Decoder} {m : Message} {ms : List Message} {xs ys : List Marked} {running : UInt8}

theorem Emits.append (h : Emits d xs) (h' : Emits (feed d xs) ys) : Emits d (xs ++ ys) := by
  induction xs generalizing d with
  | nil => exact h'
  | cons x xs ih => exact ⟨h.1, ih h.2 h'⟩

theorem decodeByte_realTime {status : UInt8} (realTime : isRealTime status = true) (known : messageLength status ≠ 0)
    (d : Decoder) : decodeByte d status = (d, .message (message status [])) := by
  have high : status ≥ 0xf8 := of_decide_eq_true realTime
  rw [decodeByte, if_pos high, if_neg known]
  rfl

theorem Emits.woven (h : Emits d xs) (woven : Woven xs ys) : Emits d ys := by
  induction woven generalizing d with
  | nil => trivial
  | byte _ ih => exact ⟨h.1, ih h.2⟩
  | realTime isRT known _ ih =>
    rw [Emits, decodeByte_realTime isRT known]
    exact ⟨rfl, ih h⟩

theorem Emits.decode (h : Emits d xs) : decode d (xs.map Prod.fst) = xs.filterMap Prod.snd := by
  induction xs generalizing d with
  | nil => rfl
  | cons x xs ih =>
    obtain ⟨byte, m⟩ := x
    rw [map_cons, Midi.decode, h.1, ih h.2, filterMap_cons]
    cases m <;> rfl

theorem messageLength_le (status : UInt8) : messageLength status ≤ 3 := by
  unfold messageLength
  dsimp only
  split_ifs <;> decide

theorem messageLength_realTime {status : UInt8} (high : 0xf8 ≤ status) (known : messageLength status ≠ 0) :
    messageLength status = 1 := by
  have low : ¬status < 0xf0 := UInt8.not_lt.mpr (UInt8.le_trans (by decide) high)
  have other : ¬(status = 0xf1 ∨ status = 0xf3) ∧ status ≠ 0xf2 :=
    ⟨by rintro (rfl | rfl) <;> exact absurd high (by decide), by rintro rfl; exact absurd high (by decide)⟩
  unfold messageLength at known ⊢
  split at known
  · exact absurd rfl known
  · rename_i supported
    rw [if_neg supported, if_neg low, if_neg other.1, if_neg other.2]

theorem valid_cases (valid : m.valid = true) : m.length = messageLength m.status ∧
    (1 < m.length → isData m.data1 = true) ∧ (2 < m.length → isData m.data2 = true) := by
  have low : ∀ byte : UInt8, byte ≤ dataMax → isData byte = true := by
    intro byte le
    refine decide_eq_true ?_
    rw [UInt8.lt_iff_toNat_lt]
    exact Nat.lt_succ_of_le (UInt8.le_iff_toNat_le.mp le)
  unfold Message.valid at valid
  split at valid
  · exact nomatch valid
  · rename_i same
    split at valid
    · exact nomatch valid
    · rename_i first
      refine ⟨not_not.mp same, fun more => low _ (UInt8.not_lt.mp fun high => first ⟨more, high⟩), fun more => ?_⟩
      rw [Bool.or_eq_true, decide_eq_true_eq, decide_eq_true_eq] at valid
      exact low _ (valid.resolve_left (by omega))

theorem emits_data (valid : m.valid = true) (more : 1 < m.length) (outside : d.sysex = false)
    (same : d.runningStatus = running) (held : Held d m.status []) :
    Emits d (marked (encode m).tail m.cleared) ∧ Ready (feed d (marked (encode m).tail m.cleared)) running := by
  obtain ⟨length, first, second⟩ := valid_cases valid
  have short := messageLength_le m.status
  have sized : m.length ≠ 0 := by omega
  have data1 := first more
  have decoded := decodeByte_data data1 outside
  obtain ⟨sysex, keeps, taken⟩ := decodeData_taken m.data1 held (by rw [length_nil]; omega) short
  rw [← decoded] at sysex keeps taken
  rw [length_nil, Nat.zero_add] at taken
  by_cases three : 2 < m.length
  · have data2 := second three
    have tail : (encode m).tail = [m.data1, m.data2] := by
      simp [encode, valid, sized, more, three]
    have cleared : m.cleared = message m.status [m.data1, m.data2] := by
      have full : m.length = 3 := by omega
      unfold Message.cleared message
      rw [full]
      rfl
    rw [if_pos (by omega)] at taken
    obtain ⟨silent, held'⟩ := taken
    have decoded' := decodeByte_data data2 (sysex.trans outside)
    obtain ⟨sysex', keeps', taken'⟩ := decodeData_taken m.data2 held' (by simp; omega) short
    rw [← decoded'] at sysex' keeps' taken'
    rw [if_neg (by simp; omega)] at taken'
    obtain ⟨gives, held''⟩ := taken'
    rw [tail, cleared]
    refine ⟨⟨by rw [silent]; rfl, by rw [gives]; rfl, trivial⟩, ?_⟩
    refine ⟨sysex'.trans (sysex.trans outside), keeps'.trans (keeps.trans same), ?_⟩
    rw [keeps, same] at held''
    exact held''
  · have tail : (encode m).tail = [m.data1] := by
      simp [encode, valid, sized, more, three]
    have cleared : m.cleared = message m.status [m.data1] := by
      have full : m.length = 2 := by omega
      unfold Message.cleared message
      rw [full]
      rfl
    rw [if_neg (by omega)] at taken
    obtain ⟨gives, held'⟩ := taken
    rw [tail, cleared]
    refine ⟨⟨by rw [gives]; rfl, trivial⟩, sysex.trans outside, keeps.trans same, ?_⟩
    rw [same] at held'
    exact held'

theorem decodeByte_start {status : UInt8} (known : messageLength status ≠ 0) (isStatus : isData status = false)
    (notRealTime : isRealTime status = false) (open_ : ¬(d.sysex = true ∧ status = 0xf7)) :
    (decodeByte d status).1.sysex = false ∧
      (decodeByte d status).1.runningStatus = (if status < 0xf0 then status else 0) ∧
      if messageLength status = 1 then
        (decodeByte d status).2.emitted = some (message status []) ∧
          Held (decodeByte d status).1 (decodeByte d status).1.runningStatus []
      else (decodeByte d status).2.emitted = none ∧ Held (decodeByte d status).1 status [] := by
  have low : ¬status ≥ 0xf8 := of_decide_eq_false notRealTime
  have high : ¬status &&& 0x80 = 0 := fun clear => nomatch (isData_iff.mpr clear).symm.trans isStatus
  have exclusive : status ≠ 0xf0 := by
    rintro rfl
    exact known (by decide)
  have nonzero : status ≠ 0 := by
    rintro rfl
    exact known (by decide)
  simp only [decodeByte, if_neg low, if_neg open_, high, and_false, if_false, ne_eq, not_false_eq_true, if_true,
    decodeStatus, if_neg exclusive, emitStatus, if_neg known]
  by_cases one : messageLength status = 1
  · simp only [one, not_true_eq_false, if_false, if_true]
    exact ⟨trivial, trivial, rfl, .of_effective rfl rfl⟩
  · simp only [one, not_false_eq_true, if_false, if_true]
    refine ⟨trivial, trivial, rfl, .of_effective ?_ rfl⟩
    rw [Decoder.effective, if_neg nonzero]

theorem marked_cons (byte : UInt8) {rest : List UInt8} (more : rest ≠ []) (m : Message) :
    marked (byte :: rest) m = (byte, none) :: marked rest m := by
  cases rest with
  | nil => exact absurd rfl more
  | cons => rfl

theorem emits_whole (valid : m.valid = true) (sized : m.length ≠ 0) (notRealTime : isRealTime m.status = false)
    (open_ : ¬(d.sysex = true ∧ m.status = 0xf7)) :
    Emits d (marked (encode m) m.cleared) ∧ Ready (feed d (marked (encode m) m.cleared)) (inForce running m) := by
  obtain ⟨length, -, -⟩ := valid_cases valid
  have short := messageLength_le m.status
  have known : messageLength m.status ≠ 0 := length ▸ sized
  have isStatus : isData m.status = false := by
    refine decide_eq_false fun low => known ?_
    simp [messageLength, statusSupported, low]
  have force : inForce running m = if m.status < 0xf0 then m.status else 0 := by
    unfold inForce
    rw [notRealTime]
    rfl
  obtain ⟨outside, same, starts⟩ := decodeByte_start known isStatus notRealTime open_
  rw [← force] at same
  by_cases one : messageLength m.status = 1
  · rw [if_pos one] at starts
    have bytes : encode m = [m.status] := by
      simp [encode, valid, length, one]
    have cleared : m.cleared = message m.status [] := by
      unfold Message.cleared message
      rw [length, one]
      rfl
    rw [bytes, cleared]
    refine ⟨⟨starts.1, trivial⟩, outside, same, ?_⟩
    rw [same] at starts
    exact starts.2
  · rw [if_neg one] at starts
    obtain ⟨data, ready⟩ := emits_data valid (by omega) outside same starts.2
    have bytes : encode m = m.status :: (encode m).tail := by
      simp [encode, valid, sized]
    have nonempty : (encode m).tail ≠ [] := by
      have more : 1 < m.length := by omega
      simp [encode, valid, sized, more]
    rw [bytes, marked_cons _ nonempty]
    exact ⟨⟨starts.1, data⟩, ready⟩

theorem encode_realTime (valid : m.valid = true) (sized : m.length ≠ 0) (realTime : isRealTime m.status = true) :
    messageLength m.status ≠ 0 ∧ marked (encode m) m.cleared = [(m.status, some (message m.status []))] := by
  obtain ⟨length, -, -⟩ := valid_cases valid
  have known : messageLength m.status ≠ 0 := length ▸ sized
  have single := length.trans (messageLength_realTime (of_decide_eq_true realTime) known)
  refine ⟨known, ?_⟩
  have cleared : m.cleared = message m.status [] := by
    unfold Message.cleared message
    rw [single]
    rfl
  rw [cleared]
  simp [encode, valid, single, marked]

theorem status_of_valid (valid : m.valid = true) (sized : m.length ≠ 0) : isData m.status = false := by
  obtain ⟨length, -, -⟩ := valid_cases valid
  refine decide_eq_false fun low => sized (length.trans ?_)
  simp [messageLength, statusSupported, low]

theorem inForce_realTime (running : UInt8) (realTime : isRealTime m.status = true) : inForce running m = running := by
  have system : ¬m.status < 0xf0 := fun low =>
    have high : (0xf8 : UInt8) ≤ m.status := of_decide_eq_true realTime
    absurd (UInt8.lt_of_le_of_lt high low) (by decide)
  unfold inForce
  rw [if_neg system, realTime]
  rfl

theorem inForce_low (low : running < 0xf0) (m : Message) : inForce running m < 0xf0 := by
  unfold inForce
  split
  · assumption
  · split
    · exact low
    · decide

theorem emits_written (written : Written running ms xs) (valid : ∀ m ∈ ms, m.valid = true ∧ m.length ≠ 0)
    (low : running < 0xf0) (ready : Ready d running) : Emits d xs := by
  induction written generalizing d with
  | nil => trivial
  | @whole running m ms xs _ ih =>
    obtain ⟨isValid, sized⟩ := valid m mem_cons_self
    have rest := fun n there => valid n (mem_cons_of_mem _ there)
    have low' := inForce_low low m
    cases realTime : isRealTime m.status with
    | true =>
      obtain ⟨known, bytes⟩ := encode_realTime isValid sized realTime
      have same := inForce_realTime running realTime
      rw [bytes]
      constructor
      · rw [decodeByte_realTime realTime known]
        rfl
      · rw [decodeByte_realTime realTime known]
        exact ih rest low' (same.symm ▸ ready)
    | false =>
      obtain ⟨emits, ready'⟩ := @emits_whole d m running isValid sized realTime fun both =>
        nomatch ready.outside.symm.trans both.1
      exact emits.append (ih rest low' ready')
  | @short running m ms xs same _ ih =>
    obtain ⟨isValid, sized⟩ := valid m mem_cons_self
    have rest := fun n there => valid n (mem_cons_of_mem _ there)
    have channel : m.status < 0xf0 := same ▸ low
    have more : 1 < m.length := by
      obtain ⟨length, -, -⟩ := valid_cases isValid
      rcases messageLength_channel (status_of_valid isValid sized) channel with two | three
      · omega
      · omega
    have force : inForce running m = running := by
      unfold inForce
      rw [if_pos channel, same]
    obtain ⟨emits, ready'⟩ := emits_data isValid more ready.outside ready.same (same ▸ ready.held)
    exact emits.append (ih rest (inForce_low low m) (force.symm ▸ ready'))

theorem emits_from (written : Written 0 ms xs) (valid : ∀ m ∈ ms, m.valid = true ∧ m.length ≠ 0)
    (open_ : d.sysex = true → ∀ m ∈ ms.find? (!isRealTime ·.status), m.status ≠ 0xf7) : Emits d xs := by
  generalize start : (0 : UInt8) = running at written
  induction written generalizing d with
  | nil => trivial
  | @whole running m ms xs written ih =>
    obtain ⟨isValid, sized⟩ := valid m mem_cons_self
    have rest := fun n there => valid n (mem_cons_of_mem _ there)
    cases realTime : isRealTime m.status with
    | true =>
      obtain ⟨known, bytes⟩ := encode_realTime isValid sized realTime
      rw [find?_cons, realTime] at open_
      rw [bytes]
      constructor
      · rw [decodeByte_realTime realTime known]
        rfl
      · rw [decodeByte_realTime realTime known]
        exact ih rest open_ (start.trans (inForce_realTime running realTime).symm)
    | false =>
      rw [find?_cons, realTime] at open_
      obtain ⟨emits, ready⟩ := @emits_whole d m running isValid sized realTime fun both =>
        open_ both.1 m rfl both.2
      exact emits.append (emits_written written rest (inForce_low (start ▸ by decide) m) ready)
  | @short running m ms xs same _ ih =>
    obtain ⟨isValid, sized⟩ := valid m mem_cons_self
    have notData := status_of_valid isValid sized
    rw [same, ← start] at notData
    exact absurd notData (by decide)

theorem marked_emitted {bytes : List UInt8} (more : bytes ≠ []) (m : Message) :
    (marked bytes m).filterMap Prod.snd = [m] := by
  induction bytes with
  | nil => exact absurd rfl more
  | cons byte rest ih =>
    by_cases last : rest = []
    · subst last
      rfl
    · rw [marked_cons byte last, filterMap_cons]
      exact ih last

theorem Written.emitted (written : Written running ms xs) (valid : ∀ m ∈ ms, m.valid = true ∧ m.length ≠ 0)
    (low : running < 0xf0) : xs.filterMap Prod.snd = ms.map Message.cleared := by
  induction written with
  | nil => rfl
  | @whole running m ms xs _ ih =>
    obtain ⟨isValid, sized⟩ := valid m mem_cons_self
    have some : encode m ≠ [] := by simp [encode, isValid, sized]
    rw [filterMap_append, marked_emitted some, map_cons, singleton_append]
    rw [ih (fun n there => valid n (mem_cons_of_mem _ there)) (inForce_low low m)]
  | @short running m ms xs same _ ih =>
    obtain ⟨isValid, sized⟩ := valid m mem_cons_self
    obtain ⟨length, -, -⟩ := valid_cases isValid
    have more : 1 < m.length := by
      rcases messageLength_channel (status_of_valid isValid sized) (same ▸ low) with two | three
      · omega
      · omega
    have some : (encode m).tail ≠ [] := by simp [encode, isValid, sized, more]
    rw [filterMap_append, marked_emitted some, map_cons, singleton_append]
    rw [ih (fun n there => valid n (mem_cons_of_mem _ there)) (inForce_low low m)]

/-- Messages written with running status and with real-time messages anywhere between their
bytes are decoded as they were written, their unused data bytes cleared, and the real-time ones
where they stand. -/
theorem decode_written {ms : List Message} {xs ys : List Marked} {d : Decoder}
    (valid : ∀ m ∈ ms, m.valid = true ∧ m.length ≠ 0) (written : Written 0 ms xs) (woven : Woven xs ys)
    (open_ : d.sysex = true → ∀ m ∈ ms.find? (!isRealTime ·.status), m.status ≠ 0xf7) :
    decode d (ys.map Prod.fst) = ys.filterMap Prod.snd ∧ xs.filterMap Prod.snd = ms.map Message.cleared :=
  ⟨((emits_from written valid open_).woven woven).decode, written.emitted valid (by decide)⟩

/-- Two notes, the second without its status byte, and a clock message inside the first. -/
theorem decode_written_notes :
    decode .reset [0x90, 60, 0xf8, 100, 64, 0] = [⟨0xf8, 0, 0, 1⟩, ⟨0x90, 60, 100, 3⟩, ⟨0x90, 64, 0, 3⟩] := by
  have woven : Woven [(0x90, none), (60, none), (100, some ⟨0x90, 60, 100, 3⟩), (64, none), (0, some ⟨0x90, 64, 0, 3⟩)]
      [(0x90, none), (60, none), (0xf8, some ⟨0xf8, 0, 0, 1⟩), (100, some ⟨0x90, 60, 100, 3⟩), (64, none),
        (0, some ⟨0x90, 64, 0, 3⟩)] :=
    .byte (.byte (.realTime rfl (by decide) (.byte (.byte (.byte .nil)))))
  have decoded := (@decode_written [⟨0x90, 60, 100, 3⟩, ⟨0x90, 64, 0, 3⟩] _ _ .reset (by decide)
    (.whole (.short rfl .nil)) woven (nomatch ·)).1
  simpa only [map_cons, map_nil, filterMap_cons_some, filterMap_cons, filterMap_nil] using decoded

/-- An unused data byte is not in the stream, and is not read back; the end of system-exclusive
data is no message. -/
theorem unused_and_exclusive :
    (⟨0xf6, 55, 0, 1⟩ : Message).valid = true ∧ decode .reset (encode ⟨0xf6, 55, 0, 1⟩) ≠ [⟨0xf6, 55, 0, 1⟩] ∧
      (⟨0xf7, 0, 0, 1⟩ : Message).valid = true ∧
      decode (decodeByte .reset 0xf0).1 (encode ⟨0xf7, 0, 0, 1⟩) ≠ [⟨0xf7, 0, 0, 1⟩] := by
  decide

/-- A message that its bytes tell all of. -/
structure Message.Plain (m : Message) : Prop where
  valid : m.valid = true
  sized : m.length ≠ 0
  cleared : m.cleared = m

theorem plain_single {status : UInt8} (single : messageLength status = 1) : Message.Plain ⟨status, 0, 0, 1⟩ :=
  ⟨by simp [Message.valid, single], Nat.one_ne_zero, rfl⟩

def Decoder.Clean (d : Decoder) : Prop := ∀ byte ∈ d.data, byte ≤ dataMax

theorem decodeData_plain (clean : d.Clean) {byte : UInt8} (low : byte ≤ dataMax) :
    (decodeData d byte).1.Clean ∧ ∀ m ∈ (decodeData d byte).2.emitted, m.Plain := by
  have stored : ∀ i, ∀ b ∈ d.data.setIfInBounds i byte, b ≤ dataMax := by
    intro i b there
    obtain ⟨j, inside, rfl⟩ := Vector.mem_iff_getElem.mp there
    rw [Vector.getElem_setIfInBounds]
    split
    · exact low
    · exact clean _ (Vector.getElem_mem _)
  unfold decodeData
  generalize (if d.activeStatus = 0 then d.runningStatus else d.activeStatus) = active
  generalize (if d.activeStatus = 0 then 0 else d.dataCount) = count
  dsimp only
  split
  · exact ⟨clean, nofun⟩
  · rename_i room
    split
    · exact ⟨stored _, nofun⟩
    · refine ⟨stored _, fun m is => ?_⟩
      cases is
      have first := UInt8.not_lt.mpr (stored count _ (Vector.getElem_mem (i := 0) Nat.zero_lt_two))
      have second := stored count _ (Vector.getElem_mem (i := 1) Nat.one_lt_two)
      have sized : 1 < messageLength active := by omega
      by_cases three : 2 < messageLength active
      · exact ⟨by simp [Message.valid, first, second, three], by simp; omega, by simp [Message.cleared, three, sized]⟩
      · exact ⟨by simp [Message.valid, first, three], by simp; omega, by simp [Message.cleared, three, sized]⟩

theorem decodeByte_plain (clean : d.Clean) (byte : UInt8) :
    (decodeByte d byte).1.Clean ∧ ∀ m ∈ (decodeByte d byte).2.emitted, m.Plain := by
  unfold decodeByte
  split
  · rename_i high
    split
    · exact ⟨clean, nofun⟩
    · rename_i known
      refine ⟨clean, fun m is => ?_⟩
      cases is
      exact plain_single (messageLength_realTime high known)
  · split
    · exact ⟨clean, nofun⟩
    · split
      · exact ⟨clean, nofun⟩
      · dsimp only
        split
        · unfold decodeStatus emitStatus
          dsimp only
          split
          · exact ⟨clean, nofun⟩
          · split
            · exact ⟨clean, nofun⟩
            · split
              · exact ⟨clean, nofun⟩
              · rename_i single
                refine ⟨clean, fun m is => ?_⟩
                cases is
                exact plain_single (not_not.mp single)
        · rename_i isData
          have low := UInt8.lt_iff_toNat_lt.mp (of_decide_eq_true (isData_iff.mpr (not_not.mp isData)))
          exact decodeData_plain (d := { d with sysex := false }) clean (UInt8.le_iff_toNat_le.mpr (Nat.le_of_lt_succ low))

theorem decode_plain (clean : d.Clean) (stream : List UInt8) : ∀ m ∈ decode d stream, m.Plain := by
  induction stream generalizing d with
  | nil => nofun
  | cons byte stream ih =>
    obtain ⟨clean', plain⟩ := decodeByte_plain clean byte
    intro m there
    rw [decode, mem_append, Option.mem_toList] at there
    exact there.elim (plain m) (ih clean' m)

theorem marked_bytes (bytes : List UInt8) (m : Message) : (marked bytes m).map Prod.fst = bytes := by
  induction bytes with
  | nil => rfl
  | cons byte rest ih =>
    cases rest with
    | nil => rfl
    | cons next rest => exact congrArg (byte :: ·) ih

theorem written_whole (running : UInt8) (ms : List Message) :
    ∃ xs, Written running ms xs ∧ xs.map Prod.fst = ms.flatMap encode := by
  induction ms generalizing running with
  | nil => exact ⟨[], .nil, rfl⟩
  | cons m ms ih =>
    obtain ⟨xs, written, bytes⟩ := ih (inForce running m)
    exact ⟨_, .whole written, by rw [map_append, marked_bytes, bytes]; rfl⟩

/-- Whatever the stream, the decoded messages are valid, and encoded one after the other they are
decoded as the same messages. -/
theorem decode_normal (stream : List UInt8) : (∀ m ∈ decode .reset stream, m.valid = true ∧ m.length ≠ 0) ∧
      decode .reset ((decode .reset stream).flatMap encode) = decode .reset stream := by
  have plain : ∀ m ∈ decode .reset stream, m.Plain :=
    decode_plain (d := .reset) (fun _ there => (Vector.mem_replicate.mp there).2 ▸ by decide) stream
  generalize decode .reset stream = ms at plain
  have valid := fun m there => And.intro (plain m there).valid (plain m there).sized
  obtain ⟨xs, written, bytes⟩ := written_whole 0 ms
  refine ⟨valid, ?_⟩
  rw [← bytes, (@emits_from .reset _ _ written valid (nomatch ·)).decode, written.emitted valid (by decide)]
  exact (map_congr_left fun m there => (plain m there).cleared).trans (map_id _)

end SolarOs.Midi
