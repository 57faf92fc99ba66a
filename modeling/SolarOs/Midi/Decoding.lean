import SolarOs.Midi.Codec

/-! The decoder follows the grammar byte by byte, but for data bytes after an undefined
status byte. -/
namespace SolarOs.Midi
open Grammar Option

variable {d : Decoder} {past : List UInt8} {byte status : UInt8} {data : List UInt8}

def Decoder.effective (d : Decoder) : UInt8 := if d.activeStatus = 0 then d.runningStatus else d.activeStatus

/-- The decoder holds these data bytes of a message with this status. -/
inductive Held (d : Decoder) : UInt8 → List UInt8 → Prop
  | none (count : d.dataCount = 0) : Held d d.effective []
  | one (active : d.activeStatus ≠ 0) (count : d.dataCount = 1) : Held d d.activeStatus [d.data[0]]

theorem Held.of_effective (same : d.effective = status) (count : d.dataCount = 0) : Held d status [] := same ▸ .none count

theorem decodeData_ignored (byte : UInt8) (h : Held d status []) (none : messageLength status = 0) :
    decodeData d byte = ({ d with activeStatus := 0, dataCount := 0 }, .unsupported) := by
  cases h with
  | none count =>
    rw [Decoder.effective] at none
    simp [decodeData, none]

theorem decodeData_eq {active : UInt8} {count : Nat} (hactive : d.effective = active)
    (hcount : (if d.activeStatus = 0 then 0 else d.dataCount) = count)
    (room : count + 1 < messageLength active) (short : messageLength active ≤ 3) : decodeData d byte =
      if count + 2 < messageLength active then
        ({ d with activeStatus := active, data := d.data.setIfInBounds count byte, dataCount := count + 1 }, .none)
      else
        ({ d with activeStatus := d.runningStatus, data := d.data.setIfInBounds count byte, dataCount := 0 },
          .message ⟨active, (d.data.setIfInBounds count byte)[0],
            if messageLength active > 2 then (d.data.setIfInBounds count byte)[1] else 0,
            messageLength active⟩) := by
  have fits : ¬(messageLength active < 2 ∨ count ≥ 2) := by omega
  rw [Decoder.effective] at hactive
  simp only [decodeData, hactive, hcount, if_neg fits]

theorem decodeData_taken (byte : UInt8) (h : Held d status data) (room : data.length + 1 < messageLength status)
    (short : messageLength status ≤ 3) :
    (decodeData d byte).1.sysex = d.sysex ∧ (decodeData d byte).1.runningStatus = d.runningStatus ∧
      if data.length + 2 < messageLength status then
        (decodeData d byte).2 = .none ∧ Held (decodeData d byte).1 status (data ++ [byte])
      else
        (decodeData d byte).2 = .message (message status (data ++ [byte])) ∧
          Held (decodeData d byte).1 d.runningStatus [] := by
  -- a status without a length holds no data
  have known : status ≠ 0 := by
    rintro rfl
    exact absurd room (by simp [messageLength, statusSupported])
  have completes : ∀ d' : Decoder, d'.activeStatus = d.runningStatus → d'.runningStatus = d.runningStatus →
      d'.dataCount = 0 → Held d' d.runningStatus [] := by
    intro d' active running count
    refine .of_effective ?_ count
    rw [Decoder.effective, active, running]
    split
    · rename_i none
      exact none.symm ▸ rfl
    · rfl
  cases h with
  | none count =>
    have counts : (if d.activeStatus = 0 then 0 else d.dataCount) = 0 := by
      rw [count]
      simp
    rw [decodeData_eq rfl counts room short]
    refine ⟨by split <;> rfl, by split <;> rfl, ?_⟩
    simp only [List.length_nil, zero_add] at *
    split
    · refine ⟨rfl, ?_⟩
      have := Held.one (d := { d with activeStatus := d.effective, data := d.data.setIfInBounds 0 byte, dataCount := 1 })
        known rfl
      simpa using this
    · rename_i full
      have two : messageLength d.effective = 2 := by omega
      refine ⟨?_, completes _ rfl rfl rfl⟩
      simp [message, two]
  | one active count =>
    have counts : (if d.activeStatus = 0 then 0 else d.dataCount) = 1 := by
      rw [if_neg active, count]
    have effective : d.effective = d.activeStatus := by rw [Decoder.effective, if_neg active]
    rw [decodeData_eq effective counts room short]
    have three : messageLength d.activeStatus = 3 := by
      simp only [List.length_singleton] at room
      omega
    simp only [List.length_singleton, three, lt_irrefl, if_false]
    refine ⟨trivial, trivial, ?_, completes _ rfl rfl rfl⟩
    simp [message]

/-- The status that the next data byte belongs to as the decoder has it, and the data bytes
of a message that is not complete. -/
def pending (past : List UInt8) : UInt8 × List UInt8 :=
  match (statuses past).getLast? with
  | none => (0, [])
  | some status =>
    if status < 0xf0 then (status, group (messageLength status - 1) (dataSince past))
    else if undefined status ∧ runningStatus past ≠ 0 then
      (runningStatus past, group (messageLength (runningStatus past) - 1) (dataSince past))
    else if (dataSince past).length + 1 < messageLength status then (status, dataSince past)
    else (0, [])

structure Follows (d : Decoder) (past : List UInt8) : Prop where
  sysex : d.sysex = true ↔ (statuses past).getLast? = some 0xf0
  running : d.runningStatus = runningStatus past
  held : Held d (pending past).1 (pending past).2

theorem reset_follows : Follows .reset [] := ⟨by decide, rfl, .none rfl⟩

/-- A data byte that completes a message of the running status that an undefined status byte
should have cancelled. -/
def Stray (past : List UInt8) (byte : UInt8) : Prop :=
  isData byte = true ∧ (statuses past).getLast?.any undefined = true ∧ runningStatus past ≠ 0 ∧
    (group (messageLength (runningStatus past) - 1) (dataSince past)).length + 2 =
      messageLength (runningStatus past)

theorem Follows.realTimeByte (h : Follows d past) (realTime : isRealTime byte = true) :
    Follows (decodeByte d byte).1 (past ++ [byte]) ∧ (decodeByte d byte).2.emitted = next past byte := by
  have high : byte ≥ 0xf8 := by simpa [isRealTime] using realTime
  have same : pending (past ++ [byte]) = pending past := by
    rw [pending, statuses_realTime realTime, dataSince_realTime realTime,
      runningStatus_congr (statuses_realTime realTime), pending]
  have follows : Follows d (past ++ [byte]) := by
    refine ⟨?_, ?_, same ▸ h.held⟩
    · rw [statuses_realTime realTime]
      exact h.sysex
    · rw [runningStatus_congr (statuses_realTime realTime)]
      exact h.running
  simp only [decodeByte, if_pos high, next, if_pos realTime]
  split
  · exact ⟨follows, rfl⟩
  · exact ⟨follows, rfl⟩

theorem messageLength_channel (notData : isData status = false) (channel : status < 0xf0) :
    messageLength status = 2 ∨ messageLength status = 3 := by
  have high : ¬status < 0x80 := of_decide_eq_false notData
  have supported : statusSupported status = true := by
    rw [statusSupported, if_neg high, if_pos channel]
  simp only [messageLength, supported, if_pos channel]
  by_cases two : status &&& 0xf0 = 0xc0 ∨ status &&& 0xf0 = 0xd0 <;> simp [two]

theorem system_cases (system : ¬status < 0xf0) (realTime : isRealTime status = false) :
    status ∈ [0xf0, 0xf1, 0xf2, 0xf3, 0xf4, 0xf5, 0xf6, (0xf7 : UInt8)] := by
  have low : ¬0xf8 ≤ status := of_decide_eq_false realTime
  simp only [List.mem_cons, List.not_mem_nil, or_false, ← UInt8.toNat_inj]
  simp only [UInt8.lt_iff_toNat_lt, UInt8.le_iff_toNat_le] at system low
  have : status.toNat = 240 ∨ status.toNat = 241 ∨ status.toNat = 242 ∨ status.toNat = 243 ∨
      status.toNat = 244 ∨ status.toNat = 245 ∨ status.toNat = 246 ∨ status.toNat = 247 := by
    have l : 240 ≤ status.toNat := not_lt.mp system
    have h : status.toNat < 248 := not_le.mp low
    omega
  exact this

theorem isData_iff : isData byte = true ↔ byte &&& 0x80 = 0 := by
  have every : ∀ n < 256, isData (UInt8.ofNat n) = true ↔ UInt8.ofNat n &&& 0x80 = 0 := by decide +kernel
  have := every byte.toNat byte.toNat_lt
  rwa [UInt8.ofNat_toNat] at this

theorem runningStatus_last (last : (statuses past).getLast? = some status) (h : undefined status = false) :
    runningStatus past = if status < 0xf0 then status else 0 := by
  obtain ⟨earlier, split⟩ := List.getLast?_eq_some_iff.mp last
  simp [runningStatus, split, List.filter_append, h]

theorem next_status (notData : isData byte = false) (realTime : isRealTime byte = false) :
    next past byte = completed (statuses past).getLast? byte [] := by
  simp [next, realTime, statuses_status notData realTime, dataSince_status notData realTime]

theorem group_nil (size : Nat) : group size [] = [] := List.drop_nil

theorem pending_status (past : List UInt8) (notData : isData byte = false) (realTime : isRealTime byte = false) :
    pending (past ++ [byte]) =
      if byte < 0xf0 then (byte, [])
      else if undefined byte ∧ runningStatus past ≠ 0 then (runningStatus past, [])
      else if 1 < messageLength byte then (byte, [])
      else (0, []) := by
  have kept : undefined byte = true → runningStatus (past ++ [byte]) = runningStatus past := runningStatus_undefined
  rw [pending, statuses_status notData realTime, List.getLast?_concat, dataSince_status notData realTime]
  simp only [group_nil, List.length_nil, zero_add]
  by_cases h : undefined byte = true
  · rw [kept h]
  · simp [h]

theorem undefined_channel (channel : status < 0xf0) : undefined status = false := by
  have away : ∀ s : UInt8, ¬s < 0xf0 → status ≠ s := fun s high same => high (same ▸ channel)
  simp [undefined, away 0xf4 (by decide), away 0xf5 (by decide)]

theorem undefined_system (system : ¬status < 0xf0) (realTime : isRealTime status = false)
    (exclusive : status ≠ 0xf0) : undefined status = true ↔ messageLength status = 0 := by
  have every : ∀ s ∈ [0xf0, 0xf1, 0xf2, 0xf3, 0xf4, 0xf5, 0xf6, (0xf7 : UInt8)],
      s ≠ 0xf0 → (undefined s = true ↔ messageLength s = 0) := by decide
  exact every status (system_cases system realTime) exclusive

theorem pending_exclusive (last : (statuses past).getLast? = some 0xf0) : pending past = (0, []) := by
  rw [pending, last]
  simp [undefined, messageLength, statusSupported]

theorem Held.emptied (h : Held d status []) : d.effective = status ∧ d.dataCount = 0 := by
  cases h with
  | none count => exact ⟨rfl, count⟩

theorem completed_nil {earlier : Option UInt8} (notData : isData status = false)
    (goesOn : ¬(status = 0xf7 ∧ earlier = some 0xf0)) :
    completed earlier status [] = if messageLength status = 1 then some (message status []) else none := by
  simp only [completed, ne_eq, not_true_eq_false, false_and, if_false, List.length_nil, if_neg goesOn]
  split
  · rename_i channel
    have length := messageLength_channel notData channel
    rw [if_neg (by omega)]
  · split
    · rename_i none
      rw [if_neg (by omega)]
    · by_cases one : messageLength status = 1
      · rw [if_pos one, if_pos (by omega)]
      · rw [if_neg one, if_neg (by omega)]

theorem Follows.statusByte (h : Follows d past) (notData : isData byte = false) (realTime : isRealTime byte = false) :
    Follows (decodeByte d byte).1 (past ++ [byte]) ∧ (decodeByte d byte).2.emitted = next past byte := by
  have low : ¬byte ≥ 0xf8 := of_decide_eq_false realTime
  have high : ¬byte &&& 0x80 = 0 := fun clear => by
    rw [isData_iff.mpr clear] at notData
    cases notData
  have last : (statuses (past ++ [byte])).getLast? = some byte := by
    rw [statuses_status notData realTime, List.getLast?_concat]
  rw [next_status notData realTime]
  simp only [decodeByte, if_neg low, high, and_false, if_false, ne_eq, not_false_eq_true, if_true]
  split
  · -- the end of system-exclusive data
    rename_i ends
    obtain ⟨sysex, rfl⟩ := ends
    have before := h.sysex.mp sysex
    have running : d.runningStatus = 0 := h.running.trans (runningStatus_last before (by decide))
    have held := h.held
    rw [pending_exclusive before] at held
    refine ⟨⟨?_, ?_, ?_⟩, ?_⟩
    · simp [last]
    · exact running.trans (runningStatus_status notData realTime (by decide)).symm
    · rw [pending_status _ notData realTime]
      exact .of_effective held.emptied.1 held.emptied.2
    · rw [before]
      simp [completed, messageLength, statusSupported, Decoded.emitted]
  · rename_i goesOn
    rw [completed_nil notData fun both => goesOn ⟨h.sysex.mpr both.2, both.1⟩]
    have plain : byte ≠ 0xf0 → (false = true ↔ (statuses (past ++ [byte])).getLast? = some 0xf0) := by
      intro other
      simp [last, other]
    by_cases exclusive : byte = 0xf0
    · subst exclusive
      simp only [decodeStatus, if_true]
      refine ⟨⟨by simp [last], (runningStatus_status notData realTime (by decide)).symm, ?_⟩, rfl⟩
      rw [pending_status _ notData realTime]
      exact .of_effective rfl rfl
    · simp only [decodeStatus, if_neg exclusive, emitStatus]
      by_cases channel : byte < 0xf0
      · have length := messageLength_channel notData channel
        have known : messageLength byte ≠ 0 := by omega
        have more : messageLength byte ≠ 1 := by omega
        simp only [if_neg known, more, ne_eq, not_false_eq_true, if_true, if_false, channel]
        refine ⟨⟨plain exclusive, ?_, ?_⟩, rfl⟩
        · rw [runningStatus_status notData realTime (undefined_channel channel), if_pos channel]
        · rw [pending_status _ notData realTime, if_pos channel]
          refine .of_effective ?_ rfl
          simp only [Decoder.effective, ite_self]
      · have unknown := undefined_system channel realTime exclusive
        have started := pending_status past notData realTime
        rw [if_neg channel] at started
        by_cases none : messageLength byte = 0
        · have undef := unknown.mpr none
          simp only [none, Nat.zero_ne_one, if_true, if_false]
          refine ⟨⟨plain exclusive, h.running.trans (runningStatus_undefined undef).symm, ?_⟩, rfl⟩
          rw [started]
          by_cases running : runningStatus past = 0
          · simp only [running, ne_eq, not_true_eq_false, and_false, if_false, none, Nat.not_lt_zero]
            exact .of_effective (h.running.trans running) rfl
          · have both : undefined byte = true ∧ runningStatus past ≠ 0 := ⟨undef, running⟩
            rw [if_pos both]
            exact .of_effective h.running rfl
        · have defined : undefined byte = false := by
            rw [Bool.eq_false_iff]
            exact fun undef => none (unknown.mp undef)
          have running : runningStatus (past ++ [byte]) = 0 := by
            rw [runningStatus_status notData realTime defined, if_neg channel]
          simp only [defined, Bool.false_eq_true, false_and, if_false] at started
          simp only [if_neg none, if_neg channel]
          by_cases one : messageLength byte = 1
          · simp only [ne_eq, one, not_true_eq_false, if_false, if_true]
            refine ⟨⟨plain exclusive, running.symm, ?_⟩, rfl⟩
            rw [started, one]
            exact .of_effective rfl rfl
          · have more : 1 < messageLength byte := by omega
            simp only [ne_eq, one, not_false_eq_true, if_true, if_false]
            refine ⟨⟨plain exclusive, running.symm, ?_⟩, rfl⟩
            rw [started, if_pos more]
            refine .of_effective ?_ rfl
            rw [Decoder.effective]
            split
            · rename_i zero
              exact zero.symm
            · rfl

theorem next_data (isData : isData byte = true) : next past byte = (statuses past).getLast?.bind fun status =>
      completed (statuses past).dropLast.getLast? status (dataSince past ++ [byte]) := by
  simp only [next, realTime_of_data isData, Bool.false_eq_true, if_false, statuses_data isData, dataSince_data isData]

theorem runningStatus_channel (running : runningStatus past ≠ 0) :
    messageLength (runningStatus past) = 2 ∨ messageLength (runningStatus past) = 3 := by
  unfold runningStatus at running ⊢
  split
  · rename_i status last
    rw [last] at running
    simp only at running
    split
    · rename_i channel
      have member := List.mem_of_mem_filter (List.mem_of_getLast? last)
      rw [statuses, List.mem_filter] at member
      exact messageLength_channel (by simpa using (Bool.and_eq_true_iff.mp member.2).1) channel
    · rename_i system
      exact absurd (if_neg system) running
  · rename_i none
    rw [none] at running
    exact absurd rfl running

theorem group_full {size : Nat} (some : size = 1 ∨ size = 2) (data : List UInt8) (byte : UInt8) :
    ((data ++ [byte]).length % size = 0 ↔ (group size data).length + 1 = size) ∧
      ((group size data).length + 1 = size →
        (data ++ [byte]).drop ((data ++ [byte]).length - size) = group size data ++ [byte]) ∧
      (group size data).length + 1 ≤ size := by
  rw [group_length, List.length_append, List.length_singleton]
  refine ⟨by rcases some with rfl | rfl <;> omega, fun full => ?_, by rcases some with rfl | rfl <;> omega⟩
  have same : data.length + 1 - size = data.length - data.length % size := by
    rcases some with rfl | rfl <;> omega
  rw [same, group, List.drop_append_of_le_length (Nat.sub_le ..)]

theorem taken_group (byte : UInt8) (h : Held d status (group (messageLength status - 1) data))
    (length : messageLength status = 2 ∨ messageLength status = 3) (running : d.runningStatus = status) :
    (decodeData d byte).1.sysex = d.sysex ∧ (decodeData d byte).1.runningStatus = d.runningStatus ∧
      Held (decodeData d byte).1 status (group (messageLength status - 1) (data ++ [byte])) ∧
        (decodeData d byte).2.emitted =
          if (group (messageLength status - 1) data).length + 2 = messageLength status then
            some (message status (group (messageLength status - 1) data ++ [byte]))
          else none := by
  have size : messageLength status - 1 = 1 ∨ messageLength status - 1 = 2 := by omega
  obtain ⟨-, -, short⟩ := group_full size data byte
  obtain ⟨sysex, same, taken⟩ := decodeData_taken byte h (by omega) (by omega)
  refine ⟨sysex, same, ?_⟩
  rw [group_concat size]
  split at taken
  · rename_i more
    rw [if_neg (by omega), if_neg (by omega), taken.1]
    exact ⟨taken.2, rfl⟩
  · rename_i full
    rw [if_pos (by omega), if_pos (by omega), taken.1, ← running]
    exact ⟨taken.2, rfl⟩

theorem decodeByte_data (isD : isData byte = true) (outside : d.sysex = false) :
    decodeByte d byte = decodeData d byte := by
  have low : ¬byte ≥ 0xf8 := of_decide_eq_false (realTime_of_data isD)
  have same : { d with sysex := false } = d := by rw [← outside]
  simp only [decodeByte, if_neg low, outside, Bool.false_eq_true, false_and, if_false, same,
    isData_iff.mp isD, ne_eq, not_true_eq_false]

/-- The byte keeps the decoder with the grammar: it completes the same message, or a stray one. -/
structure Matches (d : Decoder) (past : List UInt8) (byte : UInt8) : Prop where
  follows : Follows (decodeByte d byte).1 (past ++ [byte])
  stray : Stray past byte → next past byte = none ∧ (decodeByte d byte).2.emitted ≠ none
  agrees : ¬Stray past byte → (decodeByte d byte).2.emitted = next past byte

section
variable (h : Follows d past)
include h

section
variable (isD : isData byte = true)
include isD

theorem Follows.ignored (outside : d.sysex = false)
    (now : pending past = (0, [])) (later : pending (past ++ [byte]) = (0, []))
    (running : runningStatus past = 0) (silent : next past byte = none) : Matches d past byte := by
  have held := h.held
  rw [now] at held
  have acted := decodeData_ignored byte held rfl
  have decoded := decodeByte_data isD outside
  refine ⟨⟨?_, ?_, ?_⟩, fun stray => absurd running stray.2.2.1, fun _ => ?_⟩
  · rw [decoded, acted, statuses_data isD]
    exact h.sysex
  · rw [decoded, acted, runningStatus_congr (statuses_data isD)]
    exact h.running
  · rw [decoded, acted, later]
    exact .of_effective (h.running.trans running) rfl
  · rw [decoded, acted, silent]
    rfl

theorem Follows.channelByte (outside : d.sysex = false)
    (last : (statuses past).getLast? = some status) (channel : status < 0xf0) : Matches d past byte := by
  have notData : isData status = false := by
    have member := List.mem_of_getLast? last
    rw [statuses, List.mem_filter] at member
    simpa using (Bool.and_eq_true_iff.mp member.2).1
  have length := messageLength_channel notData channel
  have now : pending past = (status, group (messageLength status - 1) (dataSince past)) := by
    simp only [pending, last, if_pos channel]
  have later : pending (past ++ [byte]) =
      (status, group (messageLength status - 1) (dataSince past ++ [byte])) := by
    simp only [pending, statuses_data isD, dataSince_data isD, last, if_pos channel]
  have running : runningStatus past = status := by
    rw [runningStatus_last last (undefined_channel channel), if_pos channel]
  have held : Held d status (group (messageLength status - 1) (dataSince past)) := by
    have held := h.held
    rwa [now] at held
  obtain ⟨sysex, same, held', emitted⟩ := taken_group byte held length (h.running.trans running)
  have decoded := decodeByte_data isD outside
  refine ⟨⟨?_, ?_, ?_⟩, fun stray => ?_, fun _ => ?_⟩
  · rw [decoded, sysex, statuses_data isD]
    exact h.sysex
  · rw [decoded, same, runningStatus_congr (statuses_data isD)]
    exact h.running
  · rw [decoded, later]
    exact held'
  · have undef := stray.2.1
    rw [last, any_some, undefined_channel channel] at undef
    cases undef
  · obtain ⟨full, eq, -⟩ := @group_full (messageLength status - 1) (by omega) (dataSince past) byte
    rw [decoded, emitted, next_data isD, last, bind_some, completed, if_pos channel]
    by_cases complete : (group (messageLength status - 1) (dataSince past)).length + 1 = messageLength status - 1
    · rw [if_pos (by omega), if_pos ⟨by simp, full.mpr complete⟩, eq complete]
    · rw [if_neg (by omega), if_neg fun both => complete (full.mp both.2)]

theorem Follows.undefinedByte (outside : d.sysex = false)
    (last : (statuses past).getLast? = some status) (undef : undefined status = true)
    (running : runningStatus past ≠ 0) : Matches d past byte := by
  have known : status = 0xf4 ∨ status = 0xf5 := by simpa [undefined] using undef
  have system : ¬status < 0xf0 := by rcases known with rfl | rfl <;> decide
  have none : messageLength status = 0 := by rcases known with rfl | rfl <;> decide
  have length := runningStatus_channel running
  have now : pending past =
      (runningStatus past, group (messageLength (runningStatus past) - 1) (dataSince past)) := by
    simp only [pending, last, if_neg system, if_pos (And.intro undef running)]
  have later : pending (past ++ [byte]) =
      (runningStatus past, group (messageLength (runningStatus past) - 1) (dataSince past ++ [byte])) := by
    simp only [pending, statuses_data isD, dataSince_data isD, last, if_neg system,
      runningStatus_congr (statuses_data isD), if_pos (And.intro undef running)]
  have silent : next past byte = Option.none := by
    rw [next_data isD, last, bind_some, completed, if_neg system, if_pos none]
  have held : Held d (runningStatus past) (group (messageLength (runningStatus past) - 1) (dataSince past)) := by
    have held := h.held
    rwa [now] at held
  obtain ⟨sysex, same, held', emitted⟩ := taken_group byte held length h.running
  have decoded := decodeByte_data isD outside
  refine ⟨⟨?_, ?_, ?_⟩, fun stray => ⟨silent, ?_⟩, fun calm => ?_⟩
  · rw [decoded, sysex, statuses_data isD]
    exact h.sysex
  · rw [decoded, same, runningStatus_congr (statuses_data isD)]
    exact h.running
  · rw [decoded, later]
    exact held'
  · rw [decoded, emitted, if_pos stray.2.2.2]
    exact some_ne_none _
  · have short : ¬(group (messageLength (runningStatus past) - 1) (dataSince past)).length + 2 =
        messageLength (runningStatus past) := fun full =>
      calm ⟨isD, by rw [last]; exact undef, running, full⟩
    rw [decoded, emitted, if_neg short, silent]

theorem Follows.systemByte (outside : d.sysex = false)
    (last : (statuses past).getLast? = some status) (system : ¬status < 0xf0)
    (calm : ¬(undefined status = true ∧ runningStatus past ≠ 0)) : Matches d past byte := by
  have realTime : isRealTime status = false := by
    have member := List.mem_of_getLast? last
    rw [statuses, List.mem_filter] at member
    simpa using (Bool.and_eq_true_iff.mp member.2).2
  have short : messageLength status ≤ 3 := by
    have every : ∀ s ∈ [0xf0, 0xf1, 0xf2, 0xf3, 0xf4, 0xf5, 0xf6, (0xf7 : UInt8)], messageLength s ≤ 3 := by decide
    exact every status (system_cases system realTime)
  have running : runningStatus past = 0 := by
    by_cases undef : undefined status = true
    · exact not_not.mp fun running => calm ⟨undef, running⟩
    · rw [runningStatus_last last (by simpa using undef), if_neg system]
  have now : pending past =
      if (dataSince past).length + 1 < messageLength status then (status, dataSince past) else (0, []) := by
    simp only [pending, last, if_neg system, if_neg calm]
  have later : pending (past ++ [byte]) =
      if (dataSince past).length + 2 < messageLength status then (status, dataSince past ++ [byte])
      else (0, []) := by
    simp only [pending, statuses_data isD, dataSince_data isD, last, if_neg system,
      runningStatus_congr (statuses_data isD), if_neg calm, List.length_append, List.length_singleton]
  have gives : next past byte =
      if (dataSince past).length + 2 = messageLength status then some (message status (dataSince past ++ [byte]))
      else none := by
    rw [next_data isD, last, bind_some, completed, if_neg system, List.length_append, List.length_singleton]
    by_cases none : messageLength status = 0
    · rw [if_pos none, if_neg (by omega)]
    · rw [if_neg none]
      by_cases ends : status = 0xf7
      · have one : messageLength status = 1 := ends ▸ rfl
        rw [one, if_neg (by omega : ¬(dataSince past).length + 1 = 1 - 1),
          if_neg (by omega : ¬(dataSince past).length + 2 = 1), ite_self]
      · rw [if_neg fun both => ends both.1]
        by_cases full : (dataSince past).length + 2 = messageLength status
        · rw [if_pos full, if_pos (by omega)]
        · rw [if_neg full, if_neg (by omega)]
  by_cases room : (dataSince past).length + 1 < messageLength status
  · have held : Held d status (dataSince past) := by
      have held := h.held
      rwa [now, if_pos room] at held
    obtain ⟨sysex, same, taken⟩ := decodeData_taken byte held room short
    have decoded := decodeByte_data isD outside
    have held' : Held (decodeByte d byte).1 (pending (past ++ [byte])).1 (pending (past ++ [byte])).2 := by
      rw [decoded, later]
      split at taken
      · rename_i more
        rw [if_pos more]
        exact taken.2
      · rename_i full
        rw [if_neg full, ← running, ← h.running]
        exact taken.2
    refine ⟨⟨?_, ?_, held'⟩, fun stray => absurd running stray.2.2.1, fun _ => ?_⟩
    · rw [decoded, sysex, statuses_data isD]
      exact h.sysex
    · rw [decoded, same, runningStatus_congr (statuses_data isD)]
      exact h.running
    · rw [decoded, gives]
      split at taken
      · rename_i more
        rw [if_neg (by omega), taken.1]
        rfl
      · rename_i full
        rw [if_pos (by omega), taken.1]
        rfl
  · rw [if_neg room] at now
    rw [if_neg (by omega)] at later gives
    exact h.ignored isD outside now later running gives

theorem Follows.dataByte : Matches d past byte := by
  cases inside : d.sysex with
  | true =>
    have last := h.sysex.mp inside
    have low : ¬byte ≥ 0xf8 := of_decide_eq_false (realTime_of_data isD)
    have notEnd : byte ≠ 0xf7 := by
      rintro rfl
      exact absurd isD (by decide)
    have kept : decodeByte d byte = (d, .none) := by
      simp only [decodeByte, if_neg low, inside, notEnd, and_false, if_false, isData_iff.mp isD, and_self, if_true]
    have running : runningStatus past = 0 := runningStatus_last last (by decide)
    have held := h.held
    rw [pending_exclusive last] at held
    refine ⟨⟨?_, ?_, ?_⟩, fun stray => absurd running stray.2.2.1, fun _ => ?_⟩
    · rw [kept, statuses_data isD]
      exact h.sysex
    · rw [kept, runningStatus_congr (statuses_data isD)]
      exact h.running
    · rw [kept, pending_exclusive (by rwa [statuses_data isD])]
      exact held
    · rw [kept, next_data isD, last]
      rfl
  | false =>
    cases last : (statuses past).getLast? with
    | none =>
      have empty : statuses past = [] := List.getLast?_eq_none_iff.mp last
      refine h.ignored isD inside ?_ ?_ ?_ ?_
      · simp only [pending, last]
      · simp only [pending, statuses_data isD, last]
      · simp only [runningStatus, empty, List.filter_nil, List.getLast?_nil]
      · rw [next_data isD, last, bind_none]
    | some status =>
      by_cases channel : status < 0xf0
      · exact h.channelByte isD inside last channel
      · by_cases stale : undefined status = true ∧ runningStatus past ≠ 0
        · exact h.undefinedByte isD inside last stale.1 stale.2
        · exact h.systemByte isD inside last channel stale

end

end

end SolarOs.Midi

/-! Whole streams: the decoder gives the messages of the grammar exactly when no undefined
status byte should have cancelled a running status that data bytes then use. -/
namespace SolarOs.Midi
open Grammar Option

variable {d : Decoder} {past : List UInt8} {byte : UInt8}

theorem Follows.step (h : Follows d past) (byte : UInt8) : Matches d past byte := by
  cases isD : isData byte with
  | true => exact h.dataByte isD
  | false =>
    have calm : ¬Stray past byte := fun stray => by
      have data := stray.1
      rw [isD] at data
      cases data
    cases realTime : isRealTime byte with
    | true =>
      obtain ⟨follows, same⟩ := h.realTimeByte realTime
      exact ⟨follows, fun stray => absurd stray calm, fun _ => same⟩
    | false =>
      obtain ⟨follows, same⟩ := h.statusByte isD realTime
      exact ⟨follows, fun stray => absurd stray calm, fun _ => same⟩

def Clear (past : List UInt8) : Prop :=
  (statuses past).getLast?.any undefined = true → runningStatus past ≠ 0 →
    (dataSince past).length + 1 < messageLength (runningStatus past)

theorem group_of_lt {size : Nat} {data : List UInt8} (short : data.length < size) : group size data = data := by
  rw [group, Nat.mod_eq_of_lt short, Nat.sub_self, List.drop_zero]

theorem Clear.stray_iff (h : Clear past) : Stray past byte ↔ Uncancelled (past ++ [byte]) := by
  constructor
  · rintro ⟨isD, undef, running, full⟩
    have room := h undef running
    rw [group_of_lt (by omega)] at full
    refine ⟨by rwa [statuses_data isD], ?_, ?_⟩
    · rwa [runningStatus_congr (statuses_data isD)]
    · rw [runningStatus_congr (statuses_data isD), dataSince_data isD, List.length_append, List.length_singleton]
      omega
  · rintro ⟨undef, running, full⟩
    cases isD : isData byte with
    | true =>
      rw [statuses_data isD] at undef
      rw [runningStatus_congr (statuses_data isD)] at running full
      rw [dataSince_data isD, List.length_append, List.length_singleton] at full
      have length := runningStatus_channel running
      refine ⟨isD, undef, running, ?_⟩
      rw [group_of_lt (by omega)]
      omega
    | false =>
      cases realTime : isRealTime byte with
      | true =>
        rw [statuses_realTime realTime] at undef
        rw [runningStatus_congr (statuses_realTime realTime)] at running full
        rw [dataSince_realTime realTime] at full
        have room := h undef running
        omega
      | false =>
        have length := runningStatus_channel running
        rw [dataSince_status isD realTime, List.length_nil] at full
        omega

theorem Clear.step (h : Clear past) (calm : ¬Uncancelled (past ++ [byte])) : Clear (past ++ [byte]) := by
  intro undef running
  have short : (dataSince (past ++ [byte])).length ≠ messageLength (runningStatus (past ++ [byte])) - 1 :=
    fun full => calm ⟨undef, running, full⟩
  have length := runningStatus_channel running
  cases isD : isData byte with
  | true =>
    rw [statuses_data isD] at undef
    rw [runningStatus_congr (statuses_data isD)] at running short ⊢
    rw [dataSince_data isD, List.length_append, List.length_singleton] at short ⊢
    have room := h undef running
    omega
  | false =>
    cases realTime : isRealTime byte with
    | true =>
      rw [statuses_realTime realTime] at undef
      rw [runningStatus_congr (statuses_realTime realTime)] at running ⊢
      rw [dataSince_realTime realTime]
      exact h undef running
    | false =>
      rw [dataSince_status isD realTime, List.length_nil]
      omega

theorem length_messagesAfter_le (h : Follows d past) (bytes : List UInt8) :
    (messagesAfter past bytes).length ≤ (decode d bytes).length := by
  induction bytes generalizing d past with
  | nil => exact Nat.le_refl 0
  | cons byte bytes ih =>
    have now := h.step byte
    have later := ih now.follows
    rw [messagesAfter, decode, List.length_append, List.length_append]
    by_cases stray : Stray past byte
    · rw [(now.stray stray).1, toList_none, List.length_nil]
      omega
    · rw [now.agrees stray]
      omega

theorem decode_eq_iff (h : Follows d past) (clear : Clear past) (bytes : List UInt8) :
    decode d bytes = messagesAfter past bytes ↔ ∀ n, ¬Uncancelled (past ++ bytes.take n) := by
  have start : ¬Uncancelled past := fun ⟨undef, running, full⟩ => by
    have room := clear undef running
    omega
  induction bytes generalizing d past with
  | nil => simpa [decode, messagesAfter] using start
  | cons byte bytes ih =>
    have now := h.step byte
    rw [decode, messagesAfter]
    by_cases stray : Stray past byte
    · -- the decoder gives a message more than the grammar
      have uncancelled := clear.stray_iff.mp stray
      obtain ⟨silent, some⟩ := now.stray stray
      refine iff_of_false (fun same => ?_) fun never => never 1 (by simpa using uncancelled)
      obtain ⟨m, emitted⟩ := ne_none_iff_exists'.mp some
      have longer := length_messagesAfter_le now.follows bytes
      have lengths := congrArg List.length same
      rw [silent, emitted, toList_none, toList_some, List.nil_append, List.length_append,
        List.length_singleton] at lengths
      omega
    · have calm : ¬Uncancelled (past ++ [byte]) := fun uncancelled => stray (clear.stray_iff.mpr uncancelled)
      rw [now.agrees stray, List.append_cancel_left_eq]
      refine (ih now.follows (clear.step calm) calm).trans ?_
      constructor
      · intro later n
        cases n with
        | zero => simpa using start
        | succ n => simpa using later n
      · intro all n
        simpa using all (n + 1)

/-- The decoder gives exactly the messages of the grammar when no undefined status byte is
followed by the data bytes of a message of the running status before it. -/
theorem decoding_follows_grammar (stream : List UInt8) :
    decode .reset stream = messages stream ↔ ∀ n, ¬Uncancelled (stream.take n) := by
  have clear : Clear [] := by
    intro undef
    cases undef
  exact decode_eq_iff reset_follows clear stream

def staleRunningStatus : List UInt8 := [0x90, 60, 100, 0xf4, 61, 101]

theorem stale_note : decode .reset staleRunningStatus = [⟨0x90, 60, 100, 3⟩, ⟨0x90, 61, 101, 3⟩] ∧
      messages staleRunningStatus = [⟨0x90, 60, 100, 3⟩] := by
  decide

end SolarOs.Midi
