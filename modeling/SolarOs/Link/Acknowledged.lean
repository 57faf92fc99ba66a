import SolarOs.Link.SlotsKept

/-! Acknowledgements at the sender: a message whose acknowledgement was ingested is not pending any
more and was counted, as long as no acknowledgement comes before its message is recorded and the
pending table has room. -/
namespace SolarOs.Link
open Program List

/-- The messages that wait for their acknowledgement, and how many have got it. -/
structure Ledger where
  waiting : List Key
  received : Nat
  deriving DecidableEq

def Ledger.note (ledger : Ledger) : Note → Ledger
  | .sent key => { ledger with waiting := ledger.waiting.insert key }
  | .acknowledged key =>
    if key ∈ ledger.waiting then ⟨ledger.waiting.filter (· ≠ key), ledger.received + 1⟩ else ledger

def Ledger.after (history : List Note) : Ledger := history.foldl Ledger.note ⟨[], 0⟩

theorem Ledger.after_snoc (history : List Note) (note : Note) :
    Ledger.after (history ++ [note]) = (Ledger.after history).note note := by
  rw [Ledger.after, foldl_append]
  rfl

variable {ledger : Ledger}

theorem Ledger.mem_sent {key key' : Key} :
    key' ∈ (ledger.note (.sent key)).waiting ↔ key' = key ∨ key' ∈ ledger.waiting := mem_insert_iff

theorem Ledger.note_present {key : Key} (there : key ∈ ledger.waiting) :
    ledger.note (.acknowledged key) = ⟨ledger.waiting.filter (· ≠ key), ledger.received + 1⟩ := if_pos there

theorem Ledger.note_absent {key : Key} (absent : key ∉ ledger.waiting) :
    ledger.note (.acknowledged key) = ledger := if_neg absent

theorem Ledger.mem_acknowledged {key key' : Key} :
    key' ∈ (ledger.note (.acknowledged key)).waiting ↔ key' ≠ key ∧ key' ∈ ledger.waiting := by
  by_cases there : key ∈ ledger.waiting
  · rw [note_present there, mem_filter, decide_eq_true_eq, and_comm]
  · rw [note_absent there]
    exact ⟨fun member => ⟨fun same => there (same ▸ member), member⟩, fun both => both.2⟩

/-- Every active entry of the table is of a message that waits, and what was received was counted. -/
structure Acknowledged (slot : LinkInstance) : Prop where
  settled : ∀ entry ∈ slot.pending, entry.active = true →
    (⟨entry.destination, entry.sequence⟩ : Key) ∈ (Ledger.after slot.history).waiting
  counted : slot.status.acknowledgementsReceived = UInt32.ofNat (Ledger.after slot.history).received

/-- An acknowledgement is looked at after the message it is for was recorded; a message is recorded
while an entry of the table is free, and none is there for a message with its number. -/
def Prompt {α : Type} : Op α → Links → Bool → Prop
  | .examine r message, s, _ =>
    message.destination = (s.slots r.index).localId ∨ message.destination = broadcast →
      message.type = .acknowledgement → ⟨message.source, message.sequence⟩ ∉ (s.slots r.index).unrecorded
  | .recordSend r message ret, s, _ => ret = .ok → message.asks = true →
    (∃ entry ∈ (s.slots r.index).pending, entry.active = false) ∧
      ∀ entry ∈ (s.slots r.index).pending, entry.active = true →
        (⟨entry.destination, entry.sequence⟩ : Key) ≠ message.key
  | _, _, _ => True

def activeKeys (pending : List LinkPending) : List Key :=
  (pending.filter (·.active)).map fun entry => ⟨entry.destination, entry.sequence⟩

theorem mem_activeKeys {pending : List LinkPending} {key : Key} : key ∈ activeKeys pending ↔
    ∃ entry ∈ pending, entry.active = true ∧ (⟨entry.destination, entry.sequence⟩ : Key) = key := by
  unfold activeKeys
  simp only [mem_map, mem_filter, and_assoc]

theorem activeKeys_append (first second : List LinkPending) :
    activeKeys (first ++ second) = activeKeys first ++ activeKeys second := by
  unfold activeKeys
  rw [filter_append, map_append]

theorem activeKeys_active {entry : LinkPending} (active : entry.active = true) (pending : List LinkPending) :
    activeKeys (entry :: pending) = ⟨entry.destination, entry.sequence⟩ :: activeKeys pending := by
  unfold activeKeys
  rw [filter_cons_of_pos active, map_cons]

theorem activeKeys_inactive {entry : LinkPending} (inactive : entry.active = false) (pending : List LinkPending) :
    activeKeys (entry :: pending) = activeKeys pending := by
  unfold activeKeys
  rw [filter_cons_of_neg (by rw [inactive]; exact Bool.false_ne_true)]

variable {slot slot' : LinkInstance} {message : Message}

theorem activeKeys_addPending (destination : UInt32) (sequence : UInt16)
    (free : ∃ entry ∈ slot.pending, entry.active = false) :
    (activeKeys (slot.addPending destination sequence).pending).Perm (⟨destination, sequence⟩ :: activeKeys slot.pending) := by
  unfold LinkInstance.addPending
  cases found : slot.pending.findIdx? fun entry => !entry.active with
  | none =>
    obtain ⟨entry, there, inactive⟩ := free
    have not := findIdx?_eq_none_iff.mp found entry there
    rw [inactive] at not
    cases not
  | some i =>
    obtain ⟨short, inactive, -⟩ := findIdx?_eq_some_iff_getElem.mp found
    have inactive : slot.pending[i].active = false := by simpa using inactive
    have parted := set_eq_take_append_cons_drop (l := slot.pending) (i := i) (a := ⟨destination, sequence, true⟩)
    rw [if_pos short] at parted
    have whole : slot.pending = slot.pending.take i ++ slot.pending[i] :: slot.pending.drop (i + 1) := by
      rw [getElem_cons_drop, take_append_drop]
    show (activeKeys (slot.pending.set i _)).Perm _
    rw [parted, activeKeys_append, activeKeys_active rfl]
    conv => rhs; rw [whole, activeKeys_append, activeKeys_inactive inactive]
    exact perm_middle

theorem ackPending_cases (slot : LinkInstance) (message : Message) :
    (⟨message.source, message.sequence⟩ ∉ activeKeys slot.pending ∧ slot.ackPending message = slot) ∨
    ∃ pending, (activeKeys slot.pending).Perm (⟨message.source, message.sequence⟩ :: activeKeys pending) ∧
      slot.ackPending message = { slot with
        pending
        status := { slot.status with acknowledgementsReceived := slot.status.acknowledgementsReceived + 1 } } := by
  unfold LinkInstance.ackPending
  cases found : slot.pending.findIdx? (LinkPending.answers message) with
  | none =>
    refine .inl ⟨fun there => ?_, rfl⟩
    obtain ⟨entry, member, active, same⟩ := mem_activeKeys.mp there
    have not := findIdx?_eq_none_iff.mp found entry member
    obtain ⟨destination, sequence⟩ := Key.mk.inj same
    simp [LinkPending.answers, active, destination, sequence] at not
  | some i =>
    obtain ⟨short, answers, -⟩ := findIdx?_eq_some_iff_getElem.mp found
    refine .inr ⟨_, ?_, rfl⟩
    unfold LinkPending.answers at answers
    simp only [Bool.and_eq_true, decide_eq_true_eq] at answers
    obtain ⟨⟨active, destination⟩, sequence⟩ := answers
    obtain ⟨front, entry, back, whole, length, changed⟩ :=
      exists_of_modify (fun entry : LinkPending => { entry with active := false }) short
    have here : slot.pending[i] = entry := by
      simp only [whole, ← length, getElem_append_right (Nat.le_refl _), Nat.sub_self, getElem_cons_zero]
    rw [here] at active destination sequence
    rw [changed, whole, activeKeys_append, activeKeys_append, activeKeys_active active,
      activeKeys_inactive rfl, destination, sequence]
    exact perm_middle

/-- The table and the sends that are not recorded yet are what waits, each message once. -/
structure Booked (slot : LinkInstance) : Prop where
  waiting : ∀ key, key ∈ (Ledger.after slot.history).waiting ↔ key ∈ activeKeys slot.pending ∨ key ∈ slot.unrecorded
  single : (activeKeys slot.pending).Nodup
  counted : slot.status.acknowledgementsReceived = UInt32.ofNat (Ledger.after slot.history).received

theorem Booked.acknowledged (h : Booked slot) : Acknowledged slot :=
  ⟨fun entry there active => (h.waiting _).mpr (.inl (mem_activeKeys.mpr ⟨entry, there, active, rfl⟩)), h.counted⟩

structure SameBook (slot slot' : LinkInstance) : Prop where
  history : slot'.history = slot.history
  pending : slot'.pending = slot.pending
  unrecorded : slot'.unrecorded = slot.unrecorded
  received : slot'.status.acknowledgementsReceived = slot.status.acknowledgementsReceived

theorem Booked.congr (h : Booked slot) (same : SameBook slot slot') : Booked slot' := by
  refine ⟨?_, ?_, ?_⟩
  · rw [same.history, same.pending, same.unrecorded]
    exact h.waiting
  · rw [same.pending]
    exact h.single
  · rw [same.received, same.history]
    exact h.counted

theorem Booked.sent (h : Booked slot) (key : Key) (history : slot'.history = slot.history ++ [.sent key])
    (unrecorded : slot'.unrecorded = slot.unrecorded ++ [key]) (pending : slot'.pending = slot.pending)
    (status : slot'.status = slot.status) : Booked slot' := by
  refine ⟨?_, ?_, ?_⟩
  · intro key'
    rw [history, Ledger.after_snoc, Ledger.mem_sent, h.waiting, pending, unrecorded, mem_append,
      mem_singleton, or_left_comm, or_comm (a := key' = key)]
  · rw [pending]
    exact h.single
  · rw [status, history, Ledger.after_snoc]
    exact h.counted

theorem addPending_history (slot : LinkInstance) (destination : UInt32) (sequence : UInt16) :
    (slot.addPending destination sequence).history = slot.history ∧
      (slot.addPending destination sequence).status = slot.status := by
  unfold LinkInstance.addPending
  split <;> exact ⟨rfl, rfl⟩

theorem Booked.record (h : Booked slot) (message : Message) (ret : EspErr)
    (clear : ret = .ok → message.asks = true → message.key ∈ slot.unrecorded ∧
      (∃ entry ∈ slot.pending, entry.active = false) ∧ message.key ∉ activeKeys slot.pending) :
    Booked (slot.recordSend message ret) := by
  unfold LinkInstance.recordSend
  split
  · rename_i ok
    split
    · rename_i asks
      obtain ⟨sent, free, new⟩ := clear ok asks
      have added := @activeKeys_addPending { slot with
        status := { slot.status with lastError := ret, txMessages := slot.status.txMessages + 1 } }
        message.destination message.sequence free
      obtain ⟨history, received⟩ := addPending_history { slot with
        status := { slot.status with lastError := ret, txMessages := slot.status.txMessages + 1 } }
        message.destination message.sequence
      refine ⟨fun key => ?_, ?_, ?_⟩
      · rw [history, added.mem_iff, mem_cons, h.waiting]
        by_cases same : key = message.key
        · exact iff_of_true (.inr (same ▸ sent)) (.inl (.inl same))
        · rw [mem_erase_of_ne same]
          exact or_congr_left ⟨.inr, fun either => either.resolve_left same⟩
      · exact added.nodup_iff.mpr (nodup_cons.mpr ⟨new, h.single⟩)
      · rw [history, received]
        exact h.counted
    · exact h.congr ⟨rfl, rfl, rfl, rfl⟩
  · exact h.congr ⟨rfl, rfl, rfl, rfl⟩

theorem Booked.examine (h : Booked slot) (message : Message)
    (recorded : message.destination = slot.localId ∨ message.destination = broadcast →
      message.type = .acknowledgement → ⟨message.source, message.sequence⟩ ∉ slot.unrecorded) :
    Booked (slot.examine message).1 := by
  unfold LinkInstance.examine
  split
  · exact h
  rename_i here
  split
  · rename_i type
    have recorded := recorded (by
      by_contra elsewhere
      exact here (not_or.mp elsewhere)) type
    rcases ackPending_cases slot message with ⟨absent, same⟩ | ⟨pending, taken, same⟩
    · rw [same]
      have ledger : Ledger.after (slot.history ++ [.acknowledged ⟨message.source, message.sequence⟩]) =
          Ledger.after slot.history := by
        rw [Ledger.after_snoc, Ledger.note_absent]
        exact fun waits => ((h.waiting _).mp waits).elim absent recorded
      refine ⟨fun key => ?_, h.single, ?_⟩
      · rw [ledger]
        exact h.waiting key
      · rw [ledger]
        exact h.counted
    · rw [same]
      have single := nodup_cons.mp (taken.nodup_iff.mp h.single)
      have waits : ⟨message.source, message.sequence⟩ ∈ (Ledger.after slot.history).waiting :=
        (h.waiting _).mpr (.inl (taken.mem_iff.mpr mem_cons_self))
      have ledger := Ledger.after_snoc slot.history (.acknowledged ⟨message.source, message.sequence⟩)
      refine ⟨fun key => ?_, single.2, ?_⟩
      · rw [ledger, Ledger.mem_acknowledged, h.waiting, taken.mem_iff, mem_cons]
        constructor
        · rintro ⟨other, (same | active) | unrecorded⟩
          · exact absurd same other
          · exact .inl active
          · exact .inr unrecorded
        · rintro (active | unrecorded)
          · exact ⟨fun same => single.1 (same ▸ active), .inl (.inr active)⟩
          · exact ⟨fun same => recorded (same ▸ unrecorded), .inr unrecorded⟩
      · rw [ledger, Ledger.note_present waits, h.counted]
        exact (UInt32.ofNat_add _ 1).symm
  · dsimp only
    split
    · exact h.congr ⟨rfl, rfl, rfl, rfl⟩
    · exact h

end SolarOs.Link
