import SolarOs.Inbox.Stored

/-! Every write of the store leaves a file that holds the new state. -/
namespace SolarOs.Inbox
open Program Function

variable {s : State} {file : StoreFile}

section
variable (file : StoreFile)

@[simp] theorem putRecord_headers (index : Nat) (landed : Landed) (slot : Slot) :
    (file.putRecord index landed slot).headers = file.headers := rfl

theorem putRecord_self (index : Nat) (slot : Slot) :
    (file.putRecord index .new slot).records index = some slot := update_self _ _ _

theorem putRecord_of_ne {index place : Nat} (h : place ≠ index) (landed : Landed)
    (slot : Slot) : (file.putRecord index landed slot).records place = file.records place :=
  update_of_ne h _ _

theorem putHeader_self (copy : Nat) (header : Header) :
    (file.putHeader copy .new header).headers copy = some header := update_self _ _ _

theorem putHeader_of_ne {copy other : Nat} (h : other ≠ copy) (landed : Landed)
    (header : Header) : (file.putHeader copy landed header).headers other = file.headers other :=
  update_of_ne h _ _

end

theorem putRecord_sized (large : recordsOffset ≤ file.size) (small : file.size ≤ storeMaxBytes)
    {index : Nat} (inside : index < capacity) (landed : Landed) (slot : Slot) :
    recordsOffset ≤ (file.putRecord index landed slot).size ∧
      (file.putRecord index landed slot).size ≤ storeMaxBytes := by
  have fits : recordsOffset + (index + 1) * recordBytes ≤ storeMaxBytes := by
    unfold storeMaxBytes
    exact Nat.add_le_add_left (Nat.mul_le_mul_right recordBytes (Nat.succ_le_of_lt inside)) _
  unfold StoreFile.putRecord
  dsimp only
  split
  · exact ⟨large, small⟩
  · omega

theorem putHeader_sized (large : recordsOffset ≤ file.size) (small : file.size ≤ storeMaxBytes)
    {copy : Nat} (inside : copy < 2) (landed : Landed) (header : Header) :
    recordsOffset ≤ (file.putHeader copy landed header).size ∧
      (file.putHeader copy landed header).size ≤ storeMaxBytes := by
  have fits : (copy + 1) * headerBytes ≤ recordsOffset := Nat.mul_le_mul_right headerBytes (Nat.succ_le_of_lt inside)
  unfold StoreFile.putHeader
  dsimp only
  split
  · exact ⟨large, small⟩
  · omega

theorem Stored.modify (h : Stored s file) {i : Nat} (hi : i < s.ring.count) (f : Slot → Slot)
    (unread : Nat) (storageError : EspErr) : Stored { s with ring := s.ring.modify i f, unread, storageError }
      (file.putRecord (s.ring.index i) .new (f (s.ring.entry i))) := by
  have inside : s.ring.index i < capacity := Nat.mod_lt _ (by decide)
  obtain ⟨large, small⟩ := putRecord_sized h.large h.small inside .new (f (s.ring.entry i))
  refine ⟨large, small, h.current, ?_, ?_⟩
  · intro header hheader
    rcases h.other header hheader with same | older
    · exact .inl same
    · exact .inr ⟨older.word, older.recent, older.shorter⟩
  · intro j hj
    show (file.putRecord (s.ring.index i) .new (f (s.ring.entry i))).records (s.ring.index j) =
      some ((s.ring.modify i f).entry j)
    have hj' : j < s.ring.count := hj
    rw [s.ring.entry_modify hi hj' f]
    by_cases here : i = j
    · rw [if_pos here, here]
      exact putRecord_self _ _ _
    · have count := s.ring.count_le
      have apart : s.ring.index j ≠ s.ring.index i := by
        intro clash
        exact here (Eq.symm <| s.ring.index_inj (lt_of_lt_of_le hj' count) (lt_of_lt_of_le hi count) clash)
      rw [if_neg here, putRecord_of_ne file apart]
      exact h.records j hj'

theorem successor_cases (h : s.generation < 2 ^ 32) :
    (successor s.generation = s.generation + 1 ∧ s.generation + 1 < 2 ^ 32) ∨
      (s.generation = 2 ^ 32 - 1 ∧ successor s.generation = 1) := by
  unfold successor
  split
  · rename_i wraps
    exact .inr ⟨by omega, rfl⟩
  · exact .inl ⟨rfl, by omega⟩

theorem successor_pos (value : Nat) : 0 < successor value := by
  unfold successor
  split <;> omega

theorem successor_lt {value : Nat} (h : value < 2 ^ 32) : successor value < 2 ^ 32 := by
  unfold successor
  split
  · decide
  · omega

/-- A message joins the ring, and its record and a new header join the file. -/
theorem Stored.push (h : Stored s file) (regular : Regular s) (slot : Slot)
    (unread nextId dropped : Nat) (storageError : EspErr) {s' : State} (hs' : s' = { s with
      ring := s.ring.push slot, unread, nextId, dropped, generation := successor s.generation, storageError }) :
    Stored s' ((file.putRecord s.ring.head .new slot).putHeader (successor s.generation % 2) .new
      (makeHeader s' (successor s.generation))) := by
  have copy : successor s.generation % 2 < 2 := Nat.mod_lt _ (by decide)
  obtain ⟨large, small⟩ := putRecord_sized h.large h.small s.ring.head_lt .new slot
  obtain ⟨large, small⟩ := putHeader_sized large small copy .new (makeHeader s' (successor s.generation))
  have generation : s'.generation = successor s.generation := by rw [hs']
  have ring : s'.ring = s.ring.push slot := by rw [hs']
  have longer : s.ring.count < s'.ring.count ∨ s'.ring.count = capacity := by
    rw [ring]
    by_cases room : s.ring.count < capacity
    · left
      rw [show (s.ring.push slot).count = s.ring.count + 1 from if_pos room]
      exact Nat.lt_succ_self _
    · right
      rw [show (s.ring.push slot).count = s.ring.count from if_neg room]
      exact le_antisymm s.ring.count_le (Nat.le_of_not_lt room)
  refine ⟨large, small, ?_, ?_, ?_⟩
  · rw [generation]
    exact putHeader_self _ _ _
  · rw [generation]
    intro header hheader
    have apart : (successor s.generation + 1) % 2 ≠ successor s.generation % 2 := by omega
    rw [putHeader_of_ne _ apart, putRecord_headers] at hheader
    right
    rcases successor_cases regular.generation_lt with ⟨next, -⟩ | ⟨last, wraps⟩
    · have place : (successor s.generation + 1) % 2 = s.generation % 2 := by
        rw [next]
        omega
      rw [place, h.current] at hheader
      cases hheader
      refine ⟨regular.generation_lt, .inl ?_, longer⟩
      rw [generation, next]
      show (s.generation + 1 + 2 ^ 32 - s.generation) % 2 ^ 32 = 1
      omega
    · have place : (successor s.generation + 1) % 2 = (s.generation + 1) % 2 := by omega
      rw [place] at hheader
      rcases h.other header hheader with same | older
      · refine ⟨same ▸ regular.generation_lt, .inr ?_, ?_⟩
        · rw [generation, wraps, same]
          show 1 = 1 ∧ 1 ≤ (1 + 2 ^ 32 - s.generation) % 2 ^ 32 ∧ (1 + 2 ^ 32 - s.generation) % 2 ^ 32 ≤ 3
          rw [last]
          decide
        · rw [same]
          exact longer
      · have near : age s.generation header.generation = 1 := by
          rcases older.recent with one | ⟨first, -⟩
          · exact one
          · omega
        have word := older.word
        refine ⟨word, .inr ?_, ?_⟩
        · rw [generation, wraps]
          rw [last] at near
          unfold age at near ⊢
          omega
        · rcases older.shorter with less | full
          · rcases longer with more | full
            · exact .inl (lt_trans less more)
            · exact .inr full
          · right
            -- a full ring stays full
            rw [ring]
            show (if s.ring.count < capacity then s.ring.count + 1 else s.ring.count) = capacity
            rw [if_neg (Nat.not_lt_of_le (le_of_eq full.symm)), full]
  · intro i hi
    rw [ring] at hi ⊢
    show (file.putRecord s.ring.head .new slot).records ((s.ring.push slot).index i) =
      some (update s.ring.slots s.ring.head slot ((s.ring.push slot).index i))
    by_cases here : (s.ring.push slot).index i = s.ring.head
    · rw [here, putRecord_self, update_self]
    · rcases s.ring.index_push slot hi with head | ⟨j, hj, same⟩
      · exact absurd head here
      · rw [putRecord_of_ne file here, update_of_ne here, same]
        exact h.records j hj

theorem resetFile_headers (s : State) (copy : Nat) (h : copy < 2) :
    (resetFile s).headers copy = some (makeHeader s (successor s.generation)) := by
  match copy, h with
  | 0, _ => rfl
  | 1, _ => rfl

theorem putRecords_headers (s : State) (entries : List Nat) (file : StoreFile) :
    (file.putRecords s entries).headers = file.headers := by
  induction entries generalizing file with
  | nil => rfl
  | cons i entries ih => exact ih _

theorem putRecords_sized (s : State) (entries : List Nat) (large : recordsOffset ≤ file.size)
    (small : file.size ≤ storeMaxBytes) :
    recordsOffset ≤ (file.putRecords s entries).size ∧ (file.putRecords s entries).size ≤ storeMaxBytes := by
  induction entries generalizing file with
  | nil => exact ⟨large, small⟩
  | cons i entries ih =>
    have inside : s.ring.index i < capacity := Nat.mod_lt _ (by decide)
    obtain ⟨large, small⟩ := putRecord_sized large small inside .new (s.ring.entry i)
    exact ih large small

theorem putRecords_records (s : State) (entries : List Nat) (file : StoreFile) {i : Nat}
    (h : i ∈ entries ∨ file.records (s.ring.index i) = some (s.ring.entry i)) :
    (file.putRecords s entries).records (s.ring.index i) = some (s.ring.entry i) := by
  induction entries generalizing file with
  | nil =>
    rcases h with no | there
    · cases no
    · exact there
  | cons j entries ih =>
    apply ih
    by_cases here : s.ring.index i = s.ring.index j
    · right
      have same : s.ring.entry i = s.ring.entry j := congrArg s.ring.slots here
      rw [here, same]
      exact putRecord_self _ _ _
    · rcases h with mem | there
      · rcases List.mem_cons.mp mem with first | rest
        · exact absurd (congrArg s.ring.index first) here
        · exact .inl rest
      · right
        rw [putRecord_of_ne file here]
        exact there

theorem Stored.rewritten (s : State) {s' : State} (hs' : s' = { s with
      generation := successor s.generation, persistent := true, storageError := .ok }) :
    Stored s' (rewrittenFile s) := by
  have size : (resetFile s).size = recordsOffset := rfl
  have fits : recordsOffset ≤ storeMaxBytes := Nat.le_add_right _ _
  obtain ⟨large, small⟩ := putRecords_sized s (List.range s.ring.count) (le_of_eq size.symm) (size ▸ fits)
  subst hs'
  refine ⟨large, small, ?_, ?_, ?_⟩
  · show ((resetFile s).putRecords s (List.range s.ring.count)).headers _ = _
    rw [putRecords_headers]
    exact resetFile_headers s _ (Nat.mod_lt _ (by decide))
  · intro header hheader
    have copies : (rewrittenFile s).headers ((successor s.generation + 1) % 2) =
        some (makeHeader s (successor s.generation)) := by
      show ((resetFile s).putRecords s (List.range s.ring.count)).headers _ = _
      rw [putRecords_headers]
      exact resetFile_headers s _ (Nat.mod_lt _ (by decide))
    left
    exact (Option.some.inj (copies.symm.trans hheader)).symm
  · intro i hi
    exact putRecords_records s _ _ (.inl (List.mem_range.mpr hi))

theorem Stored.reset {s : State} (empty : s.ring.count = 0) {s' : State} (hs' : s' = { s with
      generation := successor s.generation, persistent := true, storageError := .ok }) :
    Stored s' (resetFile s) := by
  have rewritten := Stored.rewritten s hs'
  have same : rewrittenFile s = resetFile s := by
    rw [rewrittenFile, empty, List.range_zero, StoreFile.putRecords, List.foldl_nil]
  rwa [same] at rewritten

end SolarOs.Inbox
