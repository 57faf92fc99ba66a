import SolarOs.Writer.Buffer

/-! The text of a gap buffer: moving and growing the gap keep it, and replacing a
span through the gap is a splice. -/
namespace SolarOs.Writer
open ByteMemory EditHistory List Option

def text (b : Buffer) : List UInt8 :=
  match b.data with
  | none => []
  | some data => load data 0 b.gapStart ++ load data b.gapEnd (b.capacity - b.gapEnd)

/-- The gap lies inside the storage, which never exceeds its limit. -/
structure Shaped (b : Buffer) : Prop where
  start_le : b.gapStart ≤ b.gapEnd
  end_le : b.gapEnd ≤ b.capacity
  capacity_le : b.capacity ≤ maxBytes
  none_empty : b.data = none → b.capacity = 0

variable {b b' : Buffer} {offset removeLen need len : Nat} {insert : List UInt8} {g : Grants}

theorem text_some {data : Memory} (h : b.data = some data) :
    text b = load data 0 b.gapStart ++ load data b.gapEnd (b.capacity - b.gapEnd) := by
  rw [text, h]

theorem length_eq (hs : Shaped b) : length b = (text b).length := by
  have hstart := hs.start_le
  have hend := hs.end_le
  cases h : b.data with
  | none => simp [length, text, h]
  | some data =>
    simp only [length, h, isSome_some, if_true, text_some h, length_append, load_length, writerGapSize]
    omega

theorem text_length_le (hs : Shaped b) : (text b).length ≤ maxBytes := by
  have hcapacity := hs.capacity_le
  rw [← length_eq hs, length]
  split <;> omega

structure SameText (b b' : Buffer) : Prop where
  data : b'.data = b.data
  capacity : b'.capacity = b.capacity
  start : b'.gapStart = b.gapStart
  stop : b'.gapEnd = b.gapEnd

theorem SameText.rfl : SameText b b where
  data := Eq.refl _
  capacity := Eq.refl _
  start := Eq.refl _
  stop := Eq.refl _

theorem SameText.trans {b'' : Buffer} (h : SameText b b') (h' : SameText b' b'') : SameText b b'' where
  data := h'.data.trans h.data
  capacity := h'.capacity.trans h.capacity
  start := h'.start.trans h.start
  stop := h'.stop.trans h.stop

theorem SameText.text_eq (h : SameText b b') : text b' = text b := by
  rw [text, text, h.data, h.capacity, h.start, h.stop]

theorem Shaped.congr (hs : Shaped b) (h : SameText b b') : Shaped b' where
  start_le := by rw [h.start, h.stop]; exact hs.start_le
  end_le := by rw [h.stop, h.capacity]; exact hs.end_le
  capacity_le := by rw [h.capacity]; exact hs.capacity_le
  none_empty none := by rw [h.capacity]; exact hs.none_empty (h.data ▸ none)

structure SameUndo (b b' : Buffer) : Prop where
  storage : b'.storage = b.storage
  undo : b'.undo = b.undo
  cursor : b'.undoCursor = b.undoCursor
  payload : b'.undoPayload = b.undoPayload

theorem SameUndo.trans {b'' : Buffer} (h : SameUndo b b') (h' : SameUndo b' b'') : SameUndo b b'' where
  storage := h'.storage.trans h.storage
  undo := h'.undo.trans h.undo
  cursor := h'.cursor.trans h.cursor
  payload := h'.payload.trans h.payload

theorem doubled_spec (need fuel capacity : Nat) (hpos : 0 < capacity) (hcapacity : capacity ≤ maxBytes)
    (hfuel : need ≤ capacity + fuel) : capacity ≤ doubled need fuel capacity ∧
      (need ≤ doubled need fuel capacity ∨ maxBytes ≤ doubled need fuel capacity) := by
  induction fuel generalizing capacity with
  | zero => exact ⟨Nat.le_refl _, .inl (by simpa [doubled] using hfuel)⟩
  | succ fuel ih =>
    unfold doubled
    by_cases more : capacity < need ∧ capacity < maxBytes
    · rw [if_pos more]
      by_cases room : capacity * 2 ≤ maxBytes
      · have next := ih (capacity * 2) (by omega) room (by omega)
        exact ⟨by omega, next.2⟩
      · have stop : doubled need fuel (capacity * 2) = capacity * 2 := by
          cases fuel with
          | zero => rfl
          | succ fuel =>
            rw [doubled, if_neg (by omega)]
        rw [stop]
        exact ⟨by omega, .inr (by omega)⟩
    · rw [if_neg more]
      exact ⟨Nat.le_refl _, by omega⟩

/-- What `writer_reserve` does: nothing, or the same text in storage that is large enough. -/
inductive Reserved (b : Buffer) (need : Nat) (g : Grants) : Buffer × EspErr → Prop
  | enough {b' : Buffer} (shaped : Shaped b') (text_eq : text b' = text b)
      (data : b'.data.isSome = true) (room : need ≤ b'.capacity) (undo : SameUndo b b') :
      Reserved b need g (b', .ok)
  | large (long : maxBytes < need) : Reserved b need g (b, .invalidSize)
  | refused (grant : g.data = false) : Reserved b need g (b, .noMem)

theorem writerReserve_spec (hs : Shaped b) (need : Nat) (g : Grants) : Reserved b need g (writerReserve b need g) := by
  have hstart := hs.start_le
  have hend := hs.end_le
  unfold writerReserve
  by_cases long : maxBytes < need
  · rw [if_pos long]
    exact .large long
  · rw [if_neg long]
    by_cases fits : b.data.isSome ∧ need ≤ b.capacity
    · rw [if_pos fits]
      exact .enough hs rfl fits.1 fits.2 ⟨rfl, rfl, rfl, rfl⟩
    · rw [if_neg fits]
      -- the new capacity covers the old one, the need and the limit
      have first : 0 < (if 0 < b.capacity then b.capacity else initialBytes) ∧
          (if 0 < b.capacity then b.capacity else initialBytes) ≤ maxBytes ∧
          b.capacity ≤ (if 0 < b.capacity then b.capacity else initialBytes) := by
        have hcapacity := hs.capacity_le
        have hinitial : 0 < initialBytes ∧ initialBytes ≤ maxBytes := by decide
        split <;> omega
      generalize (if 0 < b.capacity then b.capacity else initialBytes) = start at first
      have grown := doubled_spec need need start first.1 first.2.1 (by omega)
      generalize doubled need need start = reached at grown
      have target : (if maxBytes < reached then maxBytes else reached) ≤ maxBytes ∧
          need ≤ (if maxBytes < reached then maxBytes else reached) ∧
          b.capacity ≤ (if maxBytes < reached then maxBytes else reached) := by
        have hcapacity := hs.capacity_le
        split <;> omega
      dsimp only
      generalize (if maxBytes < reached then maxBytes else reached) = capacity at target
      obtain ⟨limit, enough, keep⟩ := target
      rw [if_neg (by omega)]
      by_cases refused : writerAlloc capacity g.data = false
      · rw [if_pos refused]
        have small : capacity ≤ objectMax := by
          have : maxBytes ≤ objectMax := by decide
          omega
        exact .refused (by simpa [writerAlloc, small] using refused)
      · rw [if_neg refused]
        cases hdata : b.data with
        | none =>
          have zero := hs.none_empty hdata
          have start0 : b.gapStart = 0 := by omega
          refine .enough ⟨?_, Nat.le_refl _, limit, ?_⟩ ?_ rfl enough ⟨rfl, rfl, rfl, rfl⟩
          · simp only [start0]
            exact Nat.zero_le _
          · intro h
            cases h
          · rw [text_some rfl, text, hdata]
            simp [start0, load]
        | some data =>
          have apart : b.gapStart ≤ capacity - (b.capacity - b.gapEnd) := by omega
          have tail : capacity - (capacity - (b.capacity - b.gapEnd)) = b.capacity - b.gapEnd := by
            omega
          refine .enough ⟨apart, ?_, limit, ?_⟩ ?_ rfl enough ⟨rfl, rfl, rfl, rfl⟩
          · exact Nat.sub_le _ _
          · intro h
            cases h
          · rw [text_some rfl, text_some hdata]
            simp only [tail]
            have front := load_store g.fresh 0 (load data 0 b.gapStart)
            have back := load_store (store g.fresh 0 (load data 0 b.gapStart))
              (capacity - (b.capacity - b.gapEnd)) (load data b.gapEnd (b.capacity - b.gapEnd))
            rw [load_length] at front back
            rw [load_store_of_disjoint _ _ (by omega), front, back]

/-- What replacing a span does: a splice, or nothing and a reason. -/
inductive Spliced (b : Buffer) (offset removeLen : Nat) (insert : List UInt8) (g : Grants) :
    Buffer × EspErr → Prop
  | done {b' : Buffer} (shaped : Shaped b') (inside : offset + removeLen ≤ (text b).length)
      (text_eq : text b' = splice (text b) offset removeLen insert) (undo : SameUndo b b') :
      Spliced b offset removeLen insert g (b', .ok)
  | outside (out : (text b).length < offset + removeLen) :
      Spliced b offset removeLen insert g (b, .invalidArg)
  | large (inside : offset + removeLen ≤ (text b).length)
      (long : maxBytes < (splice (text b) offset removeLen insert).length) :
      Spliced b offset removeLen insert g (b, .invalidSize)
  | refused (inside : offset + removeLen ≤ (text b).length) (grant : g.data = false) :
      Spliced b offset removeLen insert g (b, .noMem)

end SolarOs.Writer
