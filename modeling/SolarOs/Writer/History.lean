import SolarOs.Writer.Gap

/-! The undo records as a history of texts: dropping the redo tail, evicting old
records, joining and adding records keep every remaining record applicable. -/
namespace SolarOs.Writer
open EditHistory List

/-- A text of the buffer. -/
abbrev Text := List UInt8

def UndoOp.edit (op : UndoOp) : Edit UInt8 where
  offset := op.offset
  removed := op.removed
  inserted := op.inserted

def payloadSum (ops : List UndoOp) : Nat := (ops.map UndoOp.payload).sum

/-- The records link the versions, the cursor stands at the current one. -/
structure Journal (b : Buffer) (versions : List Text) (current : Text) : Prop where
  chain : Chain versions (b.undo.map UndoOp.edit)
  cursor : versions[b.undoCursor]? = some current
  payload : b.undoPayload = payloadSum b.undo
  storage : b.undo ≠ [] → b.storage = true

def Tip (b : Buffer) : Prop := b.undoCursor = b.undo.length

structure Bounded (b : Buffer) : Prop where
  payload : b.undoPayload ≤ undoMaxPayload
  count : b.undo.length ≤ undoMaxOps

variable {b b' : Buffer} {versions : List Text} {current next : Text} {op : UndoOp} {g : Grants}

section
variable (h : Journal b versions current)
include h

theorem Journal.length : versions.length = b.undo.length + 1 := by
  rw [h.chain.length, length_map]

theorem Journal.cursor_le : b.undoCursor ≤ b.undo.length := by
  obtain ⟨inside, -⟩ := List.getElem?_eq_some_iff.mp h.cursor
  rw [h.length] at inside
  omega

theorem Journal.last (tip : Tip b) : versions.getLast? = some current := by
  rw [getLast?_eq_getElem?, h.length, Nat.add_sub_cancel, ← tip]
  exact h.cursor

theorem Journal.congr (same : SameUndo b b') : Journal b' versions current where
  chain := by rw [same.undo]; exact h.chain
  cursor := by rw [same.cursor]; exact h.cursor
  payload := by rw [same.undo, same.payload]; exact h.payload
  storage := by rw [same.undo, same.storage]; exact h.storage

end

theorem Journal.fresh (undo : b.undo = []) (cursor : b.undoCursor = 0) (payload : b.undoPayload = 0)
    (current : Text) : Journal b [current] current where
  chain := by rw [undo]; exact .single current
  cursor := by rw [cursor]; rfl
  payload := by rw [undo, payload]; rfl
  storage h := absurd undo h

theorem payloadSum_append (ops ops' : List UndoOp) : payloadSum (ops ++ ops') = payloadSum ops + payloadSum ops' := by
  rw [payloadSum, map_append, sum_append]
  rfl

theorem Journal.evict (h : Journal b versions current) (tip : Tip b) (hsome : b.undo ≠ []) :
    Journal (writerEvictOldest b) versions.tail current ∧ Tip (writerEvictOldest b) := by
  obtain ⟨op, rest, hundo⟩ := exists_cons_of_ne_nil hsome
  have shorter := h.chain
  rw [hundo, map_cons] at shorter
  have pay := h.payload
  rw [hundo, payloadSum, map_cons, sum_cons] at pay
  have place : b.undoCursor = b.undoCursor - 1 + 1 := by
    rw [tip, hundo, length_cons]
    rfl
  refine ⟨⟨?_, ?_, ?_, ?_⟩, ?_⟩
  · simp only [writerEvictOldest, hundo]
    exact shorter.tail
  · simp only [writerEvictOldest, hundo]
    rw [getElem?_tail, ← place]
    exact h.cursor
  · simp only [writerEvictOldest, hundo, pay]
    exact Nat.add_sub_cancel_left _ _
  · intro _
    simp only [writerEvictOldest, hundo]
    exact h.storage hsome
  · simp only [Tip, writerEvictOldest, hundo]
    rw [tip, hundo, length_cons, Nat.add_sub_cancel]

theorem Journal.evictWhile (full : Buffer → Bool) (fuel : Nat) (h : Journal b versions current)
    (tip : Tip b) (hfuel : b.undo.length ≤ fuel) :
    ∃ versions', versions' <:+ versions ∧ Journal (evictWhile full fuel b) versions' current ∧
      Tip (evictWhile full fuel b) ∧ (evictWhile full fuel b).undo.length ≤ b.undo.length ∧
      ((evictWhile full fuel b).undo = [] ∨ full (evictWhile full fuel b) = false) := by
  induction fuel generalizing b versions with
  | zero =>
    exact ⟨versions, suffix_refl _, h, tip, Nat.le_refl _, .inl (length_eq_zero_iff.mp (Nat.le_zero.mp hfuel))⟩
  | succ fuel ih =>
    unfold Writer.evictWhile
    by_cases more : b.undo ≠ [] ∧ full b
    · rw [if_pos more]
      obtain ⟨h', tip'⟩ := h.evict tip more.1
      have fewer : (writerEvictOldest b).undo.length + 1 = b.undo.length := by
        obtain ⟨op, rest, hundo⟩ := exists_cons_of_ne_nil more.1
        simp [writerEvictOldest, hundo]
      obtain ⟨versions', suffix, rest⟩ := ih h' tip' (by omega)
      exact ⟨versions', suffix.trans (tail_suffix versions), rest.1, rest.2.1, by omega,
        rest.2.2.2⟩
    · rw [if_neg more]
      refine ⟨versions, suffix_refl _, h, tip, Nat.le_refl _, ?_⟩
      by_cases none : b.undo = []
      · exact .inl none
      · exact .inr (by simpa [none] using more)

/-- What is left of the versions and a new text, which stands behind the newest
version or in its place. -/
def Succeeds (versions : List Text) (next : Text) (versions' : List Text) : Prop :=
  versions' <:+ versions ++ [next] ∨ versions' <:+ versions.dropLast ++ [next]

theorem Succeeds.mem {versions' : List Text} (h : Succeeds versions next versions') {v : Text}
    (hv : v ∈ versions') : v ∈ versions ∨ v = next := by
  rcases h with behind | instead
  · exact (mem_append.mp (behind.subset hv)).imp_right mem_singleton.mp
  · exact (mem_append.mp (instead.subset hv)).imp (dropLast_sublist versions).mem mem_singleton.mp

def Advances (versions : List Text) (next : Text) (b : Buffer) : Prop :=
  ∃ versions', Journal b versions' next ∧ Tip b ∧ b.undo.length ≤ undoMaxOps ∧
    Succeeds versions next versions'

theorem Advances.fresh (undo : b.undo = []) (cursor : b.undoCursor = 0) (payload : b.undoPayload = 0) :
    Advances versions next b := by
  refine ⟨[next], .fresh undo cursor payload next, ?_, ?_, ?_⟩
  · rw [Tip, undo, cursor]
    rfl
  · rw [undo]
    exact Nat.zero_le _
  · exact .inl (suffix_append versions [next])

theorem Journal.empty (h : Journal b versions current) (none : b.undo = []) : b.undoCursor = 0 ∧ b.undoPayload = 0 := by
  have inside := h.cursor_le
  rw [none] at inside
  exact ⟨Nat.le_zero.mp inside, by rw [h.payload, none]; rfl⟩

theorem Journal.join {last : UndoOp} {added : Nat} (h : Journal b versions current) (tip : Tip b)
    (count : b.undo.length ≤ undoMaxOps) (hlast : b.undo[b.undoCursor - 1]? = some last)
    (further : ∀ t, last.edit.Leads t current → op.edit.Leads t next)
    (size : op.payload = last.payload + added) : Advances versions next (joinUndo b op added) := by
  obtain ⟨ops, hundo⟩ : ∃ ops, b.undo = ops ++ [last] := by
    refine ⟨b.undo.dropLast, (dropLast_append_getLast? last ?_).symm⟩
    rw [getLast?_eq_getElem?, ← tip]
    exact hlast
  have place : b.undoCursor - 1 = ops.length := by
    rw [tip, hundo, length_append]
    rfl
  have replaced : (joinUndo b op added).undo = ops ++ [op] := by
    simp only [joinUndo, place, hundo]
    rw [set_append_right _ _ (Nat.le_refl _), Nat.sub_self]
    rfl
  have chain := h.chain
  rw [hundo, map_append] at chain
  have joined : Chain (versions.dropLast ++ [next]) (ops.map UndoOp.edit ++ [op.edit]) := by
    apply chain.relast
    intro t t' lead ends
    rw [h.last tip] at ends
    cases ends
    exact further t lead
  have tip' : Tip (joinUndo b op added) := by
    rw [Tip, replaced, length_append]
    show b.undoCursor = ops.length + 1
    rw [tip, hundo, length_append]
    rfl
  refine ⟨versions.dropLast ++ [next], ⟨?_, ?_, ?_, ?_⟩, tip', ?_, ?_⟩
  · rw [replaced, map_append]
    exact joined
  · have size := joined.length
    rw [length_append, length_append, length_map] at size
    have count : versions.dropLast.length = ops.length + 1 := Nat.add_right_cancel size
    rw [tip', replaced, length_append, length_singleton, ← count, getElem?_concat_length]
  · rw [replaced, payloadSum_append]
    show b.undoPayload + added = _
    rw [h.payload, hundo, payloadSum_append]
    simp only [payloadSum, map_cons, map_nil, sum_cons, sum_nil, size]
    omega
  · intro _
    apply h.storage
    rw [hundo]
    exact append_ne_nil_of_right_ne_nil _ (cons_ne_nil _ _)
  · rw [replaced, length_append]
    rw [hundo, length_append] at count
    exact count
  · exact .inr (suffix_refl _)

end SolarOs.Writer
