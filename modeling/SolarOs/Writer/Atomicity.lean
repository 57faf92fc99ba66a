import SolarOs.Writer.Reference

/-! Calls that fail leave the buffer as it was, but for setting a text when there is no
memory for it. -/
namespace SolarOs.Writer

def Failed : Outcome → Prop
  | .returned e => e ≠ .ok
  | .moved cursor => cursor = none

def Loses (b : Buffer) (g : Grants) : Call → Prop
  | .set t => t.length ≤ maxBytes ∧ g.data = false ∧ (text b ≠ [] ∨ b.undo ≠ [] ∨ b.undoCursor ≠ 0)
  | _ => False

def Unchanged (b b' : Buffer) : Prop := text b' = text b ∧ b'.undo = b.undo ∧ b'.undoCursor = b.undoCursor

variable {b b' : Buffer} {g : Grants} {ret : EspErr}

theorem unchanged_self (b : Buffer) : Unchanged b b := ⟨rfl, rfl, rfl⟩

theorem writerReserve_failed {need : Nat} (h : writerReserve b need g = (b', ret)) (failed : ret ≠ .ok) : b' = b := by
  unfold writerReserve at h
  split at h
  · exact (congrArg Prod.fst h).symm
  · split at h
    · cases h
      exact absurd rfl failed
    · dsimp only at h
      generalize (if maxBytes < doubled need need _ then maxBytes else doubled need need _) = capacity at h
      split at h
      · exact (congrArg Prod.fst h).symm
      · split at h
        · exact (congrArg Prod.fst h).symm
        · split at h
          · cases h
            exact absurd rfl failed
          · cases h
            exact absurd rfl failed

theorem writerReplaceRaw_failed {offset removeLen : Nat} {insert : Text}
    (h : writerReplaceRaw b offset removeLen insert g = (b', ret)) (failed : ret ≠ .ok) : b' = b := by
  unfold writerReplaceRaw at h
  dsimp only at h
  split at h
  · exact (congrArg Prod.fst h).symm
  · cases reserved : writerReserve b (length b - removeLen + insert.length) g with
    | mk r err =>
      have same := writerReserve_failed reserved
      rw [reserved] at h
      cases err with
      | ok =>
        cases h
        exact absurd rfl failed
      | _ =>
        cases h
        exact same nofun

theorem replace_failed {offset removeLen before after : Nat} {insert : Text}
    (h : replace b offset removeLen insert before after g = (b', ret)) (failed : ret ≠ .ok) : b' = b := by
  unfold replace at h
  dsimp only at h
  split at h
  · exact (congrArg Prod.fst h).symm
  · split at h
    · exact (congrArg Prod.fst h).symm
    · split at h
      · exact (congrArg Prod.fst h).symm
      · split at h
        · exact (congrArg Prod.fst h).symm
        · cases replaced : writerReplaceRaw b offset removeLen insert g with
          | mk r err =>
            have same := writerReplaceRaw_failed replaced
            rw [replaced] at h
            cases err with
            | ok =>
              cases h
              exact absurd rfl failed
            | _ =>
              cases h
              exact same nofun

theorem undo_failed (failed : (undo b g).2 = none) : (undo b g).1 = b := by
  unfold undo at *
  by_cases first : b.undoCursor = 0
  · rw [if_pos first]
  · rw [if_neg first] at *
    cases last : b.undo[b.undoCursor - 1]? with
    | none => rfl
    | some op =>
      rw [last] at failed
      dsimp only at *
      cases replaced : writerReplaceRaw b op.offset op.inserted.length op.removed g with
      | mk r err =>
        have same := writerReplaceRaw_failed replaced
        rw [replaced] at failed
        cases err with
        | ok => exact nomatch failed
        | _ => exact same nofun

theorem redo_failed (failed : (redo b g).2 = none) : (redo b g).1 = b := by
  unfold redo at *
  cases next : b.undo[b.undoCursor]? with
  | none => rfl
  | some op =>
    rw [next] at failed
    dsimp only at *
    cases replaced : writerReplaceRaw b op.offset op.removed.length op.inserted g with
    | mk r err =>
      have same := writerReplaceRaw_failed replaced
      rw [replaced] at failed
      cases err with
      | ok => exact nomatch failed
      | _ => exact same nofun

theorem writerReserve_refused {need : Nat} (grant : g.data = false) : (writerReserve b need g).1 = b := by
  unfold writerReserve
  split
  · rfl
  · split
    · rfl
    · dsimp only
      generalize (if maxBytes < doubled need need _ then maxBytes else doubled need need _) = capacity
      have denied : writerAlloc capacity g.data = false := by
        rw [writerAlloc, grant]
        rfl
      split
      · rfl
      · rfl

theorem set_fits {t : Text} (fits : t.length ≤ maxBytes) : (g.data = true → (set b t g).2 = .ok) ∧
      (g.data = false → (set b t g).2 = .noMem ∧ text (set b t g).1 = [] ∧ (set b t g).1.undo = [] ∧
        (set b t g).1.undoCursor = 0) := by
  unfold set
  rw [if_neg (Nat.not_lt.mpr fits)]
  dsimp only
  have shaped : Shaped { clearUndo b with data := none, capacity := 0, gapStart := 0, gapEnd := 0 } :=
    ⟨Nat.le_refl 0, Nat.le_refl 0, Nat.zero_le _, fun _ => rfl⟩
  have reserved := writerReserve_spec shaped t.length g
  have stays := @writerReserve_refused { clearUndo b with data := none, capacity := 0, gapStart := 0, gapEnd := 0 } g
    t.length
  have forgotten : text { clearUndo b with data := none, capacity := 0, gapStart := 0, gapEnd := 0 } = [] ∧
      (clearUndo b).undo = [] ∧ (clearUndo b).undoCursor = 0 := ⟨rfl, rfl, rfl⟩
  cases ran : writerReserve { clearUndo b with data := none, capacity := 0, gapStart := 0, gapEnd := 0 } t.length g with
  | mk b' ret =>
    rw [ran] at reserved stays
    cases reserved with
    | enough _ _ data =>
      refine ⟨fun _ => rfl, fun refused => ?_⟩
      have same : b' = _ := stays refused
      rw [same] at data
      exact nomatch data
    | large long => exact absurd long (Nat.not_lt.mpr fits)
    | refused grant =>
      refine ⟨fun granted => ?_, fun _ => ⟨rfl, forgotten⟩⟩
      exact nomatch granted.symm.trans grant

/-- A call that fails leaves the text, the records and the cursor as they were, except exactly
when setting a text that fits is refused its memory and there was something to lose. -/
theorem failed_unchanged_iff (b : Buffer) (c : Call) (g : Grants) :
    (Failed (call b (c, g)).2 → Unchanged b (call b (c, g)).1) ↔ ¬Loses b g c := by
  cases c with
  | set t =>
    by_cases fits : t.length ≤ maxBytes
    · obtain ⟨granted, refused⟩ := @set_fits b g t fits
      cases grant : g.data with
      | true =>
        refine iff_of_true (fun failed => absurd (granted grant) failed) ?_
        rintro ⟨-, no, -⟩
        exact nomatch grant.symm.trans no
      | false =>
        obtain ⟨err, empty, undo, cursor⟩ := refused grant
        constructor
        · intro atomic loses
          obtain ⟨text_eq, undo_eq, cursor_eq⟩ := atomic (show (set b t g).2 ≠ .ok by rw [err]; exact nofun)
          rcases loses.2.2 with some | some | some
          · exact some (text_eq.symm.trans empty)
          · exact some (undo_eq.symm.trans undo)
          · exact some (cursor_eq.symm.trans cursor)
        · intro keeps _
          have nothing : text b = [] ∧ b.undo = [] ∧ b.undoCursor = 0 := by
            by_contra some
            refine keeps ⟨fits, grant, ?_⟩
            by_contra none
            exact some (by simpa only [not_or, not_not] using none)
          exact ⟨empty.trans nothing.1.symm, undo.trans nothing.2.1.symm, cursor.trans nothing.2.2.symm⟩
    · have large : set b t g = (b, .invalidSize) := if_pos (Nat.lt_of_not_le fits)
      refine iff_of_true (fun _ => ?_) fun loses => fits loses.1
      show Unchanged b (set b t g).1
      rw [large]
      exact unchanged_self b
  | replace offset removeLen insert before after =>
    refine iff_of_true (fun failed => ?_) id
    have same : (replace b offset removeLen insert before after g).1 = b :=
      @replace_failed b _ g _ offset removeLen before after insert rfl failed
    show Unchanged b (replace b offset removeLen insert before after g).1
    rw [same]
    exact unchanged_self b
  | undo =>
    refine iff_of_true (fun failed => ?_) id
    show Unchanged b (undo b g).1
    rw [undo_failed failed]
    exact unchanged_self b
  | redo =>
    refine iff_of_true (fun failed => ?_) id
    show Unchanged b (redo b g).1
    rw [redo_failed failed]
    exact unchanged_self b

/-- A text is set, and another one is refused its memory: the first one is gone. -/
theorem set_refused_empties : text (after init [(.set [97], ⟨true, true, true, true, true, ⟨fun _ => 0⟩⟩)]) = [97] ∧
      Failed (call (after init [(.set [97], ⟨true, true, true, true, true, ⟨fun _ => 0⟩⟩)])
        (.set [98], ⟨false, true, true, true, true, ⟨fun _ => 0⟩⟩)).2 ∧
      text (after init [(.set [97], ⟨true, true, true, true, true, ⟨fun _ => 0⟩⟩),
        (.set [98], ⟨false, true, true, true, true, ⟨fun _ => 0⟩⟩)]) = [] :=
  ⟨by decide, nofun, by decide⟩

end SolarOs.Writer
