import SolarOs.Schedule.Store
import SolarOs.Storage.Replace

/-! Power loss while the schedule is saved, and what the next start makes of the files. -/
namespace SolarOs.Schedule
open Program Storage Function List

abbrev Files := Disk StoreFile

def boot (clock : Clock) (disk : Files) : State := (finish act (init clock) disk fun _ => calm).2

def restored (clock : Clock) (disk : Files) : List Entry := (boot clock disk).table.kept

/-- The disk when power is lost after `n` operations of a call, whatever these met. -/
def lose (clock : Clock) (s : State) (c : Call) (env : Nat → Env StoreFile) (n : Nat) (disk : Files) : Files :=
  stop act (perform clock s c) env n disk

def Plan.after (s : State) : Plan → State
  | .refused _ => s
  | .keep after => after
  | .save after _ => after

def Plan.saves : Plan → Bool
  | .save after _ => after.storePath
  | _ => false

def EitherOf (before after entries : List Entry) : Prop := entries = before ∨ entries = after

instance (before after entries : List Entry) : Decidable (EitherOf before after entries) :=
  inferInstanceAs (Decidable (_ ∨ _))

def Spared (before after entries : List Entry) : Prop := before ≠ [] ∨ after ≠ [] → entries ≠ []

def readStore : Option StoreFile → List Entry
  | some (.whole store) =>
    if storeValid store then (store.entries.take store.count).map Entry.setting else []
  | _ => []

variable {clock : Clock} {s : State} {c : Call} {disk : Files} {t : Table}

theorem kept_of_persistent (all : ∀ e ∈ t.entries, e.persistent = true) : t.kept = t.entries.map Entry.setting := by
  rw [Table.kept, filter_eq_self.mpr all]

theorem setting_startInterval (clock : Clock) (e : Entry) : (startInterval clock e).setting = e.setting := by
  unfold startInterval
  split <;> rfl

theorem persistent_startInterval (clock : Clock) (e : Entry) :
    (startInterval clock e).persistent = e.persistent := (harmless_startInterval clock e).persistent

theorem kept_startIntervals (clock : Clock) (t : Table) :
    (t.replace _ (harmless_startIntervals clock t.entries)).kept = t.kept := by
  show ((t.entries.map (startInterval clock)).filter (·.persistent)).map Entry.setting = _
  rw [filter_map, map_map, Table.kept]
  have same : (fun e : Entry => e.persistent) ∘ startInterval clock = fun e => e.persistent :=
    funext (persistent_startInterval clock)
  rw [same]
  exact map_congr_left fun e _ => setting_startInterval clock e

theorem finish_loadEntries (ready : s.storePath = true) (fresh : s.table = .empty) (disk : Files) :
    ∃ t : Table, finish act (loadEntries s) disk (fun _ => calm) = (disk, { s with table := t }) ∧
      t.kept = readStore (disk .active) := by
  have same : { s with table := .empty } = s := by rw [← fresh]
  have nothing : Table.empty.kept = [] := rfl
  unfold loadEntries
  rw [if_neg (by simp [ready]), finish_invoke_bind]
  cases here : disk .active with
  | none =>
    have missing : act (.openRead .active) disk calm = (disk, false) := by simp [act, possible, here, reply]
    rw [missing]
    exact ⟨.empty, by rw [same]; rfl, nothing⟩
  | some file =>
    have opened : act (.openRead .active) disk calm = (disk, true) := by
      simp [act, possible, here, reply, calm, effect]
    have contents : act (.read .active) disk calm = (disk, some file) := by
      simp [act, possible, reply, calm, effect, here]
    rw [opened, if_neg (by simp), finish_invoke_bind]
    show ∃ t : Table, finish act (invoke (.read .active) >>= _) disk (fun _ => calm) = _ ∧ _
    rw [finish_invoke_bind, contents, finish_invoke_bind, act_close]
    cases file with
    | other => exact ⟨.empty, by rw [same]; rfl, nothing⟩
    | whole store =>
      dsimp only [readStore]
      split
      · rename_i valid
        refine ⟨.ofStore store valid, rfl, ?_⟩
        refine kept_of_persistent fun e he => ?_
        have stored := (storeValid_iff.mp valid).2.2.2.1 e he
        simp only [storedEntryValid, Bool.and_eq_true] at stored
        exact stored.1.1.1
      · exact ⟨.empty, by rw [same]; rfl, nothing⟩

theorem restored_eq (clock : Clock) (disk : Files) : restored clock disk = readStore (disk .active) := by
  obtain ⟨t, loaded, kept⟩ := finish_loadEntries (s := { initial with storePath := true }) rfl rfl disk
  rw [← kept, restored, boot, init, finish_bind_const]
  have first : finish act (do
      if ← invoke .preparePath then
        loadEntries { initial with storePath := true }
      else
        return initial) disk (fun _ => calm) = (disk, { initial with storePath := true, table := t }) := loaded
  rw [first]
  exact kept_startIntervals clock t

theorem harmless_stored (e : Entry) : Harmless e { e with nextUtcSeconds := 0, nextUptimeMs := 0 } :=
  .of_fields rfl rfl rfl rfl rfl

theorem stored_origin {e : Entry} (he : e ∈ stored t) : ∃ e' ∈ t.entries, e'.persistent = true ∧ Harmless e' e := by
  obtain ⟨e', he', rfl⟩ := mem_map.mp he
  obtain ⟨inside, persistent⟩ := mem_filter.mp he'
  exact ⟨e', inside, persistent, harmless_stored e'⟩

theorem length_stored (t : Table) : (stored t).length ≤ maxEntries := by
  rw [stored, length_map]
  exact Nat.le_trans (length_filter_le ..) t.count_le

theorem take_makeStore (t : Table) : (makeStore t).entries.take (makeStore t).count = stored t := by
  rw [makeStore, take_left']
  rfl

theorem makeStore_valid (t : Table) : storeValid (makeStore t) = true := by
  rw [storeValid_iff, take_makeStore]
  refine ⟨rfl, rfl, length_stored t, ?_, ?_⟩
  · intro e he
    obtain ⟨e', inside, persistent, harmless⟩ := stored_origin he
    rw [harmless.valid]
    exact t.valid e' inside persistent
  · have names : (stored t).map (·.name) = (t.entries.filter (·.persistent)).map (·.name) := by
      rw [stored, map_map]
      rfl
    rw [names]
    exact t.distinct.sublist (filter_sublist.map _)

theorem readStore_makeStore (t : Table) : readStore (some (.whole (makeStore t))) = t.kept := by
  rw [readStore, if_pos (makeStore_valid t), take_makeStore, stored, map_map]
  rfl

variable {old : Option StoreFile}

def Written (old : Option StoreFile) (t : Table) (written : Bool) (disk : Files) : Prop :=
  disk .active = old ∧ (written = true → disk .staged = some (.whole (makeStore t)))

theorem passes_writeStaged (t : Table) (here : disk .active = old) :
    Passes act (Around old (.whole (makeStore t))) (Written old t) (writeStaged t) disk := by
  refine passes_call (.inl here) fun e => ?_
  have created := (act_create_other .staged .active .other disk e (by decide)).trans here
  generalize (act (.create .staged .other) disk e).1 = d at created ⊢
  split
  · have synced : Passes act (Around old (.whole (makeStore t))) (Written old t) (do
        if ← invoke (.write .staged (.whole (makeStore t))) then
          invoke .sync
        else
          return false) d := by
      refine passes_call (.inl created) fun e => ?_
      have active := (act_write_other .staged .active (.whole (makeStore t)) d e (by decide)).trans created
      split
      · rename_i wrote
        exact ⟨.inl active, fun _ => ⟨.inl active, active, fun _ => act_write_done _ d e wrote⟩⟩
      · exact ⟨.inl active, active, nofun⟩
    refine Passes.bind (synced.imp ?_)
    rintro synced d ⟨active, whole⟩
    refine passes_quiet (.inl active) (fun _ => rfl) fun e => ⟨.inl active, active, fun both => ?_⟩
    exact whole (Bool.and_eq_true_iff.mp both).1
  · exact ⟨.inl created, created, nofun⟩

theorem passes_saveLocked (s : State) (disk : Files) :
    Passes act (Around (disk .active) (.whole (makeStore s.table))) (Replaced (.whole (makeStore s.table)))
      (saveLocked s) disk := by
  have around : Around (disk .active) (.whole (makeStore s.table)) disk := .inl rfl
  unfold saveLocked
  split
  · exact ⟨around, nofun⟩
  refine passes_quiet around (fun e => by rw [act_alloc]) fun e => ?_
  split
  · exact ⟨around, nofun⟩
  refine Passes.bind ((passes_writeStaged s.table rfl).imp ?_)
  rintro written d ⟨here, staged⟩
  have replaced : Passes act (Around (disk .active) (.whole (makeStore s.table)))
      (fun error d => Around (disk .active) (.whole (makeStore s.table)) d ∧
        Replaced (.whole (makeStore s.table)) error d) (do
          if written then
            replaceFile
          else
            return .fail) d := by
    split
    · rename_i wrote
      exact (passes_replaceFile around_allows (staged wrote) here).ends
    · exact ⟨.inl here, .inl here, nofun⟩
  refine Passes.bind (replaced.imp ?_)
  rintro error d ⟨around, replaced⟩
  refine passes_last ⟨around, replaced⟩ fun failed e => ?_
  have stays := act_remove_other .staged .active d e (by decide)
  exact ⟨around.congr stays, fun ok => absurd ok failed⟩

theorem finish_writeStaged (t : Table) (disk : Files) : finish act (writeStaged t) disk (fun _ => calm) =
      (update disk .staged (some (.whole (makeStore t))), true) := by
  have created : act (.create .staged .other) disk calm = (update disk .staged (some .other), true) := rfl
  have written : act (.write .staged (.whole (makeStore t))) (update disk .staged (some .other)) calm =
      (update disk .staged (some (.whole (makeStore t))), true) := by
    have there : possible (.write .staged (.whole (makeStore t)))
        (update disk .staged (some .other)) = true := by rw [possible, update_self]; rfl
    rw [act, if_pos there]
    exact congrArg (·, true) (update_idem ..)
  have synced : finish act (do
      if ← invoke (.write .staged (.whole (makeStore t))) then
        invoke .sync
      else
        return false) (update disk .staged (some .other)) (fun _ => calm) =
      (update disk .staged (some (.whole (makeStore t))), true) := by
    rw [finish_invoke_bind, written]
    rfl
  rw [writeStaged, finish_invoke_bind, created, if_pos rfl, finish_bind_const, synced]
  rfl

theorem calm_alloc (disk : Files) : act .alloc disk calm = (disk, true) := rfl

theorem saveLocked_gap {good : Files → Prop} {post : EspErr → Files → Prop} {file : StoreFile}
    (h : Passes act good post (saveLocked s) disk) (ready : s.storePath = true)
    (here : disk .active = some file) : ∃ d, good d ∧ d .active = none := by
  rw [saveLocked, if_neg (by simp [ready])] at h
  have h := passes_next h (calm_alloc disk)
  rw [if_neg (Bool.false_ne_true ∘ Eq.symm)] at h
  have h := h.after fun _ => calm
  rw [finish_writeStaged, if_pos rfl] at h
  have active : update disk .staged (some (StoreFile.whole (makeStore s.table))) .active = some file := by
    rw [update_of_ne (by decide), here]
  have staged : update disk .staged (some (StoreFile.whole (makeStore s.table))) .staged =
      some (.whole (makeStore s.table)) := update_self ..
  exact replaceFile_gap h.parts staged active

theorem finish_saveLocked (ready : s.storePath = true) (disk : Files) :
    (finish act (saveLocked s) disk fun _ => calm).2 = .ok := by
  rw [saveLocked, if_neg (by simp [ready]), finish_invoke_bind, calm_alloc, if_neg (Bool.false_ne_true ∘ Eq.symm),
    finish_bind_const, finish_writeStaged, if_pos rfl, finish_bind_const,
    finish_replaceFile (update_self ..)]
  rfl

theorem lose_iff (clock next : Clock) (s : State) (c : Call) (disk : Files) (P : List Entry → Prop) :
    (∀ env n, P (restored next (lose clock s c env n disk))) ↔
      P (restored next disk) ∧ ((plan clock s c).saves = true →
        ((disk .active).isSome = true → P []) ∧ P ((plan clock s c).after s).table.kept) := by
  have passes : (∀ env n, P (restored next (lose clock s c env n disk))) ↔
      Passes act (fun d => P (restored next d)) (fun _ _ => True) (perform clock s c) disk :=
    @stop_iff _ _ _ _ _ act _ (fun d => P (restored next d)) _
  rw [passes]
  simp only [restored_eq]
  unfold perform
  cases plan clock s c with
  | refused error | keep after => exact ⟨fun h => ⟨h.1, nofun⟩, fun h => ⟨h.1, trivial⟩⟩
  | save after otherwise =>
    constructor
    · intro h
      refine ⟨h.start, fun ready => ⟨fun there => ?_, ?_⟩⟩
      · obtain ⟨file, here⟩ := Option.isSome_iff_exists.mp there
        obtain ⟨d, good, gone⟩ := saveLocked_gap h.parts ready here
        rwa [gone] at good
      · have ended := (h.after fun _ => calm).start
        have saved := (passes_saveLocked after disk).result fun _ => calm
        rwa [saved.2 (finish_saveLocked ready disk), readStore_makeStore] at ended
    · rintro ⟨here, saves⟩
      have through : Passes act (fun d => P (readStore (d .active))) (fun _ _ => True) (saveLocked after) disk := by
        cases ready : after.storePath with
        | false =>
          rw [saveLocked, if_pos ready]
          exact ⟨here, trivial⟩
        | true =>
          obtain ⟨gap, saved⟩ := saves ready
          refine ((passes_saveLocked after disk).imp fun _ _ _ => trivial).widen fun d around => ?_
          rcases around with old | gone | new
          · rwa [old]
          · rw [gone]
            cases there : disk .active with
            | none => rwa [there] at here
            | some file => exact gap (by rw [there]; rfl)
          · rwa [new, readStore_makeStore]
      exact Passes.bind (through.ends.imp fun error d h => ⟨h.1, trivial⟩)

theorem eitherOf_nil {before after : List Entry} : EitherOf before after [] ↔ before = [] ∨ after = [] :=
  or_congr eq_comm eq_comm

/-- Where power may be lost while the schedule is saved, the next start restores the entries
from before the call or those after it exactly if the disk holds one of them and there is no
store to replace, unless there was nothing before or is nothing after. That nothing is
restored only if there was nothing before and is nothing after needs both to be empty. -/
theorem restored_after_power_loss (clock next : Clock) (s : State) (c : Call) (disk : Files) :
    let before := s.table.kept
    let after := ((plan clock s c).after s).table.kept
    ((∀ env n, EitherOf before after (restored next (lose clock s c env n disk))) ↔
      EitherOf before after (restored next disk) ∧
        ((plan clock s c).saves = true → (disk .active).isSome = true → before = [] ∨ after = [])) ∧
    ((∀ env n, EitherOf before after (restored next (lose clock s c env n disk)) ∧
        Spared before after (restored next (lose clock s c env n disk))) ↔
      (EitherOf before after (restored next disk) ∧ Spared before after (restored next disk)) ∧
        ((plan clock s c).saves = true → before = [] ∧ after = [])) := by
  intro before after
  constructor
  · rw [lose_iff]
    refine and_congr_right fun _ => forall_congr' fun _ => ?_
    rw [eitherOf_nil, and_iff_left (show EitherOf before after after from .inr rfl)]
  · rw [lose_iff (P := fun entries => EitherOf before after entries ∧ Spared before after entries)]
    refine and_congr_right fun ⟨here, spared⟩ => forall_congr' fun _ => ?_
    have nothing : (EitherOf before after [] ∧ Spared before after []) → before = [] ∧ after = [] := by
      rintro ⟨-, spared⟩
      by_contra some
      exact spared (not_and_or.mp some) rfl
    constructor
    · rintro ⟨gap, -⟩
      cases there : (disk .active) with
      | some file => exact nothing (gap (by rw [there]; rfl))
      | none =>
        have empty : restored next disk = [] := by rw [restored_eq, there]; rfl
        rw [empty] at here spared
        exact nothing ⟨here, spared⟩
    · rintro ⟨noneBefore, noneAfter⟩
      have fine : EitherOf before after [] ∧ Spared before after [] :=
        ⟨.inl noneBefore.symm, fun some => absurd some (by simp [noneBefore, noneAfter])⟩
      exact ⟨fun _ => fine, .inr rfl, fun some => absurd some (by simp [noneBefore, noneAfter])⟩

def quietHour : Clock where
  uptimeMs := 0
  utcEpochMs := none
  localNext _ := 0
  created _ := false

def dailyAlarm (name : CString) : Call := .addDaily name 7 0 0 .alarm none

def first : CString := .ofBytes [97]
def second : CString := .ofBytes [98]

def oneAlarm : Files × State × EspErr :=
  finish act (perform quietHour (boot quietHour fun _ => none) (dailyAlarm first)) (fun _ => none) fun _ => calm

/-- Power is lost between the two renames, and neither the one alarm nor the two are left. -/
theorem power_loss_empties :
    let disk := oneAlarm.1
    let s := oneAlarm.2.1
    let after := (plan quietHour s (dailyAlarm second)).after s
    let left := restored quietHour (lose quietHour s (dailyAlarm second) (fun _ => calm) 9 disk)
    restored quietHour disk = s.table.kept ∧ s.table.kept.length = 1 ∧ after.table.kept.length = 2 ∧ left = [] ∧
      ¬EitherOf s.table.kept after.table.kept left := by
  decide

end SolarOs.Schedule
