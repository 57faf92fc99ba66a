import SolarOs.Inbox.PowerLoss

/-! Which calls power loss cannot split. -/
namespace SolarOs.Inbox
open Program Function List SlotRing

section
variable (s : State)

def Atomic (disk : Disk) (c : Call) : Prop :=
  ∀ landed n, Recovers s (run (c.body s) disk).2 (lose landed n (c.body s) disk)

def Backed (file : StoreFile) : Prop :=
  file.headers ((successor s.generation + 1) % 2) = some (makeHeader s s.generation)

def Joins (message : Publish) : Prop :=
  publishValid message = true ∧ findDuplicate s (dedupeHash message) = none

def Already (id : Nat) (unread : Bool) : Prop :=
  ∀ i, find s id = some i → (s.ring.entry i).entry.unread = unread

def AllOrNone (selected : Entry → Bool) : Prop :=
  (∀ slot ∈ s.ring.toList, selected slot.entry = true) ∨ ∀ slot ∈ s.ring.toList, selected slot.entry = false

/-- The call does not depend on being carried out as a whole. -/
def Cautious (file : StoreFile) : Call → Prop
  | .publish message _ =>
    Joins s message → s.ring.count < capacity ∧ (Backed s file ∨ s.ring.count = 0) ∧
      successor s.nextId ∉ s.ring.toList.map (·.entry.id)
  | .get id markRead => markRead = true → Already s id false
  | .markRead id read => Already s id !read
  | .delete id => AllOrNone s fun entry => entry.id = id
  | .deleteMany ids => 0 ∈ ids ∨ AllOrNone s fun entry => entry.id ∈ ids
  | .deleteSources sources =>
    (sources.any fun source => source.bytes = [] || sourceMax ≤ source.strlen) = true ∨
      AllOrNone s fun entry => entry.source ∈ sources
  | .clear => True

end

variable {s : State} {disk : Disk} {file : StoreFile}

theorem saved_distinct {α : Type} (h : Saved s disk file) {after : State} {p : Prog α}
    (holds : Holds (Recovers s after) p disk) : Distinct s := by
  have here := (holds_start holds).distinct
  have same := h.shows.reload h.here
  exact here.congr same.1.symm same.2.symm

theorem saved_recovers (h : Saved s disk file) (distinct : Distinct s) (after : State) :
    Recovers s after disk := h.shows.recovers_before distinct h.here

theorem holds_nothing {α : Type} (h : Saved s disk file) {after : State} (result : α) :
    Holds (Recovers s after) (pure result) disk ↔ Distinct s :=
  ⟨saved_distinct h, fun distinct => saved_recovers h distinct after⟩

theorem torn_record (h : Saved s disk file) {i : Nat} (hi : i < s.ring.count) (slot : Slot) :
    Fresh (reload (update disk .store (some (file.putRecord (s.ring.index i) .torn slot)))) := by
  obtain ⟨valid, counted⟩ := h.shows.counted
  have place : s.ring.index i ∈ coveredPlaces (makeHeader s s.generation) := mem_map_of_mem (mem_range.mpr hi)
  refine reload_unreadable (update_self _ _ _) counted place ?_
  rintro ⟨slot', hslot, -⟩
  have torn : (file.putRecord (s.ring.index i) .torn slot).records (s.ring.index i) = none := update_self _ _ _
  cases torn.symm.trans hslot

theorem changeUnread_splits (h : Saved s disk file) {i : Nat} (hi : i < s.ring.count) (unread : Bool)
    {after : State} (same : after.ring.count = s.ring.count) :
    ¬Holds (Recovers s after) (changeUnread s i unread) disk := by
  intro holds
  have persistent : (setUnread s i unread).persistent = true := h.regular.persistent
  have place : s.ring.index i < capacity := Nat.mod_lt _ (by decide)
  unfold changeUnread at holds
  rw [if_pos persistent] at holds
  have writes := (holds_bind_pure (by exact ⟨_, rfl⟩)).mp holds
  rw [holds_storeWrite_record persistent place h.here] at writes
  rcases (writes.2 .torn).lost (torn_record h hi _) with empty | empty
  · rw [fresh_iff.mp empty] at hi
    exact Nat.not_lt_zero _ hi
  · rw [← same, fresh_iff.mp empty] at hi
    exact Nat.not_lt_zero _ hi

theorem find_zero : find s 0 = none := if_pos rfl

theorem already_absent {id : Nat} (absent : find s id = none) (unread : Bool) : Already s id unread := by
  intro i found
  cases absent.symm.trans found

theorem already_iff {id i : Nat} (found : find s id = some i) (unread : Bool) :
    Already s id unread ↔ (s.ring.entry i).entry.unread = unread := by
  constructor
  · intro already
    exact already i found
  · intro same j found'
    cases found.symm.trans found'
    exact same

theorem run_changeUnread_count (h : Saved s disk file) (i : Nat) (unread : Bool) :
    (run (changeUnread s i unread) disk).2.1.ring.count = s.ring.count := by
  rw [run_changeUnread unread h.regular.persistent h.here]
  rfl

theorem markRead_holds (h : Saved s disk file) (id : Nat) (read : Bool) :
    Holds (Recovers s (run (markRead s id read) disk).2.1) (markRead s id read) disk ↔
      Distinct s ∧ Already s id !read := by
  unfold markRead
  by_cases zero : id = 0
  · rw [if_pos zero, holds_nothing h, zero, and_iff_left (already_absent find_zero _)]
  · rw [if_neg zero]
    cases found : find s id with
    | none => exact (holds_nothing h _).trans (and_iff_left (already_absent found _)).symm
    | some i =>
      rw [already_iff found]
      show Holds (Recovers s (run (if (s.ring.entry i).entry.unread = read then changeUnread s i !read
        else pure (s, .ok)) disk).2.1) (if (s.ring.entry i).entry.unread = read then _ else _) disk ↔ _
      by_cases changes : (s.ring.entry i).entry.unread = read
      · have differs : (s.ring.entry i).entry.unread ≠ !read := by
          rw [changes]
          cases read <;> decide
        rw [if_pos changes]
        exact iff_of_false (changeUnread_splits h (find_some found).1 _ (run_changeUnread_count h i _))
          fun both => differs both.2
      · rw [if_neg changes]
        exact (holds_nothing h _).trans (and_iff_left (Bool.eq_not.mpr changes)).symm

theorem get_holds (h : Saved s disk file) (id : Nat) (markRead : Bool) :
    Holds (Recovers s (run (get s id markRead) disk).2.1) (get s id markRead) disk ↔
      Distinct s ∧ (markRead = true → Already s id false) := by
  unfold get
  by_cases zero : id = 0
  · rw [if_pos zero, holds_nothing h, zero, and_iff_left fun _ => already_absent find_zero _]
  · rw [if_neg zero]
    cases found : find s id with
    | none => exact (holds_nothing h _).trans (and_iff_left fun _ => already_absent found _).symm
    | some i =>
      rw [already_iff found]
      show Holds (Recovers s (run (if (markRead && (s.ring.entry i).entry.unread) = true then
          changeUnread s i false >>= _ else pure (s, Except.ok (s.ring.entry i).entry)) disk).2.1)
        (if (markRead && (s.ring.entry i).entry.unread) = true then _ else _) disk ↔ _
      by_cases changes : (markRead && (s.ring.entry i).entry.unread) = true
      · obtain ⟨marks, unread⟩ := Bool.and_eq_true_iff.mp changes
        have count : (run (changeUnread s i false >>= fun out => pure (out.1,
            if out.2 = EspErr.ok then Except.ok (s.ring.entry i).entry else .error out.2)) disk).2.1.ring.count =
            s.ring.count := by
          rw [run_bind]
          exact run_changeUnread_count h i false
        rw [if_pos changes]
        refine iff_of_false (fun holds => ?_) fun both => ?_
        · exact changeUnread_splits h (find_some found).1 false count ((holds_bind_pure (by exact ⟨_, rfl⟩)).mp holds)
        · rw [unread] at both
          exact Bool.noConfusion (both.2 marks)
      · have already : markRead = true → (s.ring.entry i).entry.unread = false := by
          intro marks
          rw [← Bool.not_eq_true]
          exact fun unread => changes (Bool.and_eq_true_iff.mpr ⟨marks, unread⟩)
        rw [if_neg changes]
        exact (holds_nothing h _).trans (and_iff_left already).symm

def removed (s : State) (selected : Entry → Bool) : Nat := s.ring.count - (compact s selected).ring.count

variable {selected : Entry → Bool}

theorem removed_zero : removed s selected = 0 ↔ ∀ slot ∈ s.ring.toList, selected slot.entry = false := by
  have count : (compact s selected).ring.count = (s.ring.toList.filter fun slot => !selected slot.entry).length := rfl
  rw [removed, count, ← length_toList]
  constructor
  · intro h slot hslot
    have all := filter_eq_self.mp (filter_sublist.eq_of_length_le (Nat.le_of_sub_eq_zero h))
    simpa using all slot hslot
  · intro none
    have all : (s.ring.toList.filter fun slot => !selected slot.entry) = s.ring.toList := by
      rw [filter_eq_self]
      intro slot hslot
      rw [none slot hslot]
      rfl
    rw [all, Nat.sub_self]

theorem compact_toList (s : State) (selected : Entry → Bool) :
    (compact s selected).ring.toList = s.ring.toList.filter fun slot => !selected slot.entry :=
  toList_ofList _ _ _ (by decide)

theorem compact_fresh : Fresh (compact s selected) ↔ ∀ slot ∈ s.ring.toList, selected slot.entry = true := by
  rw [Fresh, compact_toList, filter_eq_nil_iff]
  simp

theorem deleteMatching_some (h : Saved s disk file) (some : removed s selected ≠ 0) :
    (run (deleteMatching s selected) disk).2.1 = deleted s selected := by
  have persistent : (compact s selected).persistent = true := h.regular.persistent
  show (run (if removed s selected = 0 then pure (s, Except.ok 0) else _) disk).2.1 = _
  rw [if_neg some, if_pos persistent, run_bind, run_storeRewrite h.here]
  rfl

theorem holds_deleteMatching {good : Disk → Prop} (h : Saved s disk file) :
    Holds good (deleteMatching s selected) disk ↔
      good disk ∧ (removed s selected ≠ 0 → Holds good (storeRewrite (compact s selected)) disk) := by
  have persistent : (compact s selected).persistent = true := h.regular.persistent
  have rewritten := run_storeRewrite (s := compact s selected) h.here
  refine (holds_call _ _).trans ?_
  rw [within_quiet fun _ => rfl]
  refine and_congr_right fun here => ?_
  show Holds good (if removed s selected = 0 then pure (s, Except.ok 0) else _) disk ↔ _
  by_cases nothing : removed s selected = 0
  · rw [if_pos nothing]
    exact iff_of_true here fun some => absurd nothing some
  · rw [if_neg nothing, if_pos persistent, imp_iff_right nothing]
    refine holds_bind_pure ?_
    rw [rewritten]
    exact ⟨_, rfl⟩

theorem deleted_saved (h : Saved s disk file) (selected : Entry → Bool) {disk' : Disk}
    (here : disk' .store = some (rewrittenFile (compact s selected))) :
    Saved (deleted s selected) disk' (rewrittenFile (compact s selected)) where
  regular :=
    { persistent := rfl
      generation := successor_pos _
      generation_lt := successor_lt h.regular.generation_lt
      nextId := h.regular.nextId
      nextId_lt := h.regular.nextId_lt
      ids := by
        intro slot hslot
        have list : (deleted s selected).ring.toList =
            s.ring.toList.filter fun slot => !selected slot.entry := compact_toList s selected
        rw [list] at hslot
        exact h.regular.ids slot (mem_filter.mp hslot).1 }
  here := here
  stored := Stored.rewritten (compact s selected) rfl

theorem deleteMatching_holds (h : Saved s disk file) (selected : Entry → Bool) :
    Holds (Recovers s (run (deleteMatching s selected) disk).2.1) (deleteMatching s selected) disk ↔
      Distinct s ∧ AllOrNone s selected := by
  rw [holds_deleteMatching h]
  by_cases nothing : removed s selected = 0
  · have none : AllOrNone s selected := .inr (removed_zero.mp nothing)
    rw [and_iff_left none, and_iff_left fun some => absurd nothing some]
    exact holds_nothing h ()
  · rw [imp_iff_right nothing, deleteMatching_some h nothing]
    have here : staged (compact s selected) disk .store = some file := by
      rw [staged, update_of_ne (by decide), h.here]
    have temporary : staged (compact s selected) disk .temporary = some (rewrittenFile (compact s selected)) :=
      update_self _ _ _
    have hold : Distinct s → ∀ d : Disk, d .store = some file → Recovers s (deleted s selected) d :=
      fun distinct d hd => h.shows.recovers_before distinct hd
    constructor
    · intro holds
      have distinct : Distinct s := saved_distinct h holds.2
      refine ⟨distinct, .inl (compact_fresh.mp ?_)⟩
      obtain ⟨d, missing, recovers⟩ := replaceFile_gap here temporary
        ((holds_storeRewrite h.here (hold distinct)).mp holds.2)
      rcases recovers.lost (reload_missing missing) with empty | empty
      · exact absurd (by rw [removed, fresh_iff.mp empty, Nat.zero_sub]) nothing
      · exact empty
    · rintro ⟨distinct, all | none⟩
      · have empty : Fresh (deleted s selected) := compact_fresh.mpr all
        refine ⟨hold distinct _ h.here, (holds_storeRewrite h.here (hold distinct)).mpr ?_⟩
        refine replaceFile_holds here temporary (hold distinct) ?_ ?_
        · intro d missing
          exact (reload_missing missing).recovers_after empty
        · intro d hd
          exact (deleted_saved h selected hd).shows.recovers_after empty.distinct hd
      · exact absurd (removed_zero.mpr none) nothing

theorem Shows.putRecord (h : Shows s file) (room : s.ring.count < capacity) (landed : Landed) (slot : Slot) :
    Shows s (file.putRecord s.ring.head landed slot) where
  sized := putRecord_sized h.sized.1 h.sized.2 s.ring.head_lt landed slot
  counted := h.counted
  records i hi := by
    rw [putRecord_of_ne file (s.ring.index_ne_head room hi)]
    exact h.records i hi
  ids := h.ids

theorem Shows.tearHeader (h : Shows s file) {copy : Nat} (hcopy : copy < 2)
    (backed : file.headers ((copy + 1) % 2) = some (makeHeader s s.generation)) (header : Header) :
    Shows s (file.putHeader copy .torn header) where
  sized := putHeader_sized h.sized.1 h.sized.2 hcopy .torn header
  counted := by
    obtain ⟨valid, -⟩ := h.counted
    have torn : (file.putHeader copy .torn header).headers copy = none := update_self _ _ _
    have other : (file.putHeader copy .torn header).headers ((copy + 1) % 2) =
        some (makeHeader s s.generation) := by
      rw [putHeader_of_ne _ (by omega), backed]
    refine ⟨valid, ?_⟩
    match copy, hcopy with
    | 0, _ =>
      rw [torn, show (1 : Nat) = (0 + 1) % 2 from rfl, other, newestHeader, checked_some valid]
      rfl
    | 1, _ =>
      rw [torn, show (0 : Nat) = (1 + 1) % 2 from rfl, other, newestHeader, checked_some valid]
      rfl
  records := h.records
  ids := h.ids

theorem published_saved (h : Saved s disk file) (message : Publish) (clocks : Clocks) {disk' : Disk}
    (here : disk' .store = some (publishedFile s message clocks file)) :
    Saved (published s message clocks) disk' (publishedFile s message clocks file) where
  regular :=
    { persistent := h.regular.persistent
      generation := successor_pos _
      generation_lt := successor_lt h.regular.generation_lt
      nextId := successor_pos _
      nextId_lt := successor_lt h.regular.nextId_lt
      ids := by
        intro slot hslot
        have list : (published s message clocks).ring.toList =
            s.ring.survivors ++ [publishedSlot s message clocks] := toList_push _ _
        rw [list] at hslot
        rcases mem_append.mp hslot with old | new
        · exact h.regular.ids slot (s.ring.survivors_suffix.subset old)
        · rw [mem_singleton.mp new]
          exact ne_of_gt h.regular.nextId }
  here := here
  stored := h.stored.push h.regular (publishedSlot s message clocks) (insert s message clocks).unread
    (insert s message clocks).nextId (insert s message clocks).dropped .ok rfl

theorem holds_publish {good : Disk → Prop} (h : Saved s disk file) {message : Publish} (joins : Joins s message)
    (clocks : Clocks) : Holds good (publish s message clocks) disk ↔
      good disk ∧
        (∀ landed, good (update disk .store
          (some (file.putRecord s.ring.head landed (publishedSlot s message clocks))))) ∧
        ∀ landed, good (update disk .store
          (some ((file.putRecord s.ring.head .new (publishedSlot s message clocks)).putHeader
            (successor s.generation % 2) landed
              (makeHeader (published s message clocks) (successor s.generation))))) := by
  have stores : (insert s message clocks).persistent = true := h.regular.persistent
  have slot : (insert s message clocks).ring.slots s.ring.head = publishedSlot s message clocks := update_self _ _ _
  have writes : Holds good (storeWrite (insert s message clocks) s.ring.head true) disk ↔ _ :=
    holds_storeWrite_header stores s.ring.head_lt h.here
  rw [slot] at writes
  unfold publish
  rw [if_pos joins.1, joins.2]
  rw [if_pos stores]
  exact (holds_bind_pure (by exact ⟨_, rfl⟩)).trans writes

theorem published_ids (h : s.ring.count < capacity) (message : Publish) (clocks : Clocks) :
    (published s message clocks).ring.toList.map (·.entry.id) =
      s.ring.toList.map (·.entry.id) ++ [s.nextId] := by
  have list : (published s message clocks).ring.toList =
      s.ring.toList ++ [publishedSlot s message clocks] := toList_push_of_lt _ h _
  rw [list, map_append]
  rfl

theorem successor_ne (value : Nat) : successor value ≠ value := by
  unfold successor
  split <;> omega

theorem published_distinct (room : s.ring.count < capacity) (distinct : Distinct s)
    (message : Publish) (clocks : Clocks) :
    Distinct (published s message clocks) ↔ successor s.nextId ∉ s.ring.toList.map (·.entry.id) := by
  have ids := published_ids room message clocks
  have nextId : (published s message clocks).nextId = successor s.nextId := rfl
  constructor
  · intro after known
    apply after.fresh
    rw [ids, nextId]
    exact mem_append_left _ known
  · intro unknown
    refine ⟨?_, ?_⟩
    · rw [ids]
      exact nodup_append.mpr ⟨distinct.nodup, nodup_singleton _, fun id hid other hother same =>
        distinct.fresh (mem_singleton.mp hother ▸ same ▸ hid)⟩
    · rw [ids, nextId]
      intro known
      rcases mem_append.mp known with old | new
      · exact unknown old
      · exact successor_ne s.nextId (mem_singleton.mp new)

theorem newestHeader_torn {copy : Nat} (hcopy : copy < 2) (torn : file.headers copy = none)
    {header : ValidHeader} (counted : newestHeader (file.headers 0) (file.headers 1) = some header) :
    file.headers ((copy + 1) % 2) = some header.val := by
  apply checked_eq_some
  match copy, hcopy with
  | 0, _ =>
    rw [torn, newestHeader] at counted
    exact counted
  | 1, _ =>
    rw [torn, newestHeader] at counted
    cases first : checked (file.headers 0) with
    | none =>
      rw [first] at counted
      cases counted
    | some other =>
      rw [first] at counted
      exact counted

theorem other_header (h : Saved s disk file) {header : Header}
    (other : file.headers ((successor s.generation + 1) % 2) = some header) :
    header = makeHeader s s.generation ∨ Older s header := by
  rcases successor_cases h.regular.generation_lt with ⟨next, -⟩ | ⟨last, wraps⟩
  · have place : (successor s.generation + 1) % 2 = s.generation % 2 := by
      rw [next]
      omega
    rw [place, h.stored.current] at other
    exact .inl (Option.some.inj other).symm
  · have place : (successor s.generation + 1) % 2 = (s.generation + 1) % 2 := by omega
    rw [place] at other
    exact h.stored.other header other

theorem torn_header {slot : Slot} {header : Header} {disk' : Disk}
    (here : disk' .store = some ((file.putRecord s.ring.head .new slot).putHeader
      (successor s.generation % 2) .torn header)) :
    Fresh (reload disk') ∨ ∃ header, file.headers ((successor s.generation + 1) % 2) = some header ∧
      (reload disk').ring.toList.length = header.count := by
  have copy : successor s.generation % 2 < 2 := Nat.mod_lt _ (by decide)
  rcases reload_cases disk' with fresh | ⟨file', header', hstore, described⟩
  · exact .inl fresh
  · cases here.symm.trans hstore
    have torn : ((file.putRecord s.ring.head .new slot).putHeader (successor s.generation % 2)
        .torn header).headers (successor s.generation % 2) = none := update_self _ _ _
    have other := newestHeader_torn copy torn described.counted
    rw [putHeader_of_ne _ (by omega), putRecord_headers] at other
    have place : (successor s.generation % 2 + 1) % 2 = (successor s.generation + 1) % 2 := by omega
    rw [place] at other
    refine .inr ⟨header'.val, other, ?_⟩
    rw [described.entries, length_map, coveredPlaces, length_map, length_range]

theorem publish_holds (h : Saved s disk file) (message : Publish) (clocks : Clocks) :
    Holds (Recovers s (run (publish s message clocks) disk).2.1) (publish s message clocks) disk ↔
      Distinct s ∧ (Joins s message → s.ring.count < capacity ∧ (Backed s file ∨ s.ring.count = 0) ∧
        successor s.nextId ∉ s.ring.toList.map (·.entry.id)) := by
  by_cases joins : Joins s message
  · rw [imp_iff_right joins]
    have leaves : run (publish s message clocks) disk = _ := run_publish h.regular.persistent joins.1 joins.2 h.here
    have after : (run (publish s message clocks) disk).2.1 = published s message clocks := by rw [leaves]
    have size : (published s message clocks).ring.count =
        if s.ring.count < capacity then s.ring.count + 1 else s.ring.count := rfl
    rw [after]
    constructor
    · intro holds
      have distinct := saved_distinct h holds
      obtain ⟨-, record, header⟩ := (holds_publish h joins clocks).mp holds
      have room : s.ring.count < capacity := by
        by_contra full
        have full := le_antisymm s.ring.count_le (Nat.le_of_not_lt full)
        have first : 0 < s.ring.count := by
          rw [full]
          decide
        have torn := torn_record h first (publishedSlot s message clocks)
        rw [s.ring.index_zero full] at torn
        rcases (record .torn).lost torn with empty | empty
        · rw [fresh_iff.mp empty] at first
          exact lt_irrefl _ first
        · rw [fresh_iff, size, if_neg (Nat.not_lt_of_le (le_of_eq full.symm))] at empty
          exact ne_of_gt first empty
      refine ⟨distinct, room, ?_, ?_⟩
      · by_contra exposed
        push Not at exposed
        have short : (reload (update disk .store
            (some ((file.putRecord s.ring.head .new (publishedSlot s message clocks)).putHeader
              (successor s.generation % 2) .torn
                (makeHeader (published s message clocks) (successor s.generation)))))).ring.toList.length <
            s.ring.count := by
          rcases torn_header (update_self _ _ _) with fresh | ⟨header, other, length⟩
          · rw [show _ = [] from fresh]
            exact Nat.pos_of_ne_zero exposed.2
          · rw [length]
            rcases other_header h other with current | older
            · rw [current] at other
              exact absurd other exposed.1
            · rcases older.shorter with less | full
              · exact less
              · exact absurd full (ne_of_lt room)
        rcases (header .torn).entries with same | same
        · rw [same, length_toList] at short
          exact lt_irrefl _ short
        · rw [same, length_toList, size, if_pos room] at short
          omega
      · have final := holds_finish holds
        rw [leaves] at final
        have here := update_self Path.store (some (publishedFile s message clocks file)) disk
        have same := (published_saved h message clocks here).shows.reload here
        exact (published_distinct room distinct message clocks).mp (final.distinct.congr same.1.symm same.2.symm)
    · rintro ⟨distinct, room, backed, unknown⟩
      have written := h.shows.putRecord room .new (publishedSlot s message clocks)
      refine (holds_publish h joins clocks).mpr ⟨saved_recovers h distinct _, fun landed => ?_, fun landed => ?_⟩
      · exact (h.shows.putRecord room landed _).recovers_before distinct (update_self _ _ _)
      · cases landed with
        | old =>
          rw [putHeader_old]
          exact written.recovers_before distinct (update_self _ _ _)
        | torn =>
          rcases backed with backed | empty
          · have copy : successor s.generation % 2 < 2 := Nat.mod_lt _ (by decide)
            have place : (successor s.generation % 2 + 1) % 2 = (successor s.generation + 1) % 2 := by omega
            have other : (file.putRecord s.ring.head .new (publishedSlot s message clocks)).headers
                ((successor s.generation % 2 + 1) % 2) = some (makeHeader s s.generation) := by
              rw [place, putRecord_headers]
              exact backed
            exact (written.tearHeader copy other _).recovers_before distinct (update_self _ _ _)
          · have nothing : Fresh (reload (update disk .store
                (some ((file.putRecord s.ring.head .new (publishedSlot s message clocks)).putHeader
                  (successor s.generation % 2) .torn
                    (makeHeader (published s message clocks) (successor s.generation)))))) := by
              rcases torn_header (update_self _ _ _) with fresh | ⟨header, other, length⟩
              · exact fresh
              · have none : header.count = 0 := by
                  rcases other_header h other with current | older
                  · rw [current]
                    exact empty
                  · rcases older.shorter with less | full
                    · omega
                    · exact absurd full (ne_of_lt room)
                exact length_eq_zero_iff.mp (length.trans none)
            exact nothing.recovers_before (fresh_iff.mpr empty)
        | new =>
          have here := update_self Path.store (some (publishedFile s message clocks file)) disk
          exact (published_saved h message clocks here).shows.recovers_after
            ((published_distinct room distinct message clocks).mpr unknown) here
  · have stays : publish s message clocks = pure (s, .error .invalidArg) ∨
        ∃ id, publish s message clocks = pure (s, .ok id) := by
      unfold publish
      by_cases valid : publishValid message = true
      · rw [if_pos valid]
        cases known : findDuplicate s (dedupeHash message) with
        | none => exact absurd ⟨valid, known⟩ joins
        | some id => exact .inr ⟨id, rfl⟩
      · rw [if_neg valid]
        exact .inl rfl
    rw [and_iff_left fun joined => absurd joined joins]
    rcases stays with stays | ⟨id, stays⟩
    · rw [stays]
      exact holds_nothing h _
    · rw [stays]
      exact holds_nothing h _

theorem newestHeader_mem {first second : Option Header} {header : ValidHeader}
    (counted : newestHeader first second = some header) : first = some header.val ∨ second = some header.val := by
  unfold newestHeader at counted
  cases hfirst : checked first with
  | none =>
    rw [hfirst] at counted
    exact .inr (checked_eq_some counted)
  | some one =>
    cases hsecond : checked second with
    | none =>
      rw [hfirst, hsecond] at counted
      cases counted
      exact .inl (checked_eq_some hfirst)
    | some two =>
      rw [hfirst, hsecond] at counted
      dsimp only at counted
      split at counted
      · cases counted
        exact .inr (checked_eq_some hsecond)
      · cases counted
        exact .inl (checked_eq_some hfirst)

def Hollow (disk : Disk) : Prop :=
  ∃ file, disk .store = some file ∧ ∀ copy header, file.headers copy = some header → header.count = 0

theorem Hollow.reload (h : Hollow disk) : Fresh (reload disk) := by
  obtain ⟨file, here, none⟩ := h
  rcases reload_cases disk with fresh | ⟨file', header, hstore, described⟩
  · exact fresh
  · cases here.symm.trans hstore
    have zero : header.val.count = 0 := by
      rcases newestHeader_mem described.counted with first | second
      · exact none 0 _ first
      · exact none 1 _ second
    refine length_eq_zero_iff.mp ?_
    rw [described.entries, length_map, coveredPlaces, length_map, length_range, zero]

theorem Hollow.putHeader (h : Hollow disk) (copy : Nat) (landed : Landed) {header : Header}
    (empty : header.count = 0) : Hollow (effect (.writeHeader .store copy header) disk landed) := by
  obtain ⟨file, here, none⟩ := h
  rw [effect_writeHeader here]
  refine ⟨_, update_self _ _ _, fun copy' header' hheader => ?_⟩
  by_cases same : copy' = copy
  · subst same
    have written : (file.putHeader copy' landed header).headers copy' =
        landed.leave (file.headers copy') (some header) := update_self _ _ _
    rw [written] at hheader
    cases landed with
    | old => exact none copy' header' hheader
    | torn => cases hheader
    | new =>
      cases hheader
      exact empty
  · rw [putHeader_of_ne _ same] at hheader
    exact none copy' header' hheader

theorem clear_holds (h : Saved s disk file) :
    Holds (Recovers s (run (clear s) disk).2.1) (clear s) disk ↔ Distinct s := by
  refine ⟨saved_distinct h, fun distinct => ?_⟩
  have persistent : (emptied s).persistent = true := h.regular.persistent
  have after : Fresh (run (clear s) disk).2.1 := by
    unfold clear
    rw [if_pos persistent, run_bind, run_storeReset]
    rfl
  generalize (run (clear s) disk).2.1 = left at after ⊢
  have hollow : ∀ d, Hollow d → Recovers s left d := fun d hd => hd.reload.recovers_after after
  have created : Hollow (effect (.create .store) disk .new) := by
    refine ⟨.empty, ?_, nofun⟩
    show update disk Path.store (some StoreFile.empty) .store = _
    rw [update_self]
  have empty : (makeHeader (emptied s) (successor s.generation)).count = 0 := rfl
  have first := fun landed => created.putHeader 0 landed empty
  have second := fun landed => (first .new).putHeader 1 landed empty
  unfold clear
  rw [if_pos persistent]
  refine (holds_bind_pure (by rw [run_storeReset]; exact ⟨_, rfl⟩)).mpr ?_
  unfold storeReset
  refine (holds_call _ _).mpr ⟨fun landed => ?_, ?_⟩
  · cases landed with
    | old | torn => exact saved_recovers h distinct _
    | new => exact hollow _ created
  · refine (holds_call _ _).mpr ⟨fun landed => hollow _ (first landed), ?_⟩
    refine (holds_call _ _).mpr ⟨fun landed => hollow _ (second landed), ?_⟩
    refine (holds_call _ _).mpr ⟨fun landed => hollow _ (second .new), ?_⟩
    exact (holds_call _ _).mpr ⟨fun landed => hollow _ (second .new), hollow _ (second .new)⟩

theorem deleteMany_holds (h : Saved s disk file) (ids : List Nat) :
    Holds (Recovers s (run (deleteMany s ids) disk).2.1) (deleteMany s ids) disk ↔
      Distinct s ∧ (0 ∈ ids ∨ AllOrNone s fun entry => entry.id ∈ ids) := by
  unfold deleteMany
  by_cases refused : ids = [] ∨ 0 ∈ ids
  · rw [if_pos refused]
    have cautious : 0 ∈ ids ∨ AllOrNone s fun entry => entry.id ∈ ids := by
      rcases refused with none | zero
      · right
        right
        intro slot _
        simp [none]
      · exact .inl zero
    exact (holds_nothing h _).trans (and_iff_left cautious).symm
  · rw [if_neg refused, deleteMatching_holds h, or_iff_right fun zero => refused (.inr zero)]

theorem delete_single (s : State) (disk : Disk) {id : Nat} (named : id ≠ 0) :
    (run (delete s id) disk).2.1 = (run (deleteMany s [id]) disk).2.1 ∧
      ∀ good, Holds good (delete s id) disk ↔ Holds good (deleteMany s [id]) disk := by
  unfold delete
  rw [if_neg named]
  refine ⟨?_, fun good => holds_bind_pure ⟨_, rfl⟩⟩
  rw [run_bind]
  rfl

theorem delete_holds (h : Saved s disk file) (id : Nat) :
    Holds (Recovers s (run (delete s id) disk).2.1) (delete s id) disk ↔
      Distinct s ∧ AllOrNone s fun entry => entry.id = id := by
  have selects : (fun entry : Entry => decide (entry.id ∈ [id])) = fun entry => decide (entry.id = id) := by
    funext entry
    simp only [mem_singleton]
  by_cases zero : id = 0
  · have none : AllOrNone s fun entry => entry.id = id := by
      right
      intro slot hslot
      rw [zero]
      exact decide_eq_false (h.regular.ids slot hslot)
    unfold delete
    rw [if_pos zero]
    exact (holds_nothing h _).trans (and_iff_left none).symm
  · obtain ⟨after, holds⟩ := delete_single s disk zero
    have many : ¬0 ∈ [id] := fun mem => zero (mem_singleton.mp mem).symm
    rw [after, holds, deleteMany_holds h, or_iff_right many, selects]

theorem deleteSources_holds (h : Saved s disk file) (sources : List CString) :
    Holds (Recovers s (run (deleteSources s sources) disk).2.1) (deleteSources s sources) disk ↔
      Distinct s ∧
        ((sources.any fun source => source.bytes = [] || sourceMax ≤ source.strlen) = true ∨
          AllOrNone s fun entry => entry.source ∈ sources) := by
  unfold deleteSources
  by_cases refused : sources = [] ∨
      (sources.any fun source => source.bytes = [] || sourceMax ≤ source.strlen) = true
  · rw [if_pos refused]
    have cautious : (sources.any fun source => source.bytes = [] || sourceMax ≤ source.strlen) = true ∨
        AllOrNone s fun entry => entry.source ∈ sources := by
      rcases refused with none | long
      · right
        right
        intro slot _
        simp [none]
      · exact .inl long
    exact (holds_nothing h _).trans (and_iff_left cautious).symm
  · rw [if_neg refused, deleteMatching_holds h, or_iff_right fun long => refused (.inr long)]

theorem holds_fst {α : Type} (p : Prog (State × α)) (disk : Disk) :
    Holds (Recovers s (run (Prod.fst <$> p) disk).2) (Prod.fst <$> p) disk ↔
      Holds (Recovers s (run p disk).2.1) p disk := by
  rw [run_fst]
  exact holds_bind_pure ⟨_, rfl⟩

/-- A call survives power loss at any point exactly if the ids are distinct and the call is
cautious. -/
theorem call_atomic (h : Saved s disk file) (c : Call) : Atomic s disk c ↔ Distinct s ∧ Cautious s file c := by
  rw [Atomic, holds_iff]
  cases c with
  | publish message clocks => exact (holds_fst _ _).trans (publish_holds h message clocks)
  | get id markRead => exact (holds_fst _ _).trans (get_holds h id markRead)
  | markRead id read => exact (holds_fst _ _).trans (markRead_holds h id read)
  | delete id => exact (holds_fst _ _).trans (delete_holds h id)
  | deleteMany ids => exact (holds_fst _ _).trans (deleteMany_holds h ids)
  | deleteSources sources => exact (holds_fst _ _).trans (deleteSources_holds h sources)
  | clear => exact (holds_fst _ _).trans ((clear_holds h).trans (and_iff_left trivial).symm)

theorem history_saved {disk : Disk} (missing : disk .store = none) {starting : Nat → Env}
    {happenings : List Happening} (starts : ∀ n, Calm (starting n))
    (undisturbed : ∀ happening ∈ happenings, happening.Calm) :
    ∃ file, Saved (history disk starting happenings).1 (history disk starting happenings).2 file := by
  have started := init_empty missing
  rw [← finish_calm _ _ starts] at started
  have h : Follows (history disk starting happenings).1 (history disk starting happenings).2
      (purpose happenings) := happenings_follow started undisturbed
  obtain ⟨file, here, stored⟩ := h.stored
  exact ⟨file, h.regular, here, stored⟩

def device : State × Disk := history (fun _ => none) (fun _ => calm) []

def deviceWithNews : State × Disk :=
  history (fun _ => none) (fun _ => calm) [⟨.call (.publish news ⟨none, 7⟩), fun _ => calm⟩]

theorem device_saved : Saved device.1 device.2 (resetFile initial) := by
  have run : ∃ file, Saved device.1 device.2 file := history_saved rfl (fun _ => ⟨rfl, rfl⟩) nofun
  obtain ⟨file, saved⟩ := run
  have here : device.2 .store = some (resetFile initial) := by
    show (run init fun _ => none).1 .store = _
    rw [init, run_bind, run_storeLoad_missing rfl, run_storeReset]
    show update (fun _ : Path => (none : Option StoreFile)) .store (some (resetFile initial)) .store = _
    rw [update_self]
  cases here.symm.trans saved.here
  exact saved

theorem call_atomic_device : Atomic device.1 device.2 (.publish news ⟨none, 7⟩) ↔
      Distinct device.1 ∧ Cautious device.1 (resetFile initial) (.publish news ⟨none, 7⟩) :=
  call_atomic device_saved (.publish news ⟨none, 7⟩)

/-- A torn record takes the message with it that was only to be marked as read. -/
theorem markRead_splits : ¬Atomic deviceWithNews.1 deviceWithNews.2 (.markRead 1 true) := by
  intro atomic
  have lost := (atomic .torn 1).entries
  have lengths : (reload (lose .torn 1 (Call.body deviceWithNews.1 (.markRead 1 true))
      deviceWithNews.2)).ring.toList.length = 0 ∧ deviceWithNews.1.ring.toList.length = 1 ∧
      (run (Call.body deviceWithNews.1 (.markRead 1 true)) deviceWithNews.2).2.ring.toList.length = 1 := by
    decide
  rcases lost with same | same
  · rw [same, lengths.2.1] at lengths
    exact absurd lengths.1 (by decide)
  · rw [same, lengths.2.2] at lengths
    exact absurd lengths.1 (by decide)

end SolarOs.Inbox
