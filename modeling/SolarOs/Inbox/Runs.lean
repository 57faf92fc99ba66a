import SolarOs.Inbox.Reference

/-! Whole runs of the inbox without storage failures: the ring follows the reference, and
the store file follows the ring. -/
namespace SolarOs.Inbox
open Program Function List SlotRing

variable {s : State} {r : Reference} {disk : Disk}

/-- The state a call leaves. -/
def Call.body (s : State) : Call → Prog State
  | .publish message clocks => Prod.fst <$> Inbox.publish s message clocks
  | .get id mark => Prod.fst <$> Inbox.get s id mark
  | .markRead id read => Prod.fst <$> Inbox.markRead s id read
  | .delete id => Prod.fst <$> Inbox.delete s id
  | .deleteMany ids => Prod.fst <$> Inbox.deleteMany s ids
  | .deleteSources sources => Prod.fst <$> Inbox.deleteSources s sources
  | .clear => Prod.fst <$> Inbox.clear s

structure Follows (s : State) (disk : Disk) (r : Reference) : Prop where
  mirrors : Mirrors s r
  numbered : r.Numbered
  persistent : s.persistent = true
  generation : 0 < s.generation
  generation_lt : s.generation < 2 ^ 32
  stored : ∃ file, disk .store = some file ∧ Stored s file

theorem Follows.regular (h : Follows s disk r) : Regular s where
  persistent := h.persistent
  generation := h.generation
  generation_lt := h.generation_lt
  nextId := by
    rw [h.mirrors.nextId]
    exact Nat.succ_pos _
  nextId_lt := by
    rw [h.mirrors.nextId]
    unfold idOf
    omega
  ids slot hslot := by
    rw [h.mirrors.entries] at hslot
    exact Nat.ne_of_gt (h.numbered.positive _ (mem_map_of_mem hslot))

variable {file : StoreFile}

theorem Stored.written {s' : State} {r' : Reference} (stored : Stored s' file) (h : Follows s disk r)
    (mirrors : Mirrors s' r') (numbered : r'.Numbered) (persistent : s'.persistent = true)
    (generation : s'.generation = s.generation ∨ s'.generation = successor s.generation) {disk' : Disk}
    (hfile : disk' .store = some file) : Follows s' disk' r' := by
  have bounds : 0 < s'.generation ∧ s'.generation < 2 ^ 32 := by
    rcases generation with same | next
    · rw [same]
      exact ⟨h.generation, h.generation_lt⟩
    · rw [next]
      exact ⟨successor_pos _, successor_lt h.generation_lt⟩
  exact ⟨mirrors, numbered, persistent, bounds.1, bounds.2, file, hfile, stored⟩

def publishedSlot (s : State) (message : Publish) (clocks : Clocks) : Slot where
  entry := makeEntry message clocks s.nextId
  dedupeHash := dedupeHash message

def published (s : State) (message : Publish) (clocks : Clocks) : State :=
  { insert s message clocks with generation := successor s.generation, storageError := .ok }

def publishedFile (s : State) (message : Publish) (clocks : Clocks) (file : StoreFile) : StoreFile :=
  (file.putRecord s.ring.head .new (publishedSlot s message clocks)).putHeader
    (successor s.generation % 2) .new (makeHeader (published s message clocks) (successor s.generation))

theorem run_publish {message : Publish} {clocks : Clocks} (persistent : s.persistent = true)
    (valid : publishValid message = true) (fresh : findDuplicate s (dedupeHash message) = none)
    (hfile : disk .store = some file) : run (publish s message clocks) disk =
      (update disk .store (some (publishedFile s message clocks file)),
        (published s message clocks, .ok s.nextId)) := by
  have stores : (insert s message clocks).persistent = true := persistent
  have slot : (insert s message clocks).ring.slots s.ring.head = publishedSlot s message clocks := update_self _ _ _
  have writes := run_storeWrite_header stores s.ring.head_lt hfile
  rw [slot] at writes
  unfold publish
  rw [if_pos valid, fresh]
  rw [if_pos stores, run_bind, writes]
  rfl

def Leads {β : Type} (p : Prog (State × β)) (disk : Disk) (r : Reference) : Prop :=
  Follows (run p disk).2.1 (run p disk).1 r

theorem Leads.intro {β : Type} {p : Prog (State × β)} {s' : State} {disk' : Disk} {result : β}
    (leaves : run p disk = (disk', (s', result))) (h : Follows s' disk' r) : Leads p disk r := by
  rw [Leads, leaves]
  exact h

theorem Leads.bind {β γ : Type} {p : Prog (State × β)} (h : Leads p disk r)
    {f : State × β → Prog (State × γ)} (keeps : ∀ out, ∃ result, f out = pure (out.1, result)) :
    Leads (p >>= f) disk r := by
  obtain ⟨result, hresult⟩ := keeps (run p disk).2
  rw [Leads, run_bind, hresult]
  exact h

theorem publish_follows (h : Follows s disk r) (message : Publish) (clocks : Clocks) :
    Leads (publish s message clocks) disk (r.publish message clocks) := by
  obtain ⟨file, hfile, stored⟩ := h.stored
  by_cases valid : publishValid message = true
  · cases hd : findDuplicate s (dedupeHash message) with
    | some id =>
      have duplicate : r.Duplicate message := by
        by_contra fresh
        rw [(findDuplicate_eq_none h.mirrors message).mpr fresh] at hd
        cases hd
      have stays : run (publish s message clocks) disk = (disk, (s, .ok id)) := by
        unfold publish
        rw [if_pos valid, hd]
        rfl
      rw [show r.publish message clocks = r from if_neg fun both => both.2 duplicate]
      exact .intro stays h
    | none =>
      have accepted := And.intro valid ((findDuplicate_eq_none h.mirrors message).mp hd)
      have mirrors := insert_mirrors h.mirrors clocks accepted
      have pushed : Stored (published s message clocks) (publishedFile s message clocks file) :=
        stored.push h.regular (publishedSlot s message clocks) (insert s message clocks).unread
          (insert s message clocks).nextId (insert s message clocks).dropped .ok rfl
      have there : update disk .store (some (publishedFile s message clocks file)) .store =
          some (publishedFile s message clocks file) := update_self _ _ _
      exact .intro (run_publish h.persistent valid hd hfile)
        (pushed.written h ⟨mirrors.entries, mirrors.unread, mirrors.nextId, mirrors.dropped⟩
          (Reference.publish_numbered h.numbered message clocks) h.persistent (.inr rfl) there)
  · have stays : run (publish s message clocks) disk = (disk, (s, .error .invalidArg)) := by
      unfold publish
      rw [if_neg valid]
      rfl
    rw [show r.publish message clocks = r from if_neg fun both => valid both.1]
    exact .intro stays h

/-- The slot of entry `i` once it is read or unread. -/
def markedSlot (s : State) (i : Nat) (unread : Bool) : Slot :=
  { s.ring.entry i with entry := { (s.ring.entry i).entry with unread } }

def marked (s : State) (i : Nat) (unread : Bool) : State :=
  { setUnread s i unread with storageError := .ok }

def markedFile (s : State) (i : Nat) (unread : Bool) (file : StoreFile) : StoreFile :=
  file.putRecord (s.ring.index i) .new (markedSlot s i unread)

theorem run_changeUnread {i : Nat} (unread : Bool) (persistent : s.persistent = true)
    (hfile : disk .store = some file) : run (changeUnread s i unread) disk =
      (update disk .store (some (markedFile s i unread file)), (marked s i unread, .ok)) := by
  have stores : (setUnread s i unread).persistent = true := persistent
  have place : s.ring.index i < capacity := Nat.mod_lt _ (by decide)
  have slot : (setUnread s i unread).ring.slots (s.ring.index i) = markedSlot s i unread := update_self _ _ _
  have writes := run_storeWrite_record stores place hfile
  rw [slot] at writes
  unfold changeUnread
  rw [if_pos stores, run_bind, writes]
  rfl

theorem changeUnread_follows (h : Follows s disk r) {id i : Nat} (found : find s id = some i)
    {unread : Bool} (changes : (s.ring.entry i).entry.unread = !unread) :
    Leads (changeUnread s i unread) disk (r.mark id unread) := by
  obtain ⟨file, hfile, stored⟩ := h.stored
  obtain ⟨inside, -, -⟩ := find_some found
  have mirrors := setUnread_mirrors h.mirrors found changes
  have changed : Stored (marked s i unread) (markedFile s i unread file) :=
    stored.modify inside (fun slot => { slot with entry := { slot.entry with unread } })
      (setUnread s i unread).unread .ok
  have there : update disk .store (some (markedFile s i unread file)) .store =
      some (markedFile s i unread file) := update_self _ _ _
  exact .intro (run_changeUnread unread h.persistent hfile)
    (changed.written h ⟨mirrors.entries, mirrors.unread, mirrors.nextId, mirrors.dropped⟩
      (Reference.mark_numbered h.numbered id unread) h.persistent (.inl rfl) there)

theorem get_follows (h : Follows s disk r) (id : Nat) (markRead : Bool) :
    Leads (get s id markRead) disk (r.apply (.get id markRead)) := by
  show Leads _ _ (if id ≠ 0 ∧ markRead = true then r.mark id false else r)
  unfold get
  by_cases zero : id = 0
  · rw [if_pos zero, if_neg fun both => both.1 zero]
    exact h
  · rw [if_neg zero]
    cases found : find s id with
    | none =>
      rw [mark_absent h.mirrors zero found, ite_self]
      exact h
    | some i =>
      show Leads (if (markRead && (s.ring.entry i).entry.unread) = true then _ else _) disk _
      by_cases changes : markRead = true ∧ (s.ring.entry i).entry.unread = true
      · have leads : Leads (changeUnread s i false) disk (r.mark id false) := changeUnread_follows h found changes.2
        rw [if_pos (Bool.and_eq_true_iff.mpr changes), if_pos ⟨zero, changes.1⟩]
        exact leads.bind fun _ => ⟨_, rfl⟩
      · rw [if_neg fun both => changes (Bool.and_eq_true_iff.mp both)]
        by_cases marks : markRead = true
        · have read : (s.ring.entry i).entry.unread = false := by
            rw [← Bool.not_eq_true]
            exact fun unread => changes ⟨marks, unread⟩
          rw [if_pos ⟨zero, marks⟩, mark_same h.mirrors found read]
          exact h
        · rw [if_neg fun both => marks both.2]
          exact h

theorem markRead_follows (h : Follows s disk r) (id : Nat) (read : Bool) :
    Leads (markRead s id read) disk (r.apply (.markRead id read)) := by
  show Leads _ _ (if id = 0 then r else r.mark id !read)
  unfold markRead
  by_cases zero : id = 0
  · rw [if_pos zero, if_pos zero]
    exact h
  · rw [if_neg zero, if_neg zero]
    cases found : find s id with
    | none =>
      rw [mark_absent h.mirrors zero found]
      exact h
    | some i =>
      show Leads (if (s.ring.entry i).entry.unread = read then _ else _) disk _
      by_cases changes : (s.ring.entry i).entry.unread = read
      · have other : (s.ring.entry i).entry.unread = !!read := by rw [Bool.not_not, changes]
        rw [if_pos changes]
        exact changeUnread_follows h found other
      · have same : (s.ring.entry i).entry.unread = !read := Bool.eq_not.mpr changes
        rw [if_neg changes, mark_same h.mirrors found same]
        exact h

def deleted (s : State) (selected : Entry → Bool) : State :=
  { compact s selected with
    generation := successor s.generation
    persistent := true
    storageError := .ok }

section
variable (h : Follows s disk r)
include h

theorem deleteMatching_follows (selected : Entry → Bool) :
    Leads (deleteMatching s selected) disk (r.delete selected) := by
  obtain ⟨file, hfile, -⟩ := h.stored
  have persistent : (compact s selected).persistent = true := h.persistent
  show Leads (if s.ring.count - (compact s selected).ring.count = 0 then _ else _) disk _
  by_cases nothing : s.ring.count - (compact s selected).ring.count = 0
  · have same : r.delete selected = r := by
      have all : (r.entries.filter fun slot => !selected slot.entry) = r.entries := by
        apply filter_sublist.eq_of_length_le
        have kept : (compact s selected).ring.count = (kept s selected).length := rfl
        rw [kept, Inbox.kept, h.mirrors.entries] at nothing
        rw [h.mirrors.count]
        exact Nat.le_of_sub_eq_zero nothing
      rw [Reference.delete, all]
    rw [if_pos nothing, same]
    exact h
  · rw [if_neg nothing, if_pos persistent, Leads, run_bind, run_storeRewrite hfile]
    have mirrors := compact_mirrors h.mirrors selected
    have stored : Stored (deleted s selected) (rewrittenFile (compact s selected)) :=
      Stored.rewritten (compact s selected) rfl
    exact stored.written h ⟨mirrors.entries, mirrors.unread, mirrors.nextId, mirrors.dropped⟩
      (Reference.delete_numbered h.numbered selected) rfl (.inr rfl) rfl

theorem deleteMany_follows (ids : List Nat) : Leads (deleteMany s ids) disk (r.apply (.deleteMany ids)) := by
  show Leads _ _ (if ids = [] ∨ 0 ∈ ids then r else _)
  unfold deleteMany
  by_cases invalid : ids = [] ∨ 0 ∈ ids
  · rw [if_pos invalid, if_pos invalid]
    exact h
  · rw [if_neg invalid, if_neg invalid]
    exact deleteMatching_follows h _

theorem delete_follows (id : Nat) : Leads (delete s id) disk (r.apply (.delete id)) := by
  have single : r.apply (.delete id) = r.apply (.deleteMany [id]) := by
    show (if id = 0 then r else _) = if [id] = [] ∨ 0 ∈ [id] then r else _
    have selects : (fun entry : Entry => decide (entry.id ∈ [id])) = fun entry => decide (entry.id = id) := by
      funext entry
      simp only [mem_singleton]
    by_cases zero : id = 0
    · rw [if_pos zero, if_pos (.inr (mem_singleton.mpr zero.symm))]
    · have valid : ¬([id] = [] ∨ 0 ∈ [id]) := by
        rintro (no | no)
        · cases no
        · exact zero (mem_singleton.mp no).symm
      rw [if_neg zero, if_neg valid, selects]
  unfold delete
  by_cases zero : id = 0
  · rw [if_pos zero, show r.apply (.delete id) = r from if_pos zero]
    exact h
  · rw [if_neg zero, single]
    exact (deleteMany_follows h [id]).bind fun _ => ⟨_, rfl⟩

theorem deleteSources_follows (sources : List CString) :
    Leads (deleteSources s sources) disk (r.apply (.deleteSources sources)) := by
  show Leads _ _ (if sources = [] ∨ _ then r else _)
  unfold deleteSources
  split
  · exact h
  · exact deleteMatching_follows h _

theorem clear_follows : Leads (clear s) disk (r.apply .clear) := by
  have persistent : (emptied s).persistent = true := h.persistent
  have stored : Stored { emptied s with
      generation := successor s.generation
      persistent := true
      storageError := .ok } (resetFile (emptied s)) := Stored.reset rfl rfl
  have there : update disk .store (some (resetFile (emptied s))) .store =
      some (resetFile (emptied s)) := update_self _ _ _
  unfold clear
  rw [if_pos persistent, Leads, run_bind, run_storeReset]
  exact stored.written h ⟨rfl, rfl, rfl, rfl⟩ Reference.empty_numbered rfl (.inr rfl) there

end

theorem run_fst {β : Type} (p : Prog (State × β)) (disk : Disk) :
    run (Prod.fst <$> p) disk = ((run p disk).1, (run p disk).2.1) := by
  show run (p >>= fun result => pure result.1) disk = _
  rw [run_bind, run_pure]

theorem call_follows (h : Follows s disk r) (c : Call) :
    Follows (run (c.body s) disk).2 (run (c.body s) disk).1 (r.apply c) := by
  cases c with
  | publish message clocks =>
    rw [Call.body, run_fst]
    exact publish_follows h message clocks
  | get id markRead =>
    rw [Call.body, run_fst]
    exact get_follows h id markRead
  | markRead id read =>
    rw [Call.body, run_fst]
    exact markRead_follows h id read
  | delete id =>
    rw [Call.body, run_fst]
    exact delete_follows h id
  | deleteMany ids =>
    rw [Call.body, run_fst]
    exact deleteMany_follows h ids
  | deleteSources sources =>
    rw [Call.body, run_fst]
    exact deleteSources_follows h sources
  | clear =>
    rw [Call.body, run_fst]
    exact clear_follows h

theorem SameInbox.stored {s' : State} (same : SameInbox s s') (h : Stored s file) : Stored s' file := by
  have count : s'.ring.count = s.ring.count := by
    rw [← length_toList, same.entries, length_toList]
  have index : ∀ i, s'.ring.index i = s.ring.index i := by
    intro i
    rw [index, index, oldest, oldest, same.head, count]
  have entry : ∀ i < s.ring.count, s'.ring.entry i = s.ring.entry i := by
    intro i hi
    have place := s'.ring.getElem?_toList (count ▸ hi)
    rw [same.entries, s.ring.getElem?_toList hi] at place
    exact (Option.some.inj place).symm
  have header : makeHeader s' s'.generation = makeHeader s s.generation := by
    rw [makeHeader, makeHeader, same.head, count, same.nextId, same.dropped, same.generation]
  refine ⟨h.large, h.small, ?_, ?_, ?_⟩
  · rw [header, same.generation]
    exact h.current
  · rw [header, same.generation]
    intro copy hcopy
    rcases h.other copy hcopy with current | older
    · exact .inl current
    · refine .inr ⟨older.word, ?_, ?_⟩
      · rw [same.generation]
        exact older.recent
      · rw [count]
        exact older.shorter
  · intro i hi
    rw [count] at hi
    rw [index, entry i hi]
    exact h.records i hi

theorem SameInbox.mirrors {s' : State} (same : SameInbox s s') (h : Mirrors s r) : Mirrors s' r where
  entries := same.entries.trans h.entries
  unread := by rw [same.unread, h.entries]
  nextId := same.nextId.trans h.nextId
  dropped := same.dropped.trans h.dropped

theorem init_same (h : Follows s disk r) : ∃ s', run init disk = (disk, s') ∧ SameInbox s s' ∧ Follows s' disk r := by
  obtain ⟨file, hfile, stored⟩ := h.stored
  obtain ⟨s', loads, same⟩ := stored.load h.regular hfile initial
  have starts : run init disk = (disk, s') := by
    rw [init, run_bind, loads]
    rfl
  have generation : s'.generation = s.generation := same.generation
  exact ⟨s', starts, same, same.mirrors h.mirrors, h.numbered, same.persistent,
    generation ▸ h.generation, generation ▸ h.generation_lt, file, hfile, same.stored stored⟩

theorem init_empty (missing : disk .store = none) : Follows (run init disk).2 (run init disk).1 .empty := by
  have stored : Stored { initial with
      generation := successor initial.generation
      persistent := true
      storageError := .ok } (resetFile initial) := Stored.reset rfl rfl
  have there : update disk .store (some (resetFile initial)) .store = some (resetFile initial) := update_self _ _ _
  have small : successor initial.generation < 2 ^ 32 := by decide
  rw [init, run_bind, run_storeLoad_missing missing, run_storeReset]
  exact ⟨⟨rfl, rfl, rfl, rfl⟩, Reference.empty_numbered, rfl, successor_pos initial.generation, small, _, there, stored⟩

inductive Event where
  | call (c : Call)
  | restart

def Event.body (s : State) : Event → Prog State
  | .call c => c.body s
  | .restart => init

def Reference.after (r : Reference) : Event → Reference
  | .call c => r.apply c
  | .restart => r

structure Happening where
  event : Event
  env : Nat → Env

def Happening.Calm (happening : Happening) : Prop := ∀ n, Inbox.Calm (happening.env n)

def happen (device : State × Disk) (happening : Happening) : State × Disk :=
  (finish act (happening.event.body device.1) device.2 happening.env).swap

def history (disk : Disk) (starting : Nat → Env) (happenings : List Happening) : State × Disk :=
  happenings.foldl happen (finish act init disk starting).swap

def purpose (happenings : List Happening) : Reference :=
  happenings.foldl (fun r happening => r.after happening.event) .empty

theorem happen_follows (h : Follows s disk r) {happening : Happening} (undisturbed : happening.Calm) :
    Follows (happen (s, disk) happening).1 (happen (s, disk) happening).2 (r.after happening.event) := by
  unfold happen
  rw [finish_calm _ _ undisturbed]
  cases happening.event with
  | call c => exact call_follows h c
  | restart =>
    obtain ⟨s', starts, -, follows⟩ := init_same h
    rw [Event.body, starts]
    exact follows

theorem happenings_follow (h : Follows s disk r) {happenings : List Happening}
    (undisturbed : ∀ happening ∈ happenings, happening.Calm) :
    Follows (happenings.foldl happen (s, disk)).1 (happenings.foldl happen (s, disk)).2
      (happenings.foldl (fun r happening => r.after happening.event) r) := by
  induction happenings generalizing s r disk with
  | nil => exact h
  | cons happening happenings ih =>
    exact ih (happen_follows h (undisturbed happening mem_cons_self))
      fun other hother => undisturbed other (mem_cons_of_mem happening hother)

/-- Without storage failures, the inbox holds the latest messages that were not deleted,
its counters count, and the store file gives all of it back. -/
theorem history_mirrors (disk : Disk) (missing : disk .store = none) (starting : Nat → Env)
    (happenings : List Happening) (starts : ∀ n, Calm (starting n))
    (undisturbed : ∀ happening ∈ happenings, happening.Calm) :
    let s := (history disk starting happenings).1
    let disk' := (history disk starting happenings).2
    let r := purpose happenings
    s.ring.toList = r.entries ∧
      r.entries.length ≤ capacity ∧
      (∀ slot ∈ s.ring.toList, slot.entry.id ≠ 0) ∧
      (r.drawn < 2 ^ 32 → (s.ring.toList.map (·.entry.id)).Nodup) ∧
      s.unread = s.ring.toList.countP (fun slot => slot.entry.unread) ∧
      s.dropped = r.overwritten % 2 ^ 32 ∧
      ∀ env, (∀ n, Calm (env n)) → ∃ s', finish act init disk' env = (disk', s') ∧ SameInbox s s' := by
  have started := init_empty missing
  rw [← finish_calm _ _ starts] at started
  have h : Follows (history disk starting happenings).1 (history disk starting happenings).2
      (purpose happenings) := happenings_follow started undisturbed
  refine ⟨h.mirrors.entries, ?_, h.regular.ids, ?_, ?_, h.mirrors.dropped, ?_⟩
  · rw [h.mirrors.count]
    exact count_le _
  · intro few
    rw [h.mirrors.entries]
    exact (h.numbered.sorted few).imp Nat.ne_of_lt
  · rw [h.mirrors.entries]
    exact h.mirrors.unread
  · intro env undisturbed
    obtain ⟨s', loads, same, -⟩ := init_same h
    exact ⟨s', (finish_calm _ _ undisturbed).trans loads, same⟩

/-- A message with a title and no more. -/
def news : Publish where
  source := some ⟨[0x61], by decide⟩
  topic := none
  sender := none
  title := some ⟨[0x62], by decide⟩
  body := none
  dedupeKey := none
  sourceId := 0
  sourceContext := 0
  timestampMs := 0
  priority := 1

theorem history_mirrors_news : let happenings : List Happening := [⟨.call (.publish news ⟨none, 7⟩), fun _ => calm⟩,
      ⟨.restart, fun _ => calm⟩, ⟨.call (.get 1 true), fun _ => calm⟩]
    (history (fun _ => none) (fun _ => calm) happenings).1.unread =
      (history (fun _ => none) (fun _ => calm) happenings).1.ring.toList.countP
        (fun slot => slot.entry.unread) := by
  intro happenings
  have undisturbed : ∀ happening ∈ happenings, happening.Calm := by
    intro happening hmem n
    simp only [happenings, mem_cons, not_mem_nil, or_false] at hmem
    rcases hmem with rfl | rfl | rfl
    · exact ⟨rfl, rfl⟩
    · exact ⟨rfl, rfl⟩
    · exact ⟨rfl, rfl⟩
  exact (history_mirrors (fun _ => none) rfl (fun _ => calm) happenings (fun _ => ⟨rfl, rfl⟩) undisturbed).2.2.2.2.1

end SolarOs.Inbox
