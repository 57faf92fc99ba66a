import SolarOs.Inbox.Writing
import SolarOs.Library.Keyed

/-! What the inbox is for: the latest messages that have not been deleted, oldest first. -/
namespace SolarOs.Inbox
open Program List SlotRing

inductive Call where
  | publish (message : Publish) (clocks : Clocks)
  | get (id : Nat) (markRead : Bool)
  | markRead (id : Nat) (read : Bool)
  | delete (id : Nat)
  | deleteMany (ids : List Nat)
  | deleteSources (sources : List CString)
  | clear

/-- A list of messages, the count of those that were overwritten and the count of those
that were published, both since the inbox was last cleared. -/
structure Reference where
  entries : List Slot
  overwritten : Nat
  drawn : Nat

/-- The id of message number `n`. -/
def idOf (n : Nat) : Nat := n % (2 ^ 32 - 1) + 1

/-- At most `capacity` entries from the end. -/
def latest (slots : List Slot) : List Slot := slots.drop (slots.length - capacity)

namespace Reference

def empty : Reference where
  entries := []
  overwritten := 0
  drawn := 0

variable (r : Reference)

def Duplicate (message : Publish) : Prop :=
  dedupeHash message ≠ 0 ∧ ∃ slot ∈ r.entries, slot.dedupeHash = dedupeHash message

instance (message : Publish) : Decidable (r.Duplicate message) := inferInstanceAs (Decidable (_ ∧ _))

def publish (message : Publish) (clocks : Clocks) : Reference :=
  if publishValid message = true ∧ ¬r.Duplicate message then
    { entries := latest (r.entries ++
        [{ entry := makeEntry message clocks (idOf r.drawn), dedupeHash := dedupeHash message }])
      overwritten := r.overwritten + (r.entries.length + 1 - capacity)
      drawn := r.drawn + 1 }
  else r

def mark (id : Nat) (unread : Bool) : Reference :=
  match r.entries.findIdx? fun slot => slot.entry.id = id with
  | none => r
  | some i =>
    { r with entries := r.entries.modify i fun slot => { slot with entry := { slot.entry with unread } } }

def delete (selected : Entry → Bool) : Reference :=
  { r with entries := r.entries.filter fun slot => !selected slot.entry }

/-- What each call is for. -/
def apply : Call → Reference
  | .publish message clocks => r.publish message clocks
  | .get id markRead => if id ≠ 0 ∧ markRead = true then r.mark id false else r
  | .markRead id read => if id = 0 then r else r.mark id !read
  | .delete id => if id = 0 then r else r.delete fun entry => entry.id = id
  | .deleteMany ids => if ids = [] ∨ 0 ∈ ids then r else r.delete fun entry => entry.id ∈ ids
  | .deleteSources sources =>
    if sources = [] ∨ (sources.any fun source => source.bytes = [] || sourceMax ≤ source.strlen) then r
    else r.delete fun entry => entry.source ∈ sources
  | .clear => .empty

/-- The ids grow along the list, as long as they have not been used up. -/
structure Numbered : Prop where
  positive : ∀ id ∈ r.entries.map (·.entry.id), 0 < id
  sorted : r.drawn < 2 ^ 32 → (r.entries.map (·.entry.id)).Pairwise (· < ·)
  drawn : r.drawn < 2 ^ 32 → ∀ id ∈ r.entries.map (·.entry.id), id ≤ r.drawn

variable {r}

theorem empty_numbered : empty.Numbered := ⟨nofun, fun _ => List.Pairwise.nil, fun _ => nofun⟩

theorem idOf_eq {n : Nat} (h : n + 1 < 2 ^ 32) : idOf n = n + 1 := by
  rw [idOf, Nat.mod_eq_of_lt (by omega)]

theorem successor_idOf (n : Nat) : successor (idOf n) = idOf (n + 1) := by
  unfold successor idOf
  split <;> omega

theorem Numbered.sublist (h : r.Numbered) {entries : List Slot} {overwritten : Nat}
    (sub : (entries.map (·.entry.id)).Sublist (r.entries.map (·.entry.id))) :
    ({ entries, overwritten, drawn := r.drawn } : Reference).Numbered where
  positive id hid := h.positive id (sub.subset hid)
  sorted small := (h.sorted small).sublist sub
  drawn small id hid := h.drawn small id (sub.subset hid)

theorem latest_suffix (slots : List Slot) : latest slots <:+ slots := drop_suffix _ _

theorem publish_numbered (h : r.Numbered) (message : Publish) (clocks : Clocks) :
    (r.publish message clocks).Numbered := by
  unfold publish
  split
  · let slot : Slot :=
      { entry := makeEntry message clocks (idOf r.drawn), dedupeHash := dedupeHash message }
    have ids : (r.entries ++ [slot]).map (·.entry.id) = r.entries.map (·.entry.id) ++ [idOf r.drawn] := by
      rw [map_append]
      rfl
    have all : ({ entries := r.entries ++ [slot], overwritten := 0, drawn := r.drawn + 1 } :
        Reference).Numbered := by
      refine ⟨?_, ?_, ?_⟩
      · rw [ids]
        intro id hid
        rcases mem_append.mp hid with old | new
        · exact h.positive id old
        · rw [mem_singleton.mp new]
          exact Nat.succ_pos _
      · show r.drawn + 1 < 2 ^ 32 → ((r.entries ++ [slot]).map (·.entry.id)).Pairwise (· < ·)
        rw [ids]
        intro small
        rw [pairwise_append]
        refine ⟨h.sorted (by omega), pairwise_singleton _ _, ?_⟩
        intro old hold new hnew
        rw [mem_singleton.mp hnew, idOf_eq small]
        exact Nat.lt_succ_of_le (h.drawn (by omega) old hold)
      · show r.drawn + 1 < 2 ^ 32 → ∀ id ∈ (r.entries ++ [slot]).map (·.entry.id), id ≤ r.drawn + 1
        rw [ids]
        intro small id hid
        rcases mem_append.mp hid with old | new
        · exact Nat.le_succ_of_le (h.drawn (by omega) id old)
        · exact Nat.le_of_eq ((mem_singleton.mp new).trans (idOf_eq small))
    exact all.sublist ((latest_suffix _).sublist.map _)
  · exact h

theorem mark_numbered (h : r.Numbered) (id : Nat) (unread : Bool) : (r.mark id unread).Numbered := by
  unfold mark
  split
  · exact h
  · rename_i i _
    have ids : (r.entries.modify i fun slot => { slot with entry := { slot.entry with unread } }).map
        (·.entry.id) = r.entries.map (·.entry.id) := by
      apply Keyed.map_modify
      intro slot
      rfl
    apply h.sublist
    rw [ids]

theorem delete_numbered (h : r.Numbered) (selected : Entry → Bool) : (r.delete selected).Numbered :=
  h.sublist (filter_sublist.map _)

end Reference

structure Mirrors (s : State) (r : Reference) : Prop where
  entries : s.ring.toList = r.entries
  unread : s.unread = r.entries.countP fun slot => slot.entry.unread
  nextId : s.nextId = idOf r.drawn
  dropped : s.dropped = r.overwritten % 2 ^ 32

variable {s : State} {r : Reference} {disk : Disk}

theorem Mirrors.count (h : Mirrors s r) : r.entries.length = s.ring.count := by
  rw [← h.entries, length_toList]

theorem findDuplicate_eq_none (h : Mirrors s r) (message : Publish) :
    findDuplicate s (dedupeHash message) = none ↔ ¬r.Duplicate message := by
  unfold findDuplicate Reference.Duplicate
  by_cases zero : dedupeHash message = 0
  · simp [zero]
  · rw [if_neg zero, Option.map_eq_none_iff, s.ring.find_eq, findIdx?_eq_none_iff, h.entries]
    simp [zero]

theorem latest_eq (slots : List Slot) (x : Slot) (h : slots.length ≤ capacity) :
    latest (slots ++ [x]) = (if slots.length = capacity then slots.tail else slots) ++ [x] := by
  rw [latest, length_append, length_singleton]
  by_cases full : slots.length = capacity
  · have one : slots.length + 1 - capacity = 1 := by omega
    rw [if_pos full, one, drop_one]
    have nonempty : slots ≠ [] := by
      rintro rfl
      exact absurd full (by decide)
    rw [tail_append_of_ne_nil nonempty]
  · have none : slots.length + 1 - capacity = 0 := by omega
    rw [if_neg full, none, drop_zero]

theorem insert_mirrors (h : Mirrors s r) {message : Publish} (clocks : Clocks)
    (accepted : publishValid message = true ∧ ¬r.Duplicate message) :
    Mirrors (insert s message clocks) (r.publish message clocks) := by
  have fits : r.entries.length ≤ capacity := h.count ▸ s.ring.count_le
  have publish : r.publish message clocks =
      { entries := latest (r.entries ++
          [{ entry := makeEntry message clocks (idOf r.drawn), dedupeHash := dedupeHash message }])
        overwritten := r.overwritten + (r.entries.length + 1 - capacity)
        drawn := r.drawn + 1 } := if_pos accepted
  have survivors : s.ring.survivors = if r.entries.length = capacity then r.entries.tail else r.entries := by
    rw [survivors, h.entries, h.count]
  have ring : (insert s message clocks).ring.toList = (if r.entries.length = capacity then r.entries.tail
      else r.entries) ++
        [{ entry := makeEntry message clocks (idOf r.drawn), dedupeHash := dedupeHash message }] := by
    show (s.ring.push _).toList = _
    rw [toList_push, survivors, h.nextId]
  rw [publish]
  refine ⟨?_, ?_, ?_, ?_⟩
  · rw [ring, latest_eq _ _ fits]
  · show (if s.ring.count = capacity ∧ (headSlot s).entry.unread = true then s.unread - 1 else s.unread) + 1 =
      (latest _).countP _
    rw [latest_eq _ _ fits, countP_append, ← h.count]
    have one : [({ entry := makeEntry message clocks (idOf r.drawn), dedupeHash := dedupeHash message } :
        Slot)].countP (fun slot => slot.entry.unread) = 1 := rfl
    rw [one]
    congr 1
    by_cases full : r.entries.length = capacity
    · have first := s.ring.toList_of_full (h.count ▸ full)
      rw [h.entries] at first
      have total := h.unread
      rw [first, countP_cons] at total
      rw [if_pos full]
      by_cases unread : (headSlot s).entry.unread = true
      · have unread' : (s.ring.slots s.ring.head).entry.unread = true := unread
        rw [if_pos ⟨full, unread⟩, total, if_pos unread', Nat.add_sub_cancel]
      · have read' : ¬(s.ring.slots s.ring.head).entry.unread = true := unread
        rw [if_neg fun both => unread both.2, total, if_neg read', Nat.add_zero]
    · rw [if_neg fun both => full both.1, if_neg full]
      exact h.unread
  · show successor s.nextId = idOf (r.drawn + 1)
    rw [h.nextId, Reference.successor_idOf]
  · show (if s.ring.count = capacity then (s.dropped + 1) % 2 ^ 32 else s.dropped) =
      (r.overwritten + (r.entries.length + 1 - capacity)) % 2 ^ 32
    rw [← h.count, h.dropped]
    by_cases full : r.entries.length = capacity
    · have one : r.entries.length + 1 - capacity = 1 := by omega
      rw [if_pos full, one, Nat.mod_add_mod]
    · have none : r.entries.length + 1 - capacity = 0 := by omega
      rw [if_neg full, none, Nat.add_zero]

theorem find_some {id i : Nat} (h : find s id = some i) : i < s.ring.count ∧ (s.ring.entry i).entry.id = id ∧
      s.ring.toList.findIdx? (fun slot => slot.entry.id = id) = some i := by
  unfold find at h
  split at h
  · cases h
  · obtain ⟨inside, hit⟩ := s.ring.find_some h
    rw [s.ring.find_eq] at h
    exact ⟨inside, by simpa using hit, h⟩

theorem find_none {id : Nat} (named : id ≠ 0) (h : find s id = none) :
    s.ring.toList.findIdx? (fun slot => slot.entry.id = id) = none := by
  unfold find at h
  rw [if_neg named, s.ring.find_eq] at h
  exact h

theorem countP_modify {slots : List Slot} {i : Nat} {slot : Slot} (h : slots[i]? = some slot) (unread : Bool)
    (changes : slot.entry.unread = !unread) :
    (slots.modify i fun slot => { slot with entry := { slot.entry with unread } }).countP
      (fun slot => slot.entry.unread) =
      if unread then slots.countP (fun slot => slot.entry.unread) + 1
      else slots.countP (fun slot => slot.entry.unread) - 1 := by
  induction slots generalizing i with
  | nil => cases h
  | cons first slots ih =>
    cases i with
    | zero =>
      cases h
      rw [modify_zero_cons, countP_cons, countP_cons]
      cases unread with
      | true => simp [changes]
      | false => simp [changes]
    | succ i =>
      rw [getElem?_cons_succ] at h
      rw [modify_succ_cons, countP_cons, countP_cons, ih h]
      cases unread with
      | true =>
        simp only [if_true]
        omega
      | false =>
        have some : 0 < slots.countP fun slot => slot.entry.unread := by
          rw [countP_pos_iff]
          exact ⟨slot, mem_of_getElem? h, changes⟩
        simp only [Bool.false_eq_true, if_false]
        omega

theorem setUnread_mirrors (h : Mirrors s r) {id i : Nat} (found : find s id = some i) {unread : Bool}
    (changes : (s.ring.entry i).entry.unread = !unread) : Mirrors (setUnread s i unread) (r.mark id unread) := by
  obtain ⟨inside, -, first⟩ := find_some found
  have place := s.ring.getElem?_toList inside
  rw [h.entries] at first place
  have mark : r.mark id unread = { r with entries := r.entries.modify i fun slot =>
      { slot with entry := { slot.entry with unread } } } := by
    unfold Reference.mark
    rw [first]
  rw [mark]
  refine ⟨?_, ?_, h.nextId, h.dropped⟩
  · show (s.ring.modify i _).toList = _
    rw [toList_modify _ inside, h.entries]
  · show (if unread = true then s.unread + 1 else s.unread - 1) = _
    rw [countP_modify place unread changes, h.unread]

theorem mark_same (h : Mirrors s r) {id i : Nat} (found : find s id = some i) {unread : Bool}
    (same : (s.ring.entry i).entry.unread = unread) : r.mark id unread = r := by
  obtain ⟨inside, -, first⟩ := find_some found
  have place := s.ring.getElem?_toList inside
  rw [h.entries] at first place
  have entries : (r.entries.modify i fun slot => { slot with entry := { slot.entry with unread } }) =
      r.entries := by
    apply ext_getElem?
    intro j
    rw [getElem?_modify]
    by_cases here : i = j
    · subst here
      simp only [place, if_true, Option.map_eq_map, Option.map_some, ← same]
    · simp [here]
  unfold Reference.mark
  rw [first]
  dsimp only
  rw [entries]

theorem mark_absent (h : Mirrors s r) {id : Nat} (named : id ≠ 0) (absent : find s id = none)
    (unread : Bool) : r.mark id unread = r := by
  have none := find_none named absent
  rw [h.entries] at none
  unfold Reference.mark
  rw [none]

theorem compact_mirrors (h : Mirrors s r) (selected : Entry → Bool) :
    Mirrors (compact s selected) (r.delete selected) := by
  have kept : kept s selected = r.entries.filter fun slot => !selected slot.entry := by
    rw [Inbox.kept, h.entries]
  refine ⟨?_, ?_, h.nextId, h.dropped⟩
  · show (ofList (Inbox.kept s selected) .blank (kept_fits s selected) (by decide)).toList = _
    rw [toList_ofList, kept]
    rfl
  · show ((Inbox.kept s selected).filter _).length = _
    rw [kept, countP_eq_length_filter]
    rfl

end SolarOs.Inbox
