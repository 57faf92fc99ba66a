import Mathlib.Data.List.Basic
import Mathlib.Logic.Function.Basic

/-! Rings of slots. The slot at `head` is written next, the oldest of `count` entries
stands `count` places before it, and a full ring overwrites its oldest entry. -/

structure SlotRing (α : Type*) (capacity : Nat) where
  slots : Nat → α
  head : Nat
  count : Nat
  head_lt : head < capacity
  count_le : count ≤ capacity

namespace SlotRing
open Function List

variable {α β : Type*} {capacity : Nat} (r : SlotRing α capacity)

def oldest : Nat := (r.head + capacity - r.count) % capacity

/-- The slot of entry number `i`, counted from the oldest. -/
def index (i : Nat) : Nat := (r.oldest + i) % capacity

def entry (i : Nat) : α := r.slots (r.index i)

def toList : List α := (List.range r.count).map r.entry

def empty (blank : α) (h : 0 < capacity) : SlotRing α capacity where
  slots _ := blank
  head := 0
  count := 0
  head_lt := h
  count_le := Nat.zero_le _

/-- The slot at the head gets the entry; in a full ring it held the oldest one. -/
def push (x : α) : SlotRing α capacity where
  slots := update r.slots r.head x
  head := (r.head + 1) % capacity
  count := if r.count < capacity then r.count + 1 else r.count
  head_lt := Nat.mod_lt _ (Nat.zero_lt_of_lt r.head_lt)
  count_le := by
    have := r.count_le
    split <;> omega

/-- The number of the first entry that satisfies `p`. -/
def find (p : α → Bool) : Option Nat := (List.range r.count).find? fun i => p (r.entry i)

def modify (i : Nat) (f : α → α) : SlotRing α capacity :=
  { r with slots := update r.slots (r.index i) (f (r.entry i)) }

def modifyAll (f : α → α) : SlotRing α capacity :=
  (List.range r.count).foldl (fun r i => r.modify i f) r

/-- Entry `i + 1` moves to the slot of entry `i`, and so on for `n` entries. -/
def shift : Nat → Nat → (Nat → α) → Nat → α
  | _, 0, slots => slots
  | i, n + 1, slots =>
    shift (i + 1) n (update slots (r.index i) (slots (r.index (i + 1))))

/-- Closes the gap that entry `i` leaves and blanks the slot that becomes free. -/
def remove (i : Nat) (blank : α) : SlotRing α capacity where
  slots := update (r.shift i (r.count - 1 - i) r.slots) ((r.head + capacity - 1) % capacity)
    blank
  head := (r.head + capacity - 1) % capacity
  count := r.count - 1
  head_lt := Nat.mod_lt _ (Nat.zero_lt_of_lt r.head_lt)
  count_le := Nat.le_trans (Nat.sub_le _ _) r.count_le

/-- The entries from slot 0 on. -/
def ofList (xs : List α) (blank : α) (fits : xs.length ≤ capacity) (h : 0 < capacity) :
    SlotRing α capacity where
  slots i := xs.getD i blank
  head := xs.length % capacity
  count := xs.length
  head_lt := Nat.mod_lt _ h
  count_le := fits

theorem mod_wrap {a c : Nat} (h : a < c + c) : a % c = if a < c then a else a - c := by
  split
  · rename_i small
    exact Nat.mod_eq_of_lt small
  · rename_i large
    rw [Nat.mod_eq_sub_mod (Nat.le_of_not_lt large), Nat.mod_eq_of_lt (by omega)]

theorem oldest_eq : r.oldest = if r.count ≤ r.head then r.head - r.count else r.head + capacity - r.count := by
  have hhead := r.head_lt
  have hcount := r.count_le
  by_cases all : r.count = 0
  · simp [oldest, all, Nat.mod_eq_of_lt hhead]
  · rw [oldest, mod_wrap (by omega)]
    split <;> split <;> omega

theorem oldest_lt : r.oldest < capacity := Nat.mod_lt _ (Nat.zero_lt_of_lt r.head_lt)

variable {i : Nat}

theorem index_eq (h : i ≤ capacity) :
    r.index i = if r.oldest + i < capacity then r.oldest + i else r.oldest + i - capacity := by
  have hold := r.oldest_lt
  rw [index, mod_wrap (by omega)]

theorem index_inj {i j : Nat} (hi : i < capacity) (hj : j < capacity) (h : r.index i = r.index j) : i = j := by
  rw [index_eq r (Nat.le_of_lt hi), index_eq r (Nat.le_of_lt hj)] at h
  split at h <;> split at h <;> omega

theorem length_toList : r.toList.length = r.count := by
  rw [toList, length_map, length_range]

theorem getElem?_toList (h : i < r.count) : r.toList[i]? = some (r.entry i) := by
  rw [toList, getElem?_map, getElem?_range h, Option.map_some]

theorem toList_eq_of {xs : List α} (count : r.count = xs.length)
    (entries : ∀ i, i < r.count → xs[i]? = some (r.entry i)) : r.toList = xs := by
  apply ext_getElem?
  intro i
  by_cases h : i < r.count
  · rw [r.getElem?_toList h, entries i h]
  · rw [getElem?_eq_none, getElem?_eq_none]
    · omega
    · rw [length_toList]
      omega

theorem index_count (h : r.count < capacity) : r.index r.count = r.head := by
  have hhead := r.head_lt
  rw [index_eq r (Nat.le_of_lt h), oldest_eq]
  split <;> split <;> omega

theorem index_zero (h : r.count = capacity) : r.index 0 = r.head := by
  have hhead := r.head_lt
  rw [index_eq r (Nat.zero_le _), oldest_eq]
  split <;> split <;> omega

theorem head_push (x : α) : (r.push x).head = if r.head + 1 < capacity then r.head + 1 else r.head + 1 - capacity := by
  have hhead := r.head_lt
  exact mod_wrap (by omega)

theorem index_push_of_lt (h : r.count < capacity) (x : α) (i : Nat) : (r.push x).index i = r.index i := by
  have hhead := r.head_lt
  have count : (r.push x).count = r.count + 1 := if_pos h
  have oldest : (r.push x).oldest = r.oldest := by
    rw [oldest_eq, oldest_eq, count, head_push]
    split <;> split <;> split <;> omega
  rw [index, index, oldest]

theorem index_push_of_full (h : r.count = capacity) (x : α) (hi : i + 1 ≤ capacity) :
    (r.push x).index i = r.index (i + 1) := by
  have hhead := r.head_lt
  have count : (r.push x).count = r.count := if_neg (by omega)
  have first : r.oldest = r.head := by
    rw [oldest_eq]
    split <;> omega
  have next : (r.push x).oldest =
      if r.head + 1 < capacity then r.head + 1 else r.head + 1 - capacity := by
    rw [oldest_eq, count, head_push]
    split <;> split <;> omega
  rw [index_eq (r.push x) (by omega), index_eq r hi, first, next]
  split <;> split <;> split <;> omega

theorem index_capacity (h : r.count = capacity) : r.index capacity = r.head := by
  have hhead := r.head_lt
  rw [index_eq r (Nat.le_refl capacity), oldest_eq]
  split <;> split <;> omega

theorem index_push (x : α) (hi : i < (r.push x).count) :
    (r.push x).index i = r.head ∨ ∃ j < r.count, (r.push x).index i = r.index j := by
  by_cases h : r.count < capacity
  · have count : (r.push x).count = r.count + 1 := if_pos h
    rw [r.index_push_of_lt h]
    by_cases new : i = r.count
    · rw [new]
      exact .inl (r.index_count h)
    · exact .inr ⟨i, by omega, rfl⟩
  · have full : r.count = capacity := Nat.le_antisymm r.count_le (Nat.le_of_not_lt h)
    have count : (r.push x).count = r.count := if_neg h
    rw [r.index_push_of_full full x (by omega)]
    by_cases new : i + 1 = capacity
    · rw [new]
      exact .inl (r.index_capacity full)
    · exact .inr ⟨i + 1, by omega, rfl⟩

theorem index_ne_head (h : r.count < capacity) (hi : i < r.count) : r.index i ≠ r.head := by
  rw [← r.index_count h]
  intro clash
  have := r.index_inj (by omega) h clash
  omega

theorem toList_push_of_lt (h : r.count < capacity) (x : α) : (r.push x).toList = r.toList ++ [x] := by
  have count : (r.push x).count = r.count + 1 := if_pos h
  apply toList_eq_of
  · rw [count, length_append, length_toList, length_singleton]
  · intro i hi
    rw [count] at hi
    rw [entry, r.index_push_of_lt h]
    by_cases new : i = r.count
    · subst new
      rw [r.index_count h, ← length_toList, getElem?_concat_length]
      exact congrArg some (update_self r.head x r.slots).symm
    · have old : i < r.count := by omega
      rw [getElem?_append_left (by rwa [length_toList]), r.getElem?_toList old, entry]
      exact congrArg some (update_of_ne (r.index_ne_head h old) _ _).symm

theorem toList_push_of_full (h : r.count = capacity) (x : α) : (r.push x).toList = r.toList.tail ++ [x] := by
  have hhead := r.head_lt
  have count : (r.push x).count = r.count := if_neg (by omega)
  apply toList_eq_of
  · rw [count, length_append, length_tail, length_toList, length_singleton]
    omega
  · intro i hi
    rw [count] at hi
    rw [entry, r.index_push_of_full h x (by omega)]
    by_cases new : i + 1 = capacity
    · have last : i = r.toList.tail.length := by
        rw [length_tail, length_toList]
        omega
      rw [new, r.index_capacity h, last, getElem?_concat_length]
      exact congrArg some (update_self r.head x r.slots).symm
    · rw [getElem?_append_left (by rw [length_tail, length_toList]; omega),
        getElem?_tail, r.getElem?_toList (by omega), entry]
      refine congrArg some (update_of_ne ?_ _ _).symm
      rw [← r.index_zero h]
      intro clash
      have := r.index_inj (by omega) (by omega) clash
      omega

theorem toList_of_full (h : r.count = capacity) : r.toList = r.slots r.head :: r.toList.tail := by
  have hhead := r.head_lt
  have first : r.entry 0 = r.slots r.head := by rw [entry, r.index_zero h]
  have some : r.toList[0]? = some (r.slots r.head) := by rw [r.getElem?_toList (by omega), first]
  cases hlist : r.toList with
  | nil =>
    rw [hlist] at some
    cases some
  | cons x xs =>
    rw [hlist] at some
    cases some
    rfl

theorem oldest_push (x : α) :
    (r.push x).oldest = if r.count < capacity then r.oldest else (r.oldest + 1) % capacity := by
  have first (ring : SlotRing α capacity) : ring.index 0 = ring.oldest := Nat.mod_eq_of_lt ring.oldest_lt
  split
  · rename_i room
    rw [← first, r.index_push_of_lt room, first]
  · rename_i full
    have hhead := r.head_lt
    have hcount := r.count_le
    rw [← first, r.index_push_of_full (by omega) x (by omega)]
    rfl

def survivors : List α := if r.count = capacity then r.toList.tail else r.toList

theorem toList_push (x : α) : (r.push x).toList = r.survivors ++ [x] := by
  rw [survivors]
  by_cases full : r.count = capacity
  · rw [if_pos full, r.toList_push_of_full full]
  · rw [if_neg full, r.toList_push_of_lt (Nat.lt_of_le_of_ne r.count_le full)]

theorem survivors_suffix : r.survivors <:+ r.toList := by
  rw [survivors]
  split
  · exact tail_suffix r.toList
  · exact suffix_refl r.toList

theorem find_eq (p : α → Bool) : r.find p = r.toList.findIdx? p := by
  have upto : ∀ n, (List.range n).find? (fun i => p (r.entry i)) =
      ((List.range n).map r.entry).findIdx? p := by
    intro n
    induction n with
    | zero => rfl
    | succ n ih =>
      rw [range_succ, find?_append, ih, map_append, findIdx?_append, length_map, length_range]
      by_cases h : p (r.entry n) <;> simp [h, findIdx?_cons]
  exact upto r.count

theorem find_some {p : α → Bool} (h : r.find p = some i) : i < r.count ∧ p (r.entry i) = true :=
  ⟨mem_range.mp (mem_of_find?_eq_some h), by simpa using find?_some h⟩

theorem find_none {p : α → Bool} (h : r.find p = none) : ∀ x ∈ r.toList, p x = false := by
  rw [find_eq, findIdx?_eq_none_iff] at h
  exact h

theorem entry_mem (h : i < r.count) : r.entry i ∈ r.toList :=
  mem_of_getElem? (r.getElem?_toList h)

theorem entry_modify {i j : Nat} (hi : i < r.count) (hj : j < r.count) (f : α → α) :
    (r.modify i f).entry j = if i = j then f (r.entry j) else r.entry j := by
  have hcount := r.count_le
  by_cases same : i = j
  · subst same
    rw [if_pos rfl]
    exact update_self _ _ _
  · rw [if_neg same]
    refine update_of_ne ?_ _ _
    intro clash
    exact same (r.index_inj (by omega) (by omega) clash.symm)

theorem toList_modify (h : i < r.count) (f : α → α) : (r.modify i f).toList = r.toList.modify i f := by
  apply toList_eq_of
  · rw [length_modify, length_toList]
    rfl
  · intro j hj
    have hj' : j < r.count := hj
    rw [getElem?_modify, r.getElem?_toList hj', r.entry_modify h hj']
    rfl

theorem modifyAll_upto (f : α → α) (n : Nat) (h : n ≤ r.count) :
    let s := (List.range n).foldl (fun r i => r.modify i f) r
    s.head = r.head ∧ s.count = r.count ∧
      ∀ j, j < r.count → s.entry j = if j < n then f (r.entry j) else r.entry j := by
  induction n with
  | zero => exact ⟨rfl, rfl, fun j _ => rfl⟩
  | succ n ih =>
    obtain ⟨head, count, entries⟩ := ih (by omega)
    rw [range_succ, foldl_append]
    refine ⟨head, count, fun j hj => ?_⟩
    have visited := entry_modify ((List.range n).foldl (fun r i => r.modify i f) r)
      (i := n) (j := j) (by rw [count]; omega) (by rw [count]; exact hj) f
    rw [foldl_cons, foldl_nil, visited, entries j hj]
    by_cases now : n = j
    · subst now
      simp
    · rw [if_neg now]
      by_cases before : j < n
      · rw [if_pos before, if_pos (by omega)]
      · rw [if_neg before, if_neg (by omega)]

theorem count_modifyAll (f : α → α) : (r.modifyAll f).count = r.count :=
  (r.modifyAll_upto f r.count (Nat.le_refl _)).2.1

theorem toList_modifyAll (f : α → α) : (r.modifyAll f).toList = r.toList.map f := by
  obtain ⟨-, count, entries⟩ := r.modifyAll_upto f r.count (Nat.le_refl _)
  apply toList_eq_of
  · rw [length_map, length_toList, count_modifyAll]
  · intro j hj
    rw [count_modifyAll] at hj
    have visited := entries j hj
    rw [if_pos hj] at visited
    rw [getElem?_map, r.getElem?_toList hj, Option.map_some]
    exact congrArg some visited.symm

theorem shift_index {i n : Nat} (slots : Nat → α) (h : i + n < r.count) {j : Nat} (hj : j < r.count) :
    r.shift i n slots (r.index j) =
      if i ≤ j ∧ j < i + n then slots (r.index (j + 1)) else slots (r.index j) := by
  have hcount := r.count_le
  have apart : ∀ a b, a < r.count → b < r.count → a ≠ b → r.index a ≠ r.index b :=
    fun a b ha hb ne clash => ne (r.index_inj (by omega) (by omega) clash)
  induction n generalizing i slots with
  | zero => rw [if_neg (by omega)]; rfl
  | succ n ih =>
    rw [shift, ih _ (by omega)]
    by_cases moved : i + 1 ≤ j ∧ j < i + 1 + n
    · rw [if_pos moved, if_pos (by omega)]
      exact update_of_ne (apart _ _ (by omega) (by omega) (by omega)) _ _
    · rw [if_neg moved]
      by_cases here : j = i
      · subst here
        rw [if_pos (by omega)]
        exact update_self _ _ _
      · rw [if_neg (by omega)]
        exact update_of_ne (apart _ _ hj (by omega) here) _ _

theorem toList_remove (h : i < r.count) (blank : α) : (r.remove i blank).toList = r.toList.eraseIdx i := by
  have hhead := r.head_lt
  have hcount := r.count_le
  have count : (r.remove i blank).count = r.count - 1 := rfl
  have head : (r.remove i blank).head =
      if r.head + capacity - 1 < capacity then r.head + capacity - 1
      else r.head + capacity - 1 - capacity := mod_wrap (by omega)
  have oldest : (r.remove i blank).oldest = r.oldest := by
    rw [oldest_eq, oldest_eq, count, head]
    split <;> split <;> split <;> omega
  have freed : (r.head + capacity - 1) % capacity = r.index (r.count - 1) := by
    rw [mod_wrap (by omega), index_eq r (by omega), oldest_eq]
    split <;> split <;> split <;> omega
  apply toList_eq_of
  · rw [count, length_eraseIdx_of_lt (by rwa [length_toList]), length_toList]
  · intro j hj
    rw [count] at hj
    have same : (r.remove i blank).index j = r.index j := by rw [index, index, oldest]
    have other : r.index j ≠ r.index (r.count - 1) := fun clash => by
      have := r.index_inj (by omega) (by omega) clash
      omega
    have moved : (r.remove i blank).entry j = r.shift i (r.count - 1 - i) r.slots (r.index j) := by
      rw [entry, same]
      exact update_of_ne (by rwa [freed]) _ _
    rw [moved, r.shift_index r.slots (by omega) (by omega), getElem?_eraseIdx]
    by_cases before : j < i
    · rw [if_pos before, if_neg (by omega), r.getElem?_toList (by omega)]
      rfl
    · rw [if_neg before, if_pos (by omega), r.getElem?_toList (by omega)]
      rfl

theorem toList_ofList (xs : List α) (blank : α) (fits : xs.length ≤ capacity) (h : 0 < capacity) :
    (ofList xs blank fits h).toList = xs := by
  have oldest : (ofList xs blank fits h).oldest = 0 := by
    have count : (ofList xs blank fits h).count = xs.length := rfl
    have head : (ofList xs blank fits h).head =
        if xs.length < capacity then xs.length else xs.length - capacity := mod_wrap (by omega)
    rw [oldest_eq, count, head]
    split <;> split <;> omega
  apply toList_eq_of
  · rfl
  · intro i hi
    have hi' : i < xs.length := hi
    have held : (ofList xs blank fits h).slots i = xs[i] := by
      show xs.getD i blank = xs[i]
      rw [getD_eq_getElem?_getD, getElem?_eq_getElem hi']
      rfl
    rw [entry, index, oldest, Nat.zero_add, Nat.mod_eq_of_lt (by omega), held]
    exact getElem?_eq_getElem hi'

end SlotRing
