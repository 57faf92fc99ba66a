import Mathlib.Data.List.Basic
import Mathlib.Data.List.Nodup

/-! Lists of records with distinct keys: the first record with a key is the only one. -/
namespace Keyed
open List

variable {α κ : Type*} {key : α → κ} {xs : List α}

theorem index_unique (distinct : (xs.map key).Nodup) {i j : Nat} {x y : α} (hi : xs[i]? = some x)
    (hj : xs[j]? = some y) (same : key x = key y) : i = j := by
  have mapped : (xs.map key)[i]? = (xs.map key)[j]? := by
    rw [getElem?_map, getElem?_map, hi, hj, Option.map_some, Option.map_some, same]
  have inside : i < (xs.map key).length := by
    rw [length_map]
    exact (List.getElem?_eq_some_iff.mp hi).1
  exact (getElem?_inj inside distinct).mp mapped

theorem eq_of_key (distinct : (xs.map key).Nodup) {x y : α} (hx : x ∈ xs) (hy : y ∈ xs)
    (same : key x = key y) : x = y := by
  obtain ⟨i, hi⟩ := getElem?_of_mem hx
  obtain ⟨j, hj⟩ := getElem?_of_mem hy
  cases index_unique distinct hi hj same
  rw [hi] at hj
  exact Option.some.inj hj

theorem map_modify {f : α → α} (keep : ∀ x, key (f x) = key x) (i : Nat) : (xs.modify i f).map key = xs.map key := by
  apply ext_getElem?
  intro j
  rw [getElem?_map, getElem?_map, getElem?_modify]
  cases xs[j]? with
  | none => rfl
  | some x =>
    simp only [Option.map_eq_map, Option.map_some]
    split
    · exact congrArg some (keep x)
    · rfl

theorem map_map_keep {f : α → α} (keep : ∀ x, key (f x) = key x) : (xs.map f).map key = xs.map key := by
  rw [map_map]
  exact map_congr_left fun x _ => keep x

variable [DecidableEq κ]

theorem findIdx?_some {k : κ} {i : Nat} (h : xs.findIdx? (fun x => key x = k) = some i) :
    ∃ x, xs[i]? = some x ∧ key x = k := by
  obtain ⟨inside, hit, -⟩ := findIdx?_eq_some_iff_getElem.mp h
  exact ⟨xs[i], getElem?_eq_getElem inside, by simpa using hit⟩

theorem findIdx?_none {k : κ} (h : xs.findIdx? (fun x => key x = k) = none) : ∀ x ∈ xs, key x ≠ k := by
  intro x hx
  simpa using findIdx?_eq_none_iff.mp h x hx

theorem modify_eq_map (distinct : (xs.map key).Nodup) {k : κ} {i : Nat}
    (h : xs.findIdx? (fun x => key x = k) = some i) (f : α → α) :
    xs.modify i f = xs.map fun x => if key x = k then f x else x := by
  obtain ⟨x, hx, hit⟩ := findIdx?_some h
  apply ext_getElem?
  intro j
  rw [getElem?_modify, getElem?_map]
  cases hj : xs[j]? with
  | none => rfl
  | some y =>
    by_cases place : i = j
    · subst place
      rw [hx] at hj
      cases hj
      simp [hit]
    · have other : key y ≠ k := fun clash => place (index_unique distinct hx hj (hit.trans clash.symm))
      simp [place, other]

theorem eraseIdx_eq_filter (distinct : (xs.map key).Nodup) {i : Nat} {x : α} (h : xs[i]? = some x) :
    xs.eraseIdx i = xs.filter fun y => key y ≠ key x := by
  induction xs generalizing i with
  | nil => rfl
  | cons y ys ih =>
    rw [map_cons, nodup_cons] at distinct
    cases i with
    | zero =>
      cases h
      rw [eraseIdx_zero, tail_cons, filter_cons_of_neg (by simp)]
      refine (filter_eq_self.mpr ?_).symm
      intro z hz
      have other : key z ≠ key x := fun same => distinct.1 (same ▸ mem_map_of_mem hz)
      simpa using other
    | succ i =>
      rw [getElem?_cons_succ] at h
      have other : key y ≠ key x := fun same =>
        distinct.1 (same ▸ mem_map_of_mem (mem_of_getElem? h))
      rw [eraseIdx_cons_succ, ih distinct.2 h, filter_cons_of_pos (by simpa using other)]

theorem map_eq_self {k : κ} (h : xs.findIdx? (fun x => key x = k) = none) (f : α → α) :
    (xs.map fun x => if key x = k then f x else x) = xs := by
  have none := findIdx?_none h
  rw [map_congr_left fun x hx => if_neg (none x hx), map_id']

end Keyed
