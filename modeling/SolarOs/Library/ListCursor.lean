import Mathlib.Data.List.Basic
import Mathlib.Data.List.Nodup

/-! A cursor that goes along a list while elements are put first in it and taken out of it:
what it has returned of the elements that were ahead of it when it started. -/
namespace ListCursor
open List

variable {κ : Type*} [DecidableEq κ] {xs watched returned : List κ} {next : Option κ} {x : κ}

/-- The cursor stands at `next`: the watched elements before it were returned once, and
those from it on were not. -/
def Tracks (xs : List κ) (next : Option κ) (watched returned : List κ) : Prop :=
  ∃ done ahead, xs = done ++ ahead ∧ next = ahead.head? ∧
    ∀ e ∈ watched, e ∈ xs ∧ returned.count e = if e ∈ done then 1 else 0

theorem tracks_start {done ahead : List κ} (distinct : (done ++ ahead).Nodup) :
    Tracks (done ++ ahead) ahead.head? ahead [] := by
  refine ⟨done, ahead, rfl, rfl, fun e inside => ⟨mem_append_right _ inside, ?_⟩⟩
  rw [if_neg fun before => (disjoint_of_nodup_append distinct) before inside]
  rfl

theorem Tracks.mono {fewer : List κ} (h : Tracks xs next watched returned) (sub : fewer ⊆ watched) :
    Tracks xs next fewer returned := by
  obtain ⟨done, ahead, split, here, counts⟩ := h
  exact ⟨done, ahead, split, here, fun e inside => counts e (sub inside)⟩

theorem Tracks.mem (h : Tracks xs (some x) watched returned) : x ∈ xs := by
  obtain ⟨done, ahead, rfl, here, -⟩ := h
  exact mem_append_right _ (mem_of_head? here.symm)

theorem Tracks.count_le_one (h : Tracks xs next watched returned) : ∀ e ∈ watched, returned.count e ≤ 1 := by
  obtain ⟨done, ahead, -, -, counts⟩ := h
  intro e inside
  rw [(counts e inside).2]
  split <;> decide

theorem Tracks.complete (h : Tracks xs none watched returned) : ∀ e ∈ watched, returned.count e = 1 := by
  obtain ⟨done, ahead, split, here, counts⟩ := h
  have empty : ahead = [] := head?_eq_none_iff.mp here.symm
  intro e inside
  obtain ⟨there, count⟩ := counts e inside
  rw [split, empty, append_nil] at there
  rw [count, if_pos there]

theorem Tracks.of_nil (h : Tracks [] next watched returned) : next = none := by
  obtain ⟨done, ahead, split, here, -⟩ := h
  rw [here, (append_eq_nil_iff.mp split.symm).2]
  rfl

theorem Tracks.advance (h : Tracks xs (some x) watched returned) (distinct : xs.Nodup) :
    ∃ done rest, xs = done ++ x :: rest ∧ Tracks xs rest.head? watched (returned ++ [x]) := by
  obtain ⟨done, ahead, split, here, counts⟩ := h
  cases ahead with
  | nil => exact nomatch here
  | cons y rest =>
    cases here
    refine ⟨done, rest, split, done ++ [x], rest, by rw [split, append_cons], rfl, fun e inside => ?_⟩
    obtain ⟨there, count⟩ := counts e inside
    refine ⟨there, ?_⟩
    rw [split, nodup_middle, nodup_cons, mem_append, not_or] at distinct
    rw [count_append, count, count_singleton]
    by_cases self : e = x
    · rw [self]
      simp [distinct.1.1]
    · simp [self, Ne.symm self]

section
variable (h : Tracks xs next watched returned)
include h

theorem Tracks.cons (fresh : x ∉ xs) : Tracks (x :: xs) next watched returned := by
  obtain ⟨done, ahead, split, here, counts⟩ := h
  refine ⟨x :: done, ahead, by rw [split, cons_append], here, fun e inside => ?_⟩
  obtain ⟨there, count⟩ := counts e inside
  have other : e ≠ x := by
    rintro rfl
    exact fresh there
  refine ⟨mem_cons_of_mem _ there, ?_⟩
  rw [count]
  simp [other]

theorem Tracks.erase (distinct : xs.Nodup) (other : next ≠ some x) :
    Tracks (xs.erase x) next (watched.filter (· ∈ xs.erase x)) returned := by
  obtain ⟨done, ahead, split, here, counts⟩ := h
  have kept : ∀ e ∈ watched.filter (· ∈ xs.erase x), e ≠ x ∧ e ∈ watched ∧ e ∈ xs.erase x := by
    intro e inside
    obtain ⟨among, still⟩ := mem_filter.mp inside
    have still := of_decide_eq_true still
    exact ⟨(distinct.mem_erase_iff.mp still).1, among, still⟩
  by_cases before : x ∈ done
  · refine ⟨done.erase x, ahead, by rw [split, erase_append_left _ before], here, fun e inside => ?_⟩
    obtain ⟨apart, among, still⟩ := kept e inside
    rw [(counts e among).2]
    simp [still, mem_erase_of_ne apart]
  · have erased : xs.erase x = done ++ ahead.erase x := by rw [split, erase_append_right _ before]
    have head : (ahead.erase x).head? = ahead.head? := by
      cases ahead with
      | nil => rfl
      | cons y rest =>
        have apart : y ≠ x := by
          rintro rfl
          exact other here
        rw [erase_cons_tail (by simpa using apart)]
        rfl
    refine ⟨done, ahead.erase x, erased, here.trans head.symm, fun e inside => ?_⟩
    obtain ⟨apart, among, still⟩ := kept e inside
    exact ⟨still, (counts e among).2⟩

theorem Tracks.front (inside : x ∈ xs) (behind : ∀ done ahead, xs = done ++ ahead → next = ahead.head? → x ∉ ahead) :
    Tracks (x :: xs.erase x) next watched returned := by
  obtain ⟨done, ahead, split, here, counts⟩ := h
  have before : x ∈ done := by
    rw [split] at inside
    exact (mem_append.mp inside).resolve_right (behind done ahead split here)
  refine ⟨x :: done.erase x, ahead, by rw [split, erase_append_left _ before, cons_append], here,
    fun e among => ?_⟩
  obtain ⟨there, count⟩ := counts e among
  by_cases self : e = x
  · rw [count, self]
    simp [before]
  · rw [count]
    simp [self, mem_erase_of_ne self, there]

end

end ListCursor
