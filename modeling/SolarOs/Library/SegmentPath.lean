import Mathlib.Data.List.Basic
import Mathlib.Data.List.Infix

/-! Paths: lists of characters read as segments between separators, where a segment of one
dot stays and a segment of two goes up. -/
namespace SegmentPath
open List

variable {α : Type*} [DecidableEq α] {sep dot : α}

def parts (sep : α) (path : List α) : List (List α) := (path.splitOn sep).filter (· ≠ [])

structure Plain (sep dot : α) (segment : List α) : Prop where
  nonempty : segment ≠ []
  whole : sep ∉ segment
  notDot : segment ≠ [dot]
  notDots : segment ≠ [dot, dot]

def step (dot : α) (place : List (List α)) (segment : List α) : List (List α) :=
  if segment = [dot] then place
  else if segment = [dot, dot] then place.dropLast
  else place ++ [segment]

def resolve (dot : α) (place segments : List (List α)) : List (List α) :=
  segments.foldl (step dot) place

def put (sep : α) (path segment : List α) : List α :=
  (if path = [sep] then path else path ++ [sep]) ++ segment

def putAll (sep : α) (root : List α) (segments : List (List α)) : List α :=
  segments.foldl (put sep) root

def lastSep (sep : α) : List α → Option Nat
  | [] => none
  | c :: path =>
    match lastSep sep path with
    | some i => some (i + 1)
    | none => if c = sep then some 0 else none

theorem parts_nil : parts sep [] = [] := rfl

theorem parts_append_sep (path rest : List α) : parts sep (path ++ sep :: rest) = parts sep path ++ parts sep rest := by
  have split : (path ++ sep :: rest).splitOn sep = path.splitOn sep ++ rest.splitOn sep :=
    splitOn_append_cons_self path rest
  unfold parts
  rw [split, filter_append]

theorem parts_sep (path : List α) : parts sep (sep :: path) = parts sep path :=
  parts_append_sep [] path

variable {segment : List α} {segments : List (List α)}

theorem parts_of_not_mem (some : segment ≠ []) (whole : sep ∉ segment) : parts sep segment = [segment] := by
  have split : segment.splitOn sep = [segment] := splitOn_eq_singleton whole
  unfold parts
  rw [split, filter_cons_of_pos (by simpa using some)]
  rfl

variable (path : List α)

theorem parts_dropWhile : parts sep (path.dropWhile (· = sep)) = parts sep path := by
  induction path with
  | nil => rfl
  | cons c path ih =>
    by_cases skip : c = sep
    · rw [dropWhile_cons_of_pos (by simpa using skip), ih, skip, parts_sep]
    · rw [dropWhile_cons_of_neg (by simpa using skip)]

theorem not_mem_takeWhile : sep ∉ path.takeWhile (· ≠ sep) := by
  intro there
  simpa using all_eq_true.mp all_takeWhile _ there

theorem dropWhile_cases (sep : α) (path : List α) :
    path.dropWhile (· ≠ sep) = [] ∨ ∃ rest, path.dropWhile (· ≠ sep) = sep :: rest := by
  cases after : path.dropWhile (· ≠ sep) with
  | nil => exact .inl rfl
  | cons c rest =>
    have first := head_dropWhile_not (l := path) (fun x => decide (x ≠ sep)) (by rw [after]; exact cons_ne_nil c rest)
    simp only [after, head_cons, decide_eq_false_iff_not, not_not] at first
    exact .inr ⟨rest, by rw [first]⟩

theorem parts_takeWhile : parts sep path =
    parts sep (path.takeWhile (· ≠ sep)) ++ parts sep (path.dropWhile (· ≠ sep)) := by
  have whole : path.takeWhile (· ≠ sep) ++ path.dropWhile (· ≠ sep) = path := takeWhile_append_dropWhile
  rcases dropWhile_cases sep path with last | ⟨rest, more⟩
  · rw [last] at whole ⊢
    rw [append_nil] at whole
    rw [whole, parts_nil, append_nil]
  · rw [more] at whole ⊢
    rw [parts_sep, ← parts_append_sep, whole]

theorem mem_splitOn {path segment : List α} (h : segment ∈ path.splitOn sep) : sep ∉ segment ∧ segment ⊆ path := by
  induction path generalizing segment with
  | nil =>
    rw [splitOn_nil, mem_singleton] at h
    subst h
    exact ⟨not_mem_nil, nil_subset _⟩
  | cons c path ih =>
    rw [splitOn_cons_eq_if_modifyHead] at h
    split at h
    · rcases mem_cons.mp h with rfl | later
      · exact ⟨not_mem_nil, nil_subset _⟩
      · exact (ih later).imp_right (subset_cons_of_subset c)
    · rename_i other
      obtain ⟨first, others, split⟩ := exists_cons_of_ne_nil (splitOn_ne_nil sep path)
      rw [split, modifyHead_cons] at h
      rcases mem_cons.mp h with rfl | later
      · obtain ⟨whole, inside⟩ := @ih first (by rw [split]; exact mem_cons_self)
        refine ⟨fun there => ?_, cons_subset_cons c inside⟩
        rcases mem_cons.mp there with same | later
        · exact other (by simpa using same.symm)
        · exact whole later
      · obtain ⟨whole, inside⟩ := @ih segment (by rw [split]; exact mem_cons_of_mem _ later)
        exact ⟨whole, subset_cons_of_subset c inside⟩

theorem mem_parts {path segment : List α} (h : segment ∈ parts sep path) :
    segment ≠ [] ∧ sep ∉ segment ∧ segment ⊆ path := by
  obtain ⟨split, some⟩ := mem_filter.mp h
  exact ⟨by simpa using some, mem_splitOn split⟩

theorem resolve_append (place front back : List (List α)) :
    resolve dot place (front ++ back) = resolve dot (resolve dot place front) back :=
  foldl_append

theorem resolve_plain (plain : ∀ s ∈ segments, Plain sep dot s) (place : List (List α)) :
    resolve dot place segments = place ++ segments := by
  induction segments generalizing place with
  | nil => exact (append_nil place).symm
  | cons first segments ih =>
    have named := plain first mem_cons_self
    have moved : step dot place first = place ++ [first] := by
      unfold step
      rw [if_neg named.notDot, if_neg named.notDots]
    calc resolve dot place (first :: segments) = resolve dot (step dot place first) segments := rfl
      _ = place ++ [first] ++ segments := by rw [moved, ih fun s h => plain s (mem_cons_of_mem _ h)]
      _ = place ++ first :: segments := by rw [append_assoc, singleton_append]

theorem step_keeps {place : List (List α)} (plain : ∀ s ∈ place, Plain sep dot s) (some : segment ≠ [])
    (whole : sep ∉ segment) : ∀ s ∈ step dot place segment, Plain sep dot s := by
  unfold step
  split_ifs with one two
  · exact plain
  · exact fun s h => plain s (mem_of_mem_dropLast h)
  · intro s h
    rcases mem_append.mp h with before | last
    · exact plain s before
    · rw [mem_singleton.mp last]
      exact ⟨some, whole, one, two⟩

theorem mem_resolve {place segments : List (List α)} (h : segment ∈ resolve dot place segments) :
    segment ∈ place ∨ segment ∈ segments := by
  induction segments generalizing place with
  | nil => exact .inl h
  | cons first segments ih =>
    rcases ih h with moved | later
    · unfold step at moved
      split_ifs at moved
      · exact .inl moved
      · exact .inl (mem_of_mem_dropLast moved)
      · rcases mem_append.mp moved with before | last
        · exact .inl before
        · exact .inr (by rw [mem_singleton.mp last]; exact mem_cons_self)
    · exact .inr (mem_cons_of_mem _ later)

theorem putAll_append (root : List α) (front back : List (List α)) :
    putAll sep root (front ++ back) = putAll sep (putAll sep root front) back :=
  foldl_append

def stem (sep : α) (path : List α) : List α := if path = [sep] then [] else path

theorem put_eq (path segment : List α) : put sep path segment = stem sep path ++ sep :: segment := by
  unfold put stem
  split_ifs with top
  · rw [top]
    rfl
  · rw [append_assoc, singleton_append]

theorem stem_length_le : (stem sep path).length ≤ path.length := by
  unfold stem
  split_ifs
  · exact Nat.zero_le _
  · exact Nat.le_refl _

theorem prefix_put (sep : α) (path segment : List α) : path <+: put sep path segment := by
  unfold put
  split_ifs
  · exact prefix_append path segment
  · rw [append_assoc]
    exact prefix_append path _

theorem prefix_putAll (sep : α) (root : List α) (segments : List (List α)) : root <+: putAll sep root segments := by
  induction segments generalizing root with
  | nil => exact prefix_rfl
  | cons first segments ih => exact (prefix_put sep root first).trans (ih _)

theorem length_lt_put (sep : α) (path : List α) (some : segment ≠ []) :
    path.length < (put sep path segment).length := by
  have long := length_pos_iff.mpr some
  unfold put
  split_ifs
  · rw [length_append]
    omega
  · rw [length_append, length_append, length_singleton]
    omega

theorem lastSep_of_not_mem {path : List α} (h : sep ∉ path) : lastSep sep path = none := by
  induction path with
  | nil => rfl
  | cons c path ih =>
    rw [mem_cons, not_or] at h
    simp only [lastSep, ih h.2]
    exact if_neg fun same => h.1 same.symm

theorem lastSep_append (whole : sep ∉ segment) : lastSep sep (path ++ sep :: segment) = some path.length := by
  induction path with
  | nil =>
    simp only [nil_append, lastSep, lastSep_of_not_mem whole]
    rfl
  | cons c path ih =>
    simp only [cons_append, lastSep, ih, length_cons]

theorem eq_of_lastSep {path : List α} {i : Nat} (h : lastSep sep path = some i) :
    ∃ after, path.drop i = sep :: after := by
  induction path generalizing i with
  | nil => cases h
  | cons c path ih =>
    unfold lastSep at h
    split at h
    · rename_i later
      cases h
      exact ih later
    · split_ifs at h with same
      cases h
      exact ⟨path, by rw [← same]; rfl⟩

theorem parts_drop_putAll (root : List α) (plain : ∀ s ∈ segments, Plain sep dot s) :
    parts sep ((putAll sep root segments).drop root.length) = segments := by
  induction segments using List.reverseRecOn with
  | nil =>
    have self : putAll sep root [] = root := rfl
    rw [self, drop_length, parts_nil]
  | append_singleton segments last ih =>
    have named := plain last (mem_append_right _ mem_cons_self)
    have single : parts sep last = [last] := parts_of_not_mem named.nonempty named.whole
    have out : putAll sep root (segments ++ [last]) = put sep (putAll sep root segments) last := by
      rw [putAll_append]
      rfl
    have before := ih fun s h => plain s (mem_append_left _ h)
    have reached := (prefix_putAll sep root segments).length_le
    rw [out]
    unfold put
    split_ifs with top
    · rw [drop_append_of_le_length reached]
      rw [top] at before reached ⊢
      cases root with
      | nil => rw [← before, length_nil, drop_zero, parts_sep, singleton_append, parts_sep, single,
          parts_nil, nil_append]
      | cons c root =>
        have nothing : [sep].drop (c :: root).length = [] := drop_nil
        rw [← before, nothing, nil_append, single, parts_nil, nil_append]
    · rw [append_assoc, drop_append_of_le_length reached, singleton_append, parts_append_sep, before, single]

theorem before_last {α : Type*} {sep : α} {path after front last : List α} (whole : sep ∉ last)
    (same : path ++ sep :: after = front ++ sep :: last) :
    path = front ∧ after = last ∨ ∃ more, front = path ++ sep :: more ∧ after = more ++ sep :: last := by
  rcases append_eq_append_iff.mp same with ⟨more, long, rest⟩ | ⟨more, long, rest⟩
  · cases more with
    | nil => exact .inl ⟨(by simpa using long.symm), (List.cons.inj rest).2⟩
    | cons c more =>
      obtain ⟨rfl, later⟩ := List.cons.inj rest
      exact .inr ⟨more, long, later⟩
  · cases more with
    | nil => exact .inl ⟨(by simpa using long), (List.cons.inj rest).2.symm⟩
    | cons c more =>
      have inside : sep ∈ last := by
        rw [(List.cons.inj rest).2]
        exact mem_append_right _ mem_cons_self
      exact absurd inside whole

theorem putAll_split {root : List α} (plain : ∀ s ∈ segments, Plain sep dot s) {path rest : List α}
    (whole : path ++ rest = putAll sep root segments) (longer : root.length < path.length)
    (ends : rest = [] ∨ ∃ after, rest = sep :: after) : putAll sep path (parts sep rest) = putAll sep root segments ∧
      ∀ s ∈ parts sep rest, Plain sep dot s := by
  suffices between : ∃ front, front ++ parts sep rest = segments ∧ path = putAll sep root front by
    obtain ⟨front, all, rfl⟩ := between
    rw [← all, putAll_append]
    exact ⟨rfl, fun s h => plain s (by rw [← all]; exact mem_append_right _ h)⟩
  induction segments using List.reverseRecOn generalizing rest with
  | nil =>
    have same : (path ++ rest).length = root.length := congrArg List.length whole
    rw [length_append] at same
    omega
  | append_singleton segments last ih =>
    have named := plain last (mem_append_right _ mem_cons_self)
    have single : parts sep last = [last] := parts_of_not_mem named.nonempty named.whole
    have out : putAll sep root (segments ++ [last]) = stem sep (putAll sep root segments) ++ sep :: last := by
      rw [putAll_append, ← put_eq]
      rfl
    rcases ends with rfl | ⟨after, rfl⟩
    · refine ⟨segments ++ [last], ?_, ?_⟩
      · rw [parts_nil, append_nil]
      · rw [← whole, append_nil]
    · rw [out] at whole
      have notTop : stem sep (putAll sep root segments) = putAll sep root segments := by
        refine if_neg fun top => ?_
        rw [top, stem, if_pos rfl] at whole
        rcases before_last named.whole whole with ⟨rfl, -⟩ | ⟨more, short, -⟩
        · exact absurd longer (Nat.not_lt_zero _)
        · exact absurd short.symm (append_ne_nil_of_right_ne_nil _ (cons_ne_nil _ _))
      rw [notTop] at whole
      rcases before_last named.whole whole with ⟨same, rfl⟩ | ⟨more, front, rfl⟩
      · refine ⟨segments, ?_, same⟩
        rw [parts_sep, single]
      · obtain ⟨before, all, same⟩ := ih (fun s h => plain s (mem_append_left _ h)) front.symm (.inr ⟨more, rfl⟩)
        refine ⟨before, ?_, same⟩
        rw [parts_sep] at all ⊢
        rw [parts_append_sep, single, ← append_assoc, all]

end SegmentPath
