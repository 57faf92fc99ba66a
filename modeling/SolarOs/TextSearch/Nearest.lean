import Mathlib.Data.List.GetD
import Mathlib.Data.Prod.Lex
import Mathlib.Order.Bounds.Basic
import Mathlib.Order.Interval.Set.Basic
import SolarOs.Esp
import SolarOs.Library.CString

/-! Text search: the nearest place where a query occurs in a list of texts. -/
namespace SolarOs.TextSearch
open List

def sizeMax : Nat := 2 ^ 32 - 1

structure Text where
  bytes : List UInt8
  fits : bytes.length ≤ sizeMax

inductive Direction where
  | forward
  | backward
  deriving DecidableEq

structure Match where
  segmentIndex : Nat
  offset : Nat
  length : Nat
  wrapped : Bool
  deriving DecidableEq

/-- `tolower` in the C locale. -/
def tolower (c : UInt8) : UInt8 := if 65 ≤ c ∧ c ≤ 90 then c + 32 else c

def textSearchMatchesAt (text : List UInt8) (offset : Nat) (query : List UInt8) : Bool :=
  if query.length = 0 ∨ offset > text.length ∨ query.length > text.length - offset then false
  else (List.range query.length).all fun i => tolower (text.getD (offset + i) 0) = tolower (query.getD i 0)

section
variable (segments : List (Option Text))

def segmentAt (segmentIndex : Nat) : Option Text := segments[segmentIndex]?.join

/-- A loop from `start` up to below `stop` that ends with the first result of its body. -/
def firstFrom {β : Type} (start stop : Nat) (body : Nat → Option β) : Option β :=
  (List.range' start (stop - start)).findSome? body

/-- A loop from `last` down to 0. -/
def lastFrom {β : Type} (last : Nat) (body : Nat → Option β) : Option β :=
  (List.range (last + 1)).reverse.findSome? body

/-- The offsets of `text_search_forward` in one text. -/
def forwardIn (text query : List UInt8) (first : Nat) : Option Nat :=
  if query.length > text.length then none
  else if first > text.length - query.length then none
  else firstFrom first (text.length - query.length + 1) fun offset =>
    if textSearchMatchesAt text offset query then some offset else none

variable (query : List UInt8)

def textSearchForward (startSegment startOffset : Nat) :
    Option Match :=
  firstFrom startSegment segments.length fun segmentIndex =>
    match segmentAt segments segmentIndex with
    | none => none
    | some text =>
      (forwardIn text.bytes query (if segmentIndex = startSegment then startOffset else 0)).map
        fun offset => ⟨segmentIndex, offset, query.length, false⟩

/-- The offsets of `text_search_backward` in one text; `upTo` is where the search starts in the
segment of the anchor. -/
def backwardIn (text query : List UInt8) (upTo : Option Nat) : Option Nat :=
  if query.length > text.length then none
  else
    let last := text.length - query.length
    let last := upTo.elim last fun startOffset => if startOffset < last then startOffset else last
    lastFrom last fun offset => if textSearchMatchesAt text offset query then some offset else none

def textSearchBackward (startSegment startOffset : Nat) :
    Option Match :=
  lastFrom startSegment fun segmentIndex =>
    match segmentAt segments segmentIndex with
    | none => none
    | some text =>
      (backwardIn text.bytes query (if segmentIndex = startSegment then some startOffset else none)).map
        fun offset => ⟨segmentIndex, offset, query.length, false⟩

def Match.wrap (m : Match) : Match := { m with wrapped := true }

/-- `solar_os_text_search_find_segments` with the anchor in a segment that exists. -/
def findFrom (anchorSegment anchorOffset : Nat)
    (skipAnchor : Bool) : Direction → Option Match
  | .forward =>
    let anchorOffset := if skipAnchor ∧ anchorOffset < sizeMax then anchorOffset + 1 else anchorOffset
    (textSearchForward segments query anchorSegment anchorOffset).or
      ((textSearchForward segments query 0 0).map Match.wrap)
  | .backward =>
    let wrapped := (textSearchBackward segments query (segments.length - 1) sizeMax).map Match.wrap
    if skipAnchor then
      if anchorOffset > 0 then (textSearchBackward segments query anchorSegment (anchorOffset - 1)).or wrapped
      else if anchorSegment > 0 then (textSearchBackward segments query (anchorSegment - 1) sizeMax).or wrapped
      else wrapped
    else (textSearchBackward segments query anchorSegment anchorOffset).or wrapped

def findSegments (query : CString) (anchorSegment anchorOffset : UInt32)
    (skipAnchor : Bool) (direction : Direction) : Option Match :=
  if segments.length = 0 then none
  else if query.strlen = 0 then none
  else if anchorSegment.toNat ≥ segments.length then
    match direction with
    | .forward => findFrom segments query.bytes 0 0 false .forward
    | .backward => findFrom segments query.bytes (segments.length - 1) sizeMax false .backward
  else findFrom segments query.bytes anchorSegment.toNat anchorOffset.toNat skipAnchor direction

/-- A segment and an offset in it; segments come first in the order. -/
abbrev Position := ℕ ×ₗ ℕ

def Match.position (m : Match) : Position := toLex (m.segmentIndex, m.offset)

def Occurs (text query : List UInt8) (offset : Nat) : Prop :=
  ∃ before middle after, text = before ++ (middle ++ after) ∧ before.length = offset ∧
    middle.map tolower = query.map tolower

def occurrences : Set Position :=
  {p | ∃ text, segmentAt segments (ofLex p).1 = some text ∧ Occurs text.bytes query (ofLex p).2}

/-- The nearest of all: on the side of the anchor, or else from the other end. -/
inductive Nearest (best : Set Position → Position → Prop) (all side : Set Position) (length : Nat) :
    Option Match → Prop
  | near {m : Match} (found : best (all ∩ side) m.position) (size : m.length = length)
      (direct : m.wrapped = false) : Nearest best all side length (some m)
  | wrapped {m : Match} (none : all ∩ side = ∅) (found : best all m.position) (size : m.length = length)
      (wrapped : m.wrapped = true) : Nearest best all side length (some m)
  | none (nothing : all = ∅) : Nearest best all side length none

def Direction.best : Direction → Set Position → Position → Prop
  | .forward => IsLeast
  | .backward => IsGreatest

def Direction.side (anchor : Position) (skipAnchor : Bool) : Direction → Set Position
  | .forward => if skipAnchor then Set.Ioi anchor else Set.Ici anchor
  | .backward => if skipAnchor then Set.Iio anchor else Set.Iic anchor

def searchedSide (anchorSegment anchorOffset : Nat) (skipAnchor : Bool)
    (direction : Direction) : Set Position :=
  if direction = .forward ∧ anchorSegment ≥ segments.length then Set.univ
  else direction.side (toLex (anchorSegment, anchorOffset)) skipAnchor

end

section Loops

variable {β : Type} {start stop last : Nat} {body : Nat → Option β} {b : β}

theorem firstFrom_some (h : firstFrom start stop body = some b) :
    ∃ i, start ≤ i ∧ i < stop ∧ body i = some b ∧ ∀ j, start ≤ j → j < i → body j = none := by
  obtain ⟨front, i, back, whole, found, before⟩ := findSome?_eq_some_iff.mp h
  obtain ⟨k, short, rfl, rest⟩ := range'_eq_append_iff.mp whole
  have there : i ∈ List.range' start (stop - start) := by
    rw [whole]
    exact mem_append_right _ mem_cons_self
  rw [mem_range'_1] at there
  have next : i = start + k := by
    cases n : stop - start - k with
    | zero =>
      rw [n] at rest
      cases rest
    | succ n' =>
      rw [n, range'_succ] at rest
      rw [(List.cons.inj rest).1, mul_one]
  refine ⟨i, there.1, by omega, found, fun j from_ below => before j ?_⟩
  rw [mem_range'_1]
  omega

theorem firstFrom_none (h : firstFrom start stop body = none) {j : Nat} (above : start ≤ j) (below : j < stop) :
    body j = none := by
  refine findSome?_eq_none_iff.mp h j ?_
  rw [mem_range'_1]
  omega

theorem lastFrom_none (h : lastFrom last body = none) {j : Nat} (below : j ≤ last) : body j = none := by
  refine findSome?_eq_none_iff.mp h j ?_
  rw [mem_reverse, mem_range]
  omega

theorem lastFrom_some (h : lastFrom last body = some b) :
    ∃ i, i ≤ last ∧ body i = some b ∧ ∀ j, i < j → j ≤ last → body j = none := by
  induction last with
  | zero => exact ⟨0, Nat.le_refl 0, by simpa [lastFrom] using h, fun j above below => absurd above (by omega)⟩
  | succ last ih =>
    unfold lastFrom at h ih
    rw [range_succ, reverse_append, reverse_singleton, singleton_append, findSome?_cons] at h
    cases first : body (last + 1) with
    | some b' =>
      rw [first] at h
      exact ⟨last + 1, le_rfl, first.trans h, fun j above below => absurd above (by omega)⟩
    | none =>
      rw [first] at h
      obtain ⟨i, below, found, later⟩ := ih h
      refine ⟨i, Nat.le_succ_of_le below, found, fun j above within => ?_⟩
      rcases Nat.eq_or_lt_of_le within with rfl | less
      · exact first
      · exact later j above (Nat.lt_succ_iff.mp less)

end Loops

variable {segments : List (Option Text)} {text query : List UInt8} {first offset : Nat}

theorem Occurs.le (h : Occurs text query offset) : offset + query.length ≤ text.length := by
  obtain ⟨before, middle, after, rfl, rfl, same⟩ := h
  have length : middle.length = query.length := by
    simpa using congrArg List.length same
  rw [length_append, length_append, length]
  omega

theorem textSearchMatchesAt_iff (nonempty : query ≠ []) :
    textSearchMatchesAt text offset query ↔ Occurs text query offset := by
  have positive := length_pos_iff.mpr nonempty
  unfold textSearchMatchesAt
  split_ifs with short
  · refine iff_of_false id fun occurs => ?_
    have := occurs.le
    omega
  · simp only [all_eq_true, mem_range, decide_eq_true_eq]
    have room : offset + query.length ≤ text.length := by omega
    constructor
    · intro same
      refine ⟨text.take offset, (text.drop offset).take query.length, (text.drop offset).drop query.length, ?_, ?_, ?_⟩
      · rw [take_append_drop, take_append_drop]
      · rw [length_take]
        omega
      · apply ext_getElem
        · simp only [length_map, length_take, length_drop]
          omega
        · intro i here there
          rw [length_map] at there
          have letter := same i there
          rw [getD_eq_getElem _ _ (by omega), getD_eq_getElem _ _ there] at letter
          simpa using letter
    · rintro ⟨before, middle, after, rfl, rfl, same⟩ i there
      have length : middle.length = query.length := by
        simpa using congrArg List.length same
      have inside : i < middle.length := by omega
      have letter : tolower middle[i] = tolower query[i] := by
        have at_i := congrArg (fun l => l[i]?) same
        simpa [inside, there] using at_i
      rw [getD_eq_getElem _ _ (by omega), getD_eq_getElem _ _ there, ← letter,
        getElem_append_right (by omega)]
      simp only [Nat.add_sub_cancel_left, getElem_append_left inside]

theorem forwardIn_some (nonempty : query ≠ []) (h : forwardIn text query first = some offset) :
    Occurs text query offset ∧ first ≤ offset ∧ ∀ k, first ≤ k → Occurs text query k → offset ≤ k := by
  unfold forwardIn at h
  split_ifs at h
  obtain ⟨i, above, below, found, before⟩ := firstFrom_some h
  split_ifs at found with occurs
  cases found
  refine ⟨(textSearchMatchesAt_iff nonempty).mp occurs, above, fun k from_ there => ?_⟩
  by_contra less
  have missed := before k from_ (not_le.mp less)
  rw [if_pos ((textSearchMatchesAt_iff nonempty).mpr there)] at missed
  cases missed

theorem forwardIn_none (nonempty : query ≠ []) (h : forwardIn text query first = none) {k : Nat} (from_ : first ≤ k) :
    ¬ Occurs text query k := by
  intro there
  have := there.le
  unfold forwardIn at h
  split_ifs at h
  · omega
  · omega
  · have missed := firstFrom_none h from_ (by omega)
    rw [if_pos ((textSearchMatchesAt_iff nonempty).mpr there)] at missed
    cases missed

def NotBehind (upTo : Option Nat) (k : Nat) : Prop := ∀ n, upTo = some n → k ≤ n

variable {upTo : Option Nat}

theorem le_last {last k : Nat} :
    k ≤ upTo.elim last (fun startOffset => if startOffset < last then startOffset else last) ↔
      k ≤ last ∧ NotBehind upTo k := by
  unfold NotBehind
  cases upTo with
  | none => simp
  | some startOffset =>
    simp only [Option.elim_some, Option.some.injEq, forall_eq']
    split_ifs <;> omega

theorem backwardIn_some (nonempty : query ≠ []) (h : backwardIn text query upTo = some offset) :
    Occurs text query offset ∧ NotBehind upTo offset ∧
      ∀ k, NotBehind upTo k → Occurs text query k → k ≤ offset := by
  unfold backwardIn at h
  split_ifs at h
  obtain ⟨i, below, found, later⟩ := lastFrom_some h
  split_ifs at found with occurs
  cases found
  refine ⟨(textSearchMatchesAt_iff nonempty).mp occurs, (le_last.mp below).2, fun k notBehind there => ?_⟩
  have := there.le
  by_contra more
  have missed := later k (not_le.mp more) (le_last.mpr ⟨by omega, notBehind⟩)
  rw [if_pos ((textSearchMatchesAt_iff nonempty).mpr there)] at missed
  cases missed

theorem backwardIn_none (nonempty : query ≠ []) (h : backwardIn text query upTo = none) {k : Nat}
    (notBehind : NotBehind upTo k) : ¬ Occurs text query k := by
  intro there
  have := there.le
  unfold backwardIn at h
  split_ifs at h
  · omega
  · have missed := lastFrom_none h (le_last.mpr ⟨by omega, notBehind⟩)
    rw [if_pos ((textSearchMatchesAt_iff nonempty).mpr there)] at missed
    cases missed

theorem le_iff {p q : Position} :
    p ≤ q ↔ (ofLex p).1 < (ofLex q).1 ∨ (ofLex p).1 = (ofLex q).1 ∧ (ofLex p).2 ≤ (ofLex q).2 :=
  Prod.Lex.toLex_le_toLex

theorem lt_iff {p q : Position} :
    p < q ↔ (ofLex p).1 < (ofLex q).1 ∨ (ofLex p).1 = (ofLex q).1 ∧ (ofLex p).2 < (ofLex q).2 :=
  Prod.Lex.toLex_lt_toLex

/-- The best of a set is found, and nothing just when there is nothing. -/
structure Finds (best : Set Position → Position → Prop) (set : Set Position) (length : Nat)
    (result : Option Match) : Prop where
  found : ∀ m, result = some m → best set m.position ∧ m.length = length ∧ m.wrapped = false
  none : result = none → set = ∅

theorem textSearchForward_finds (nonempty : query ≠ []) (startSegment startOffset : Nat) :
    Finds IsLeast (occurrences segments query ∩ Set.Ici (toLex (startSegment, startOffset))) query.length
      (textSearchForward segments query startSegment startOffset) := by
  -- a segment that gives nothing holds nothing from the start on
  have missed {i k : Nat} {text : Text} (here : segmentAt segments i = some text)
      (from_ : startSegment < i ∨ startSegment = i ∧ startOffset ≤ k)
      (none : (forwardIn text.bytes query (if i = startSegment then startOffset else 0)) = none) :
      ¬ Occurs text.bytes query k := by
    refine forwardIn_none nonempty none ?_
    split_ifs <;> omega
  constructor
  · intro m result
    obtain ⟨i, above, below, body, before⟩ := firstFrom_some result
    cases here : segmentAt segments i with
    | none =>
      rw [here] at body
      cases body
    | some text =>
      rw [here] at body
      obtain ⟨offset, inText, rfl⟩ := Option.map_eq_some_iff.mp body
      obtain ⟨occurs, from_, least⟩ := forwardIn_some nonempty inText
      refine ⟨⟨⟨⟨text, here, occurs⟩, ?_⟩, ?_⟩, rfl, rfl⟩
      · refine le_iff.mpr ?_
        show startSegment < i ∨ startSegment = i ∧ startOffset ≤ offset
        split_ifs at from_ <;> omega
      · rintro p ⟨⟨text', there, occurs'⟩, after⟩
        have after' : startSegment < (ofLex p).1 ∨ startSegment = (ofLex p).1 ∧ startOffset ≤ (ofLex p).2 :=
          le_iff.mp after
        refine le_iff.mpr ?_
        rcases Nat.lt_trichotomy i (ofLex p).1 with less | same | more
        · exact .inl less
        · rw [← same, here] at there
          cases there
          refine .inr ⟨same, least _ ?_ occurs'⟩
          split_ifs <;> omega
        · have nothing := before (ofLex p).1 (by omega) more
          rw [there] at nothing
          exact absurd occurs' (missed there after' (Option.map_eq_none_iff.mp nothing))
  · intro result
    rw [Set.eq_empty_iff_forall_notMem]
    rintro p ⟨⟨text', there, occurs'⟩, after⟩
    have after' : startSegment < (ofLex p).1 ∨ startSegment = (ofLex p).1 ∧ startOffset ≤ (ofLex p).2 := le_iff.mp after
    have inside : (ofLex p).1 < segments.length := by
      by_contra outside
      unfold segmentAt at there
      rw [getElem?_eq_none (not_lt.mp outside)] at there
      cases there
    have nothing := firstFrom_none result (j := (ofLex p).1) (by omega) inside
    rw [there] at nothing
    exact absurd occurs' (missed there after' (Option.map_eq_none_iff.mp nothing))

theorem textSearchBackward_finds (nonempty : query ≠ []) (startSegment startOffset : Nat) :
    Finds IsGreatest (occurrences segments query ∩ Set.Iic (toLex (startSegment, startOffset))) query.length
      (textSearchBackward segments query startSegment startOffset) := by
  have upTo {i k : Nat} (le : i ≤ startSegment) :
      NotBehind (if i = startSegment then Option.some startOffset else none) k ↔
        i < startSegment ∨ i = startSegment ∧ k ≤ startOffset := by
    unfold NotBehind
    split_ifs with same
    · simp [same]
    · simp [same, Nat.lt_of_le_of_ne le same]
  constructor
  · intro m result
    obtain ⟨i, below, body, later⟩ := lastFrom_some result
    cases here : segmentAt segments i with
    | none =>
      rw [here] at body
      cases body
    | some text =>
      rw [here] at body
      obtain ⟨offset, inText, rfl⟩ := Option.map_eq_some_iff.mp body
      obtain ⟨occurs, notBehind, greatest⟩ := backwardIn_some nonempty inText
      refine ⟨⟨⟨⟨text, here, occurs⟩, le_iff.mpr ((upTo below).mp notBehind)⟩, ?_⟩, rfl, rfl⟩
      rintro p ⟨⟨text', there, occurs'⟩, before⟩
      have before' : (ofLex p).1 < startSegment ∨ (ofLex p).1 = startSegment ∧ (ofLex p).2 ≤ startOffset :=
        le_iff.mp before
      refine le_iff.mpr ?_
      have within : (ofLex p).1 ≤ startSegment := by omega
      rcases Nat.lt_trichotomy (ofLex p).1 i with less | same | more
      · exact .inl less
      · rw [same, here] at there
        cases there
        exact .inr ⟨same, greatest _ (by rw [← same]; exact (upTo within).mpr before') occurs'⟩
      · have nothing := later (ofLex p).1 more within
        rw [there] at nothing
        exact absurd occurs' (backwardIn_none nonempty (Option.map_eq_none_iff.mp nothing) ((upTo within).mpr before'))
  · intro result
    rw [Set.eq_empty_iff_forall_notMem]
    rintro p ⟨⟨text', there, occurs'⟩, before⟩
    have before' : (ofLex p).1 < startSegment ∨ (ofLex p).1 = startSegment ∧ (ofLex p).2 ≤ startOffset :=
      le_iff.mp before
    have within : (ofLex p).1 ≤ startSegment := by omega
    have nothing := lastFrom_none result within
    rw [there] at nothing
    exact absurd occurs' (backwardIn_none nonempty (Option.map_eq_none_iff.mp nothing) ((upTo within).mpr before'))

variable {best : Set Position → Position → Prop} {all side side' : Set Position}

variable {length : Nat}

theorem Finds.nearest {all side : Set Position} {near far : Option Match}
    (h : Finds best (all ∩ side) length near) (h' : Finds best all length far) :
    Nearest best all side length (near.or (far.map Match.wrap)) := by
  cases near with
  | some m =>
    obtain ⟨found, size, direct⟩ := h.found m rfl
    exact .near found size direct
  | none =>
    cases far with
    | some m =>
      obtain ⟨found, size, -⟩ := h'.found m rfl
      exact .wrapped (h.none rfl) found size rfl
    | none => exact .none (h'.none rfl)

theorem inter_eq (same : ∀ p ∈ all, p ∈ side ↔ p ∈ side') : all ∩ side = all ∩ side' := by
  ext p
  exact and_congr_right (same p)

variable {result : Option Match}

theorem Finds.congr (h : Finds best (all ∩ side) length result)
    (same : ∀ p ∈ all, p ∈ side ↔ p ∈ side') : Finds best (all ∩ side') length result := by
  rwa [inter_eq same] at h

theorem occurrences_bound (nonempty : query ≠ []) {p : Position} (h : p ∈ occurrences segments query) :
    (ofLex p).1 < segments.length ∧ (ofLex p).2 < sizeMax := by
  obtain ⟨text, here, occurs⟩ := h
  constructor
  · by_contra outside
    unfold segmentAt at here
    rw [getElem?_eq_none (not_lt.mp outside)] at here
    cases here
  · have := occurs.le
    have := length_pos_iff.mpr nonempty
    have := text.fits
    omega

section Sides

variable {p : Position} {anchorSegment anchorOffset : Nat}

theorem mem_Ici : p ∈ Set.Ici (toLex (anchorSegment, anchorOffset)) ↔
    anchorSegment < (ofLex p).1 ∨ anchorSegment = (ofLex p).1 ∧ anchorOffset ≤ (ofLex p).2 := le_iff

theorem mem_Ioi : p ∈ Set.Ioi (toLex (anchorSegment, anchorOffset)) ↔
    anchorSegment < (ofLex p).1 ∨ anchorSegment = (ofLex p).1 ∧ anchorOffset < (ofLex p).2 := lt_iff

theorem mem_Iic : p ∈ Set.Iic (toLex (anchorSegment, anchorOffset)) ↔
    (ofLex p).1 < anchorSegment ∨ (ofLex p).1 = anchorSegment ∧ (ofLex p).2 ≤ anchorOffset := le_iff

theorem mem_Iio : p ∈ Set.Iio (toLex (anchorSegment, anchorOffset)) ↔
    (ofLex p).1 < anchorSegment ∨ (ofLex p).1 = anchorSegment ∧ (ofLex p).2 < anchorOffset := lt_iff

end Sides

section
variable (segments : List (Option Text))

section
variable (nonempty : query ≠ [])
include nonempty

theorem forward_all :
    Finds IsLeast (occurrences segments query) query.length (textSearchForward segments query 0 0) := by
  rw [← Set.inter_univ (occurrences segments query)]
  refine (textSearchForward_finds nonempty 0 0).congr fun p _ => ?_
  rw [mem_Ici]
  exact iff_of_true (by omega) trivial

theorem backward_all : Finds IsGreatest (occurrences segments query) query.length
      (textSearchBackward segments query (segments.length - 1) sizeMax) := by
  rw [← Set.inter_univ (occurrences segments query)]
  refine (textSearchBackward_finds nonempty (segments.length - 1) sizeMax).congr fun p there => ?_
  have := occurrences_bound nonempty there
  rw [mem_Iic]
  exact iff_of_true (by omega) trivial

theorem findFrom_forward (anchorSegment : Nat)
    {anchorOffset : Nat} (fits : anchorOffset ≤ sizeMax) (skipAnchor : Bool) :
    Nearest IsLeast (occurrences segments query)
      (Direction.forward.side (toLex (anchorSegment, anchorOffset)) skipAnchor) query.length
      (findFrom segments query anchorSegment anchorOffset skipAnchor .forward) := by
  unfold findFrom Direction.side
  refine Finds.nearest ?_ (forward_all segments nonempty)
  cases skipAnchor with
  | false => exact textSearchForward_finds nonempty anchorSegment anchorOffset
  | true =>
    refine (textSearchForward_finds nonempty anchorSegment _).congr fun p there => ?_
    have bound := (occurrences_bound nonempty there).2
    rw [if_pos rfl, mem_Ici, mem_Ioi]
    split_ifs with room <;> simp only [true_and] at room <;> omega

theorem findFrom_backward (anchorSegment anchorOffset : Nat) (skipAnchor : Bool) :
    Nearest IsGreatest (occurrences segments query)
      (Direction.backward.side (toLex (anchorSegment, anchorOffset)) skipAnchor) query.length
      (findFrom segments query anchorSegment anchorOffset skipAnchor .backward) := by
  have all := backward_all segments nonempty
  unfold findFrom Direction.side
  cases skipAnchor with
  | false => exact (textSearchBackward_finds nonempty anchorSegment anchorOffset).nearest all
  | true =>
    simp only [if_true]
    split_ifs with offset segment
    · refine ((textSearchBackward_finds nonempty anchorSegment (anchorOffset - 1)).congr fun p _ => ?_).nearest all
      rw [mem_Iic, mem_Iio]
      omega
    · refine ((textSearchBackward_finds nonempty (anchorSegment - 1) sizeMax).congr fun p there => ?_).nearest all
      have := (occurrences_bound nonempty there).2
      rw [mem_Iic, mem_Iio]
      omega
    · -- nothing is before the very first place
      have nothing : Finds IsGreatest (occurrences segments query ∩ Set.Iio (toLex (anchorSegment, anchorOffset)))
          query.length none := by
        constructor
        · intro m same
          cases same
        · intro _
          rw [Set.eq_empty_iff_forall_notMem]
          rintro p ⟨-, below⟩
          rw [mem_Iio] at below
          omega
      exact nothing.nearest all

end

theorem Nearest.congr (h : Nearest best all side length result)
    (same : all ∩ side = all ∩ side') : Nearest best all side' length result := by
  cases h with
  | near found size direct => exact .near (same ▸ found) size direct
  | wrapped none found size wrapped => exact .wrapped (same ▸ none) found size wrapped
  | none nothing => exact .none nothing

theorem Nearest.isSome_iff {direction : Direction} {all side : Set Position}
    (h : Nearest direction.best all side length result) : result.isSome ↔ all.Nonempty := by
  have some {set : Set Position} {p : Position} (found : direction.best set p) : set.Nonempty := by
    cases direction with
    | forward => exact ⟨p, And.left found⟩
    | backward => exact ⟨p, And.left found⟩
  cases h with
  | near found size direct => exact iff_of_true rfl (some found).left
  | wrapped none found size wrapped => exact iff_of_true rfl (some found)
  | none nothing => exact iff_of_false Bool.false_ne_true (by rw [nothing]; exact Set.not_nonempty_empty)

/-- A match is found just when the query occurs in some segment, and then it is the nearest. -/
theorem findSegments_nearest (query : CString) (nonempty : query.bytes ≠ [])
    (anchorSegment anchorOffset : UInt32) (skipAnchor : Bool) (direction : Direction) :
    ((findSegments segments query anchorSegment anchorOffset skipAnchor direction).isSome ↔
      (occurrences segments query.bytes).Nonempty) ∧ Nearest direction.best (occurrences segments query.bytes)
      (searchedSide segments anchorSegment.toNat anchorOffset.toNat skipAnchor direction) query.strlen
      (findSegments segments query anchorSegment anchorOffset skipAnchor direction) := by
  suffices nearest : Nearest direction.best (occurrences segments query.bytes)
      (searchedSide segments anchorSegment.toNat anchorOffset.toNat skipAnchor direction) query.strlen
      (findSegments segments query anchorSegment anchorOffset skipAnchor direction) from
    ⟨nearest.isSome_iff, nearest⟩
  have inside {p : Position} (there : p ∈ occurrences segments query.bytes) := (occurrences_bound nonempty there).1
  have fits : anchorOffset.toNat ≤ sizeMax := Nat.le_sub_one_of_lt anchorOffset.toNat_lt
  have length : query.strlen ≠ 0 := ne_of_gt (length_pos_iff.mpr nonempty)
  unfold findSegments
  by_cases empty : segments.length = 0
  · rw [if_pos empty]
    refine .none (Set.eq_empty_iff_forall_notMem.mpr fun p there => ?_)
    have := inside there
    omega
  rw [if_neg empty, if_neg length]
  by_cases outside : anchorSegment.toNat ≥ segments.length
  · rw [if_pos outside]
    cases direction with
    | forward =>
      refine (findFrom_forward segments nonempty 0 (Nat.zero_le _) false).congr (inter_eq fun p _ => ?_)
      rw [searchedSide, if_pos ⟨rfl, outside⟩]
      refine Iff.trans mem_Ici (iff_of_true (by omega) trivial)
    | backward =>
      refine (findFrom_backward segments nonempty (segments.length - 1) sizeMax false).congr
        (inter_eq fun p there => ?_)
      have := occurrences_bound nonempty there
      refine iff_of_true (mem_Iic.mpr (by omega)) ?_
      cases skipAnchor with
      | false => exact mem_Iic.mpr (by omega)
      | true => exact mem_Iio.mpr (by omega)
  · rw [if_neg outside, searchedSide, if_neg fun bad => outside bad.2]
    cases direction with
    | forward => exact findFrom_forward segments nonempty anchorSegment.toNat fits skipAnchor
    | backward => exact findFrom_backward segments nonempty anchorSegment.toNat anchorOffset.toNat skipAnchor

end

/-- `Ab`, `cabAB`, and a refused segment. -/
def sampleSegments : List (Option Text) :=
  [some ⟨[65, 98], by decide⟩, some ⟨[99, 97, 98, 65, 66], by decide⟩, none]

def sampleQuery : CString := ⟨[97, 66], by decide⟩

theorem findSegments_nearest_sample : ((findSegments sampleSegments sampleQuery 1 3 true .forward).isSome ↔
      (occurrences sampleSegments sampleQuery.bytes).Nonempty) ∧
    Nearest IsLeast (occurrences sampleSegments sampleQuery.bytes)
      (searchedSide sampleSegments 1 3 true .forward) sampleQuery.strlen
      (findSegments sampleSegments sampleQuery 1 3 true .forward) :=
  findSegments_nearest sampleSegments sampleQuery (by decide) 1 3 true .forward

/-- Forward from behind the last segment the first match is not marked as wrapped. -/
theorem findSegments_outside :
    ¬ ∀ (segments : List (Option Text)) (query : CString) (anchorSegment anchorOffset : UInt32) (skipAnchor : Bool)
      (direction : Direction), query.bytes ≠ [] →
      Nearest direction.best (occurrences segments query.bytes)
        (direction.side (toLex (anchorSegment.toNat, anchorOffset.toNat)) skipAnchor) query.strlen
        (findSegments segments query anchorSegment anchorOffset skipAnchor direction) := by
  intro claim
  have nearest := claim sampleSegments sampleQuery 3 0 false .forward (by decide)
  have result : findSegments sampleSegments sampleQuery 3 0 false .forward = some ⟨0, 0, 2, false⟩ := by
    decide
  rw [result] at nearest
  cases nearest with
  | near found size direct =>
    have behind : 3 < 0 ∨ 3 = 0 ∧ 0 ≤ 0 := mem_Ici.mp found.1.2
    omega
  | wrapped none found size wrapped => cases wrapped

end SolarOs.TextSearch
