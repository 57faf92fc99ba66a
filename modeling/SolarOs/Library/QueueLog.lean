import Mathlib.Data.List.Basic
import Mathlib.Data.List.Perm.Basic
import Mathlib.Data.List.Nodup

/-! The log of a waiting line that entries join at the end and may leave from anywhere:
what joined, what left, and what still waits. -/

structure QueueLog (ι : Type*) where
  joined : List ι
  left : List ι

namespace QueueLog
open List

variable {ι : Type*}

def empty : QueueLog ι where
  joined := []
  left := []

inductive Moves (before : List ι) : List ι → Prop
  | stay : Moves before before
  | join (i : ι) (fresh : i ∉ before) : Moves before (before ++ [i])
  | leave {front back : List ι} {i : ι} (split : before = front ++ i :: back) :
      Moves before (front ++ back)

theorem Moves.eraseIdx {before : List ι} {k : Nat} (h : k < before.length) : Moves before (before.eraseIdx k) := by
  rw [eraseIdx_eq_take_drop_succ]
  apply Moves.leave (i := before[k])
  rw [← drop_eq_getElem_cons h, take_append_drop]

/-- Who waits joined and has not left, in the order of joining, and nobody is lost. -/
structure Faithful (log : QueueLog ι) (waiting : List ι) : Prop where
  distinct : waiting.Nodup
  order : waiting.Sublist log.joined
  once : log.joined.Perm (log.left ++ waiting)

theorem empty_faithful : Faithful (empty : QueueLog ι) [] where
  distinct := nodup_nil
  order := List.Sublist.refl []
  once := List.Perm.refl []

variable [DecidableEq ι]

/-- The log after the line changed from `before` to `after`. -/
def note (log : QueueLog ι) (before after : List ι) : QueueLog ι where
  joined := log.joined ++ after.filter fun i => i ∉ before
  left := log.left ++ before.filter fun i => i ∉ after

theorem filter_notMem_self (xs : List ι) : (xs.filter fun i => i ∉ xs) = [] := by
  rw [filter_eq_nil_iff]
  intro i hi
  simpa using hi

theorem Faithful.note {log : QueueLog ι} {before after : List ι} (h : Faithful log before)
    (moves : Moves before after) : Faithful (log.note before after) after := by
  cases moves with
  | stay =>
    refine ⟨h.distinct, ?_, ?_⟩
    · simpa only [QueueLog.note, filter_notMem_self, append_nil] using h.order
    · simpa only [QueueLog.note, filter_notMem_self, append_nil] using h.once
  | join i fresh =>
    have joined : ((before ++ [i]).filter fun j => j ∉ before) = [i] := by
      rw [filter_append, filter_notMem_self, nil_append, filter_cons_of_pos (by simpa using fresh), filter_nil]
    have left : (before.filter fun j => j ∉ before ++ [i]) = [] := by
      rw [filter_eq_nil_iff]
      intro j hj
      simp [hj]
    refine ⟨?_, ?_, ?_⟩
    · rw [nodup_append]
      refine ⟨h.distinct, nodup_singleton i, ?_⟩
      intro a ha b hb same
      cases mem_singleton.mp hb
      exact fresh (same ▸ ha)
    · simp only [QueueLog.note, joined]
      exact h.order.append (List.Sublist.refl [i])
    · simp only [QueueLog.note, joined, left, append_nil]
      rw [← append_assoc]
      exact h.once.append_right [i]
  | @leave front back i split =>
    subst split
    have apart := h.distinct
    rw [nodup_append, nodup_cons] at apart
    obtain ⟨-, ⟨behind, -⟩, across⟩ := apart
    have absent : i ∉ front ++ back := by
      intro mem
      rcases mem_append.mp mem with ahead | rest
      · exact across i ahead i mem_cons_self rfl
      · exact behind rest
    have joined : ((front ++ back).filter fun j => j ∉ front ++ i :: back) = [] := by
      rw [filter_eq_nil_iff]
      intro j hj
      rcases mem_append.mp hj with ahead | rest
      · simp [ahead]
      · simp [rest]
    have left : ((front ++ i :: back).filter fun j => j ∉ front ++ back) = [i] := by
      rw [filter_append, filter_cons_of_pos (by simpa using absent)]
      have ahead : (front.filter fun j => j ∉ front ++ back) = [] := by
        rw [filter_eq_nil_iff]
        intro j hj
        simp [hj]
      have rest : (back.filter fun j => j ∉ front ++ back) = [] := by
        rw [filter_eq_nil_iff]
        intro j hj
        simp [hj]
      rw [ahead, rest, nil_append]
    have shorter : (front ++ back).Sublist (front ++ i :: back) :=
      (List.Sublist.refl front).append (sublist_cons_self i back)
    refine ⟨h.distinct.sublist shorter, ?_, ?_⟩
    · simp only [QueueLog.note, joined, append_nil]
      exact shorter.trans h.order
    · simp only [QueueLog.note, joined, left, append_nil]
      have swap : (log.left ++ (front ++ i :: back)).Perm (log.left ++ [i] ++ (front ++ back)) := by
        rw [append_assoc]
        exact perm_middle.append_left log.left
      exact h.once.trans swap

end QueueLog
