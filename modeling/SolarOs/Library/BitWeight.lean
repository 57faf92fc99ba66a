import Mathlib.Data.Finset.SymmDiff
import Mathlib.Data.Finset.Max
import Mathlib.Data.List.Nodup

/-! The set bits of a bit vector: how many there are, what adding two vectors makes of
them, and the vectors with two or four. -/
namespace BitWeight
open BitVec Finset

variable {w : Nat} {x y : BitVec w} {i j : Nat}

def setBits (x : BitVec w) : Finset Nat := (Finset.range w).filter fun i => x.getLsbD i

def weight (x : BitVec w) : Nat := (setBits x).card

@[simp] theorem mem_setBits : i ∈ setBits x ↔ x.getLsbD i = true := by
  unfold setBits
  rw [mem_filter, mem_range]
  refine ⟨fun h => h.2, fun h => ⟨?_, h⟩⟩
  by_contra far
  rw [getLsbD_of_ge x i (Nat.le_of_not_lt far)] at h
  exact nomatch h

theorem eq_of_setBits (h : setBits x = setBits y) : x = y := by
  apply eq_of_getLsbD_eq
  intro i _
  have same : i ∈ setBits x ↔ i ∈ setBits y := by rw [h]
  rw [mem_setBits, mem_setBits] at same
  exact Bool.eq_iff_iff.mpr same

theorem weight_eq_zero : weight x = 0 ↔ x = 0 := by
  have none : setBits (0 : BitVec w) = ∅ := by
    ext i
    simp
  constructor
  · intro h
    apply eq_of_setBits
    rw [none]
    exact card_eq_zero.mp h
  · rintro rfl
    unfold weight
    rw [none]
    rfl

theorem cpop_eq (x : BitVec w) : x.cpop.toNat = weight x := by
  have counted : ∀ n, x.cpopNatRec n 0 = ((Finset.range n).filter fun i => x.getLsbD i).card := by
    intro n
    induction n with
    | zero => rfl
    | succ n ih =>
      rw [cpopNatRec_succ, cpopNatRec_eq, ih, range_add_one, filter_insert]
      cases x.getLsbD n with
      | false => rfl
      | true => simp
  rw [toNat_cpop, counted]
  rfl

theorem setBits_xor : setBits (x ^^^ y) = symmDiff (setBits x) (setBits y) := by
  ext i
  rw [mem_setBits, getLsbD_xor, mem_symmDiff, mem_setBits, mem_setBits]
  cases x.getLsbD i <;> cases y.getLsbD i <;> decide

theorem setBits_twoPow (h : i < w) : setBits (BitVec.twoPow w i) = {i} := by
  ext j
  rw [mem_setBits, getLsbD_twoPow, mem_singleton]
  simp only [Bool.and_eq_true, decide_eq_true_eq]
  exact ⟨fun same => same.2.symm, fun same => ⟨same ▸ h, same.symm⟩⟩

theorem weight_xor (x y : BitVec w) : weight (x ^^^ y) + 2 * (setBits x ∩ setBits y).card = weight x + weight y := by
  have first := card_sdiff_add_card_inter (setBits x) (setBits y)
  have second := card_sdiff_add_card_inter (setBits y) (setBits x)
  rw [inter_comm] at second
  unfold weight
  rw [setBits_xor, Finset.symmDiff_def, card_union_of_disjoint (disjoint_sdiff_sdiff)]
  omega

theorem weight_xor_le (x y : BitVec w) : weight (x ^^^ y) ≤ weight x + weight y := by
  have sum := weight_xor x y
  omega

theorem weight_twoPow (h : i < w) : weight (BitVec.twoPow w i) = 1 := by
  unfold weight
  rw [setBits_twoPow h]
  rfl

theorem weight_pair (h : i < j) (hj : j < w) : weight (BitVec.twoPow w i ^^^ BitVec.twoPow w j) = 2 := by
  have sum := weight_xor (BitVec.twoPow w i) (BitVec.twoPow w j)
  have apart : setBits (BitVec.twoPow w i) ∩ setBits (BitVec.twoPow w j) = ∅ := by
    rw [setBits_twoPow (lt_trans h hj), setBits_twoPow hj]
    exact singleton_inter_of_notMem (by simpa using ne_of_lt h)
  rw [apart, weight_twoPow (lt_trans h hj), weight_twoPow hj] at sum
  exact sum

theorem lt_of_mem (h : i ∈ setBits x) : i < w := mem_range.mp (mem_filter.mp h).1

theorem weight_clear (h : i ∈ setBits x) : weight (x ^^^ BitVec.twoPow w i) + 1 = weight x := by
  have sum := weight_xor x (BitVec.twoPow w i)
  have common : setBits x ∩ setBits (BitVec.twoPow w i) = {i} := by
    rw [setBits_twoPow (lt_of_mem h)]
    exact inter_singleton_of_mem h
  rw [common, weight_twoPow (lt_of_mem h), card_singleton] at sum
  omega

theorem eq_of_xor_eq_zero (h : x ^^^ y = 0) : x = y := BitVec.xor_eq_zero_iff.mp h

theorem exists_lowest (h : 0 < weight x) : ∃ i ∈ setBits x, ∀ k ∈ setBits x, i ≤ k := by
  have some : (setBits x).Nonempty := card_pos.mp h
  exact ⟨(setBits x).min' some, min'_mem _ some, fun k inside => min'_le _ k inside⟩

theorem exists_rest (h : 0 < weight x) : ∃ i < w, ∃ rest : BitVec w, x = BitVec.twoPow w i ^^^ rest ∧
    weight rest + 1 = weight x ∧ ∀ k ∈ setBits rest, i < k := by
  obtain ⟨i, inside, least⟩ := exists_lowest h
  refine ⟨i, lt_of_mem inside, x ^^^ BitVec.twoPow w i, ?_, weight_clear inside, fun k there => ?_⟩
  · rw [BitVec.xor_comm x, ← BitVec.xor_assoc, BitVec.xor_self, BitVec.zero_xor]
  · rw [setBits_xor, setBits_twoPow (lt_of_mem inside), mem_symmDiff, mem_singleton] at there
    rcases there with ⟨among, other⟩ | ⟨self, out⟩
    · exact Nat.lt_of_le_of_ne (least k among) (Ne.symm other)
    · exact absurd (self ▸ inside) out

theorem eq_twoPow (h : weight x = 1) : ∃ i < w, x = BitVec.twoPow w i := by
  obtain ⟨i, below, rest, eq, count, -⟩ := exists_rest (x := x) (by omega)
  have none : rest = 0 := weight_eq_zero.mp (by omega)
  refine ⟨i, below, ?_⟩
  rw [eq, none]
  exact xor_zero

theorem eq_pair (h : weight x = 2) : ∃ i j, i < j ∧ j < w ∧ x = BitVec.twoPow w i ^^^ BitVec.twoPow w j := by
  obtain ⟨i, -, rest, eq, count, above⟩ := exists_rest (x := x) (by omega)
  obtain ⟨j, below, single⟩ := eq_twoPow (x := rest) (by omega)
  refine ⟨i, j, above j ?_, below, by rw [eq, single]⟩
  rw [single, setBits_twoPow below]
  exact mem_singleton_self j

theorem eq_pairs (h : weight x = 4) : ∃ i j k l, i < j ∧ j < k ∧ k < l ∧ l < w ∧
    x = (BitVec.twoPow w i ^^^ BitVec.twoPow w j) ^^^ (BitVec.twoPow w k ^^^ BitVec.twoPow w l) := by
  obtain ⟨i, -, rest, eq, count, above⟩ := exists_rest (x := x) (by omega)
  obtain ⟨j, belowJ, rest', eq', count', above'⟩ := exists_rest (x := rest) (by omega)
  obtain ⟨k, l, order, below, pair⟩ := eq_pair (x := rest') (by omega)
  have last : l < w ∧ k ∈ setBits rest' := by
    refine ⟨below, ?_⟩
    rw [pair, setBits_xor, setBits_twoPow (lt_trans order below), setBits_twoPow below, mem_symmDiff]
    simpa using ne_of_lt order
  have inside : j ∈ setBits rest := by
    rw [eq', setBits_xor, setBits_twoPow belowJ, mem_symmDiff]
    exact .inl ⟨mem_singleton_self j, fun again => lt_irrefl j (above' j again)⟩
  refine ⟨i, j, k, l, above j inside, above' k last.2, order, below, ?_⟩
  rw [eq, eq', pair, BitVec.xor_assoc]

/-- No number of the list is among the seen ones or comes twice; a number that was seen is a
set bit of `seen`. -/
def allNew : Nat → List Nat → Bool
  | _, [] => true
  | seen, n :: ns => !seen.testBit n && allNew (seen ||| 1 <<< n) ns

theorem allNew_spec {seen : Nat} {ns : List Nat} (h : allNew seen ns = true) :
    ns.Nodup ∧ ∀ n ∈ ns, seen.testBit n = false := by
  induction ns generalizing seen with
  | nil => exact ⟨List.nodup_nil, nofun⟩
  | cons n ns ih =>
    rw [allNew, Bool.and_eq_true, Bool.not_eq_true'] at h
    obtain ⟨nodup, fresh⟩ := ih h.2
    have old : ∀ k ∈ ns, seen.testBit k = false ∧ k ≠ n := by
      intro k inside
      have out := fresh k inside
      rw [Nat.testBit_or, Bool.or_eq_false_iff, Nat.one_shiftLeft, Nat.testBit_two_pow] at out
      exact ⟨out.1, fun same => (of_decide_eq_false out.2) same.symm⟩
    refine ⟨List.nodup_cons.mpr ⟨fun again => (old n again).2 rfl, nodup⟩, fun k inside => ?_⟩
    rcases List.mem_cons.mp inside with rfl | inside
    · exact h.1
    · exact (old k inside).1

end BitWeight
