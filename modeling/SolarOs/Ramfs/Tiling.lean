import SolarOs.Ramfs.Arena

/-! The arena as a list of blocks laid out end to end, and what the header writes of
the allocator do to that list. -/
namespace SolarOs.Ramfs
open ByteMemory List

structure Block where
  size : Nat
  free : Bool
  deriving DecidableEq, Repr

structure Header where
  size : Nat
  free : Bool
  prev : Nat
  next : Nat
  deriving DecidableEq, Repr

def header (m : Memory) (block : Nat) : Header where
  size := blockSize m block
  free := blockFree m block
  prev := blockPrev m block
  next := blockNext m block

section Header
variable {m m' : Memory} {a b i : Nat}

theorem header_congr (h : ∀ i, a ≤ i → i < a + blockHeaderBytes → m' i = m i) : header m' a = header m a := by
  unfold blockHeaderBytes at h
  have hsize : blockSize m' a = blockSize m a := load32_congr fun i hlo hhi => h i hlo (by omega)
  have hfree : blockFree m' a = blockFree m a := by
    unfold blockFree
    rw [h (a + 4) (by omega) (by omega)]
  have hprev : blockPrev m' a = blockPrev m a := load32_congr fun i hlo hhi => h i (by omega) (by omega)
  have hnext : blockNext m' a = blockNext m a := load32_congr fun i hlo hhi => h i (by omega) (by omega)
  rw [header, header, hsize, hfree, hprev, hnext]

/-- Memory that differs from `m` in the header at `a` only. -/
def HeaderWrite (m m' : Memory) (a : Nat) : Prop :=
  ∀ i, i < a ∨ a + blockHeaderBytes ≤ i → m' i = m i

theorem headerWrite_size (m : Memory) (a v : Nat) : HeaderWrite m (setBlockSize m a v) a := by
  intro i hi
  unfold blockHeaderBytes at hi
  exact store32_outside m v (by omega)

theorem headerWrite_free (m : Memory) (a : Nat) (f : Bool) : HeaderWrite m (setBlockFree m a f) a := by
  intro i hi
  unfold blockHeaderBytes at hi
  exact store_outside m _ (by simp; omega)

theorem headerWrite_prev (m : Memory) (a v : Nat) : HeaderWrite m (setBlockPrev m a v) a := by
  intro i hi
  unfold blockHeaderBytes at hi
  exact store32_outside m v (by omega)

theorem headerWrite_next (m : Memory) (a v : Nat) : HeaderWrite m (setBlockNext m a v) a := by
  intro i hi
  unfold blockHeaderBytes at hi
  exact store32_outside m v (by omega)

theorem HeaderWrite.header (h : HeaderWrite m m' a)
    (hdisjoint : b + blockHeaderBytes ≤ a ∨ a + blockHeaderBytes ≤ b) : header m' b = Ramfs.header m b :=
  header_congr fun i hlo hhi => h i (by omega)

@[simp] theorem header_setBlockSize (m : Memory) (a v : Nat) :
    header (setBlockSize m a v) a = { header m a with size := v % 2 ^ 32 } := by
  have hsize : blockSize (setBlockSize m a v) a = v % 2 ^ 32 := load32_store32 m a v
  have hfree : blockFree (setBlockSize m a v) a = blockFree m a := by
    unfold blockFree
    rw [setBlockSize, store32_outside m v (by omega)]
  have hprev : blockPrev (setBlockSize m a v) a = blockPrev m a := load32_store32_of_disjoint m v (by omega)
  have hnext : blockNext (setBlockSize m a v) a = blockNext m a := load32_store32_of_disjoint m v (by omega)
  rw [header, hsize, hfree, hprev, hnext, header]

@[simp] theorem header_setBlockFree (m : Memory) (a : Nat) (f : Bool) :
    header (setBlockFree m a f) a = { header m a with free := f } := by
  have houtside : ∀ i, i < a + 4 ∨ a + 5 ≤ i → setBlockFree m a f i = m i := by
    intro i hi
    exact store_outside m _ (by simp; omega)
  have hfree : blockFree (setBlockFree m a f) a = f := by
    have hbyte : setBlockFree m a f (a + 4) = if f then 1 else 0 := store_inside m (a + 4) (i := 0) (by simp)
    unfold blockFree
    rw [hbyte]
    cases f <;> rfl
  have hsize : blockSize (setBlockFree m a f) a = blockSize m a := load32_congr fun i hlo hhi => houtside i (by omega)
  have hprev : blockPrev (setBlockFree m a f) a = blockPrev m a := load32_congr fun i hlo hhi => houtside i (by omega)
  have hnext : blockNext (setBlockFree m a f) a = blockNext m a := load32_congr fun i hlo hhi => houtside i (by omega)
  rw [header, hsize, hfree, hprev, hnext, header]

@[simp] theorem header_setBlockPrev (m : Memory) (a v : Nat) :
    header (setBlockPrev m a v) a = { header m a with prev := v % 2 ^ 32 } := by
  have hsize : blockSize (setBlockPrev m a v) a = blockSize m a := load32_store32_of_disjoint m v (by omega)
  have hfree : blockFree (setBlockPrev m a v) a = blockFree m a := by
    unfold blockFree
    rw [setBlockPrev, store32_outside m v (by omega)]
  have hprev : blockPrev (setBlockPrev m a v) a = v % 2 ^ 32 := load32_store32 m (a + 8) v
  have hnext : blockNext (setBlockPrev m a v) a = blockNext m a := load32_store32_of_disjoint m v (by omega)
  rw [header, hsize, hfree, hprev, hnext, header]

@[simp] theorem header_setBlockNext (m : Memory) (a v : Nat) :
    header (setBlockNext m a v) a = { header m a with next := v % 2 ^ 32 } := by
  have hsize : blockSize (setBlockNext m a v) a = blockSize m a := load32_store32_of_disjoint m v (by omega)
  have hfree : blockFree (setBlockNext m a v) a = blockFree m a := by
    unfold blockFree
    rw [setBlockNext, store32_outside m v (by omega)]
  have hprev : blockPrev (setBlockNext m a v) a = blockPrev m a := load32_store32_of_disjoint m v (by omega)
  have hnext : blockNext (setBlockNext m a v) a = v % 2 ^ 32 := load32_store32 m (a + 12) v
  rw [header, hsize, hfree, hprev, hnext, header]

end Header

def extent (blocks : List Block) : Nat := (blocks.map fun b => blockHeaderBytes + b.size).sum

@[simp] theorem extent_nil : extent [] = 0 := rfl

@[simp] theorem extent_cons (b : Block) (blocks : List Block) :
    extent (b :: blocks) = blockHeaderBytes + b.size + extent blocks := by
  simp [extent]

@[simp] theorem extent_append (xs ys : List Block) : extent (xs ++ ys) = extent xs + extent ys := by
  simp [extent]

theorem length_le_extent (blocks : List Block) : blocks.length ≤ extent blocks := by
  induction blocks with
  | nil => simp
  | cons b rest ih =>
      simp only [length_cons, extent_cons, blockHeaderBytes]
      omega

/-- The address of the last of the blocks laid out from `a` on, or `prev` without any. -/
def lastAddress : Nat → Nat → List Block → Nat
  | prev, _, [] => prev
  | _, a, b :: rest => lastAddress a (a + blockHeaderBytes + b.size) rest

/-- The address after a block at `a`: that of the following one, or `last`. -/
def nextAddress (last a : Nat) (b : Block) (rest : List Block) : Nat :=
  if rest = [] then last else a + blockHeaderBytes + b.size

/-- The headers of the blocks laid out end to end from address `a` on: the first one's
link back is `prev`, the last one's link on is `last`. -/
def Laid (m : Memory) (last : Nat) : Nat → Nat → List Block → Prop
  | _, _, [] => True
  | prev, a, b :: rest =>
    header m a = ⟨b.size, b.free, prev, nextAddress last a b rest⟩ ∧
      Laid m last a (a + blockHeaderBytes + b.size) rest

section Laid
variable {m m' : Memory} {a i last prev : Nat} {b c : Block} {xs ys : List Block}

theorem laid_append (hys : ys ≠ []) : Laid m last prev a (xs ++ ys) ↔
      Laid m (a + extent xs) prev a xs ∧ Laid m last (lastAddress prev a xs) (a + extent xs) ys := by
  induction xs generalizing prev a with
  | nil => simp [Laid, lastAddress]
  | cons x xs ih =>
      have hnext : nextAddress last a x (xs ++ ys) = nextAddress (a + extent (x :: xs)) a x xs := by
        have hne : xs ++ ys ≠ [] := by simp [hys]
        unfold nextAddress
        rw [if_neg hne]
        split
        next hnil => rw [hnil, extent_cons, extent_nil, add_zero, add_assoc]
        next => rfl
      have hend : a + blockHeaderBytes + x.size + extent xs = a + extent (x :: xs) := by
        rw [extent_cons]
        omega
      simp only [cons_append, Laid, lastAddress, ih, hnext, hend, and_assoc]

theorem laid_middle : Laid m last prev a (xs ++ b :: ys) ↔
      Laid m (a + extent xs) prev a xs ∧
        header m (a + extent xs) = ⟨b.size, b.free, lastAddress prev a xs,
          nextAddress last (a + extent xs) b ys⟩ ∧
        Laid m last (a + extent xs) (a + extent xs + blockHeaderBytes + b.size) ys :=
  laid_append (cons_ne_nil b ys)

theorem Laid.congr (h : Laid m last prev a xs)
    (hagree : ∀ i, a ≤ i → i < a + extent xs → m' i = m i) : Laid m' last prev a xs := by
  induction xs generalizing prev a with
  | nil => trivial
  | cons x xs ih =>
      simp only [extent_cons] at hagree
      refine ⟨?_, ih h.2 fun i hlo hhi => hagree i (by omega) (by omega)⟩
      rw [header_congr fun i hlo hhi => hagree i hlo (by omega)]
      exact h.1

theorem Laid.relink (h : Laid m last prev a (b :: ys)) (q : Nat) (hq : q < 2 ^ 32) :
    Laid (setBlockPrev m a q) last q a (b :: ys) := by
  refine ⟨?_, h.2.congr fun i hlo _ => headerWrite_prev m a q i (by omega)⟩
  rw [header_setBlockPrev, h.1, Nat.mod_eq_of_lt hq]

def InHeader (a : Nat) : List Block → Nat → Prop
  | [], _ => False
  | b :: rest, i => (a ≤ i ∧ i < a + blockHeaderBytes) ∨ InHeader (a + blockHeaderBytes + b.size) rest i

theorem inHeader_append : InHeader a (xs ++ ys) i ↔ InHeader a xs i ∨ InHeader (a + extent xs) ys i := by
  induction xs generalizing a with
  | nil => simp [InHeader]
  | cons x xs ih =>
      have hend : a + blockHeaderBytes + x.size + extent xs = a + extent (x :: xs) := by
        rw [extent_cons]
        omega
      simp only [cons_append, InHeader, ih, hend, or_assoc]

theorem InHeader.bounds (h : InHeader a xs i) : a ≤ i ∧ i < a + extent xs := by
  induction xs generalizing a with
  | nil => exact h.elim
  | cons x xs ih =>
      rw [extent_cons]
      rcases h with hfirst | hrest
      · omega
      · have := ih hrest
        omega

end Laid

/-- The payloads in use, as addresses and sizes, of the blocks laid out from `a` on. -/
def payloads : Nat → List Block → List (Nat × Nat)
  | _, [] => []
  | a, b :: rest =>
    if b.free then payloads (a + blockHeaderBytes + b.size) rest
    else (a + blockHeaderBytes, b.size) :: payloads (a + blockHeaderBytes + b.size) rest

section Payloads
variable {a p n i : Nat} {b : Block} {xs ys : List Block}

theorem payloads_append : payloads a (xs ++ ys) = payloads a xs ++ payloads (a + extent xs) ys := by
  induction xs generalizing a with
  | nil => rfl
  | cons x xs ih =>
      have hend : a + blockHeaderBytes + x.size + extent xs = a + extent (x :: xs) := by
        rw [extent_cons]
        omega
      rw [cons_append, payloads, payloads, ih, hend]
      split <;> rfl

theorem payloads_cons_free (hb : b.free = true) : payloads a (b :: ys) = payloads (a + extent [b]) ys := by
  rw [payloads, if_pos hb, extent_cons, extent_nil, add_zero, add_assoc]

theorem payloads_cons_used (hb : b.free = false) :
    payloads a (b :: ys) = (a + blockHeaderBytes, b.size) :: payloads (a + extent [b]) ys := by
  rw [payloads, hb, extent_cons, extent_nil, add_zero, add_assoc]
  rfl

theorem payloads_of_free (h : ∀ b ∈ xs, b.free = true) : payloads a xs = [] := by
  induction xs generalizing a with
  | nil => rfl
  | cons x xs ih =>
      rw [payloads_cons_free (h x mem_cons_self)]
      exact ih fun b hb => h b (mem_cons_of_mem x hb)

theorem mem_payloads_bounds (h : (p, n) ∈ payloads a xs) : a + blockHeaderBytes ≤ p ∧ p + n ≤ a + extent xs := by
  induction xs generalizing a with
  | nil => simp [payloads] at h
  | cons x xs ih =>
      rw [extent_cons]
      cases hx : x.free with
      | true =>
          rw [payloads_cons_free hx] at h
          have := ih h
          rw [extent_cons, extent_nil] at this
          omega
      | false =>
          rw [payloads_cons_used hx, mem_cons] at h
          rcases h with heq | hrest
          · obtain ⟨rfl, rfl⟩ := Prod.mk.inj heq
            omega
          · have := ih hrest
            rw [extent_cons, extent_nil] at this
            omega

theorem payloads_disjoint (a : Nat) (xs : List Block) : (payloads a xs).Pairwise fun p q => p.1 + p.2 ≤ q.1 := by
  induction xs generalizing a with
  | nil => exact List.Pairwise.nil
  | cons x xs ih =>
      cases hx : x.free with
      | true =>
          rw [payloads_cons_free hx]
          exact ih _
      | false =>
          rw [payloads_cons_used hx, pairwise_cons]
          refine ⟨fun q hq => ?_, ih _⟩
          have := mem_payloads_bounds hq
          rw [extent_cons, extent_nil] at this
          simp only
          omega

theorem not_inHeader_payload (h : (p, n) ∈ payloads a xs) (hi : i < n) : ¬ InHeader a xs (p + i) := by
  induction xs generalizing a with
  | nil => simp [payloads] at h
  | cons x xs ih =>
      simp only [InHeader, not_or, not_and, Nat.not_lt]
      have hbounds := mem_payloads_bounds h
      refine ⟨fun _ => by omega, ?_⟩
      cases hx : x.free with
      | true =>
          rw [payloads_cons_free hx, extent_cons, extent_nil, add_zero, ← add_assoc] at h
          exact ih h
      | false =>
          rw [payloads_cons_used hx, mem_cons] at h
          rcases h with heq | hrest
          · obtain ⟨rfl, rfl⟩ := Prod.mk.inj heq
            exact fun hin => by
              have := hin.bounds
              omega
          · rw [extent_cons, extent_nil, add_zero, ← add_assoc] at hrest
            exact ih hrest

theorem mem_payloads (h : (p, n) ∈ payloads a xs) :
    ∃ pre b post, xs = pre ++ b :: post ∧ b.free = false ∧ p = a + extent pre + blockHeaderBytes ∧
      n = b.size := by
  induction xs generalizing a with
  | nil => simp [payloads] at h
  | cons x xs ih =>
      cases hx : x.free with
      | true =>
          rw [payloads_cons_free hx] at h
          obtain ⟨pre, b, post, rfl, hb, hp, hn⟩ := ih h
          refine ⟨x :: pre, b, post, rfl, hb, ?_, hn⟩
          rw [hp, extent_cons, extent_cons, extent_nil]
          omega
      | false =>
          rw [payloads_cons_used hx, mem_cons] at h
          rcases h with heq | hrest
          · obtain ⟨rfl, rfl⟩ := Prod.mk.inj heq
            exact ⟨[], x, xs, rfl, hx, by simp, rfl⟩
          · obtain ⟨pre, b, post, rfl, hb, hp, hn⟩ := ih hrest
            refine ⟨x :: pre, b, post, rfl, hb, ?_, hn⟩
            rw [hp, extent_cons, extent_cons, extent_nil]
            omega

end Payloads

end SolarOs.Ramfs
