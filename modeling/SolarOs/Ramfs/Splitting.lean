import Mathlib.Data.List.Chain
import SolarOs.Ramfs.Tiling

/-! Splitting and merging blocks: the header writes, and the block list they stand for. -/
namespace SolarOs.Ramfs
open ByteMemory List

variable {m m' m'' : Memory} {a addr i p q size : Nat} {b c : Block} {blocks xs ys zs : List Block}

def Confined (m m' : Memory) (a : Nat) (blocks : List Block) : Prop :=
  ∀ i, ¬ InHeader a blocks i → m' i = m i

theorem Confined.refl (m : Memory) (a : Nat) (blocks : List Block) : Confined m m a blocks :=
  fun _ _ => rfl

theorem Confined.trans (h : Confined m m' a blocks) (h' : Confined m' m'' a blocks) : Confined m m'' a blocks :=
  fun i hi => (h' i hi).trans (h i hi)

theorem HeaderWrite.trans (h : HeaderWrite m m' a) (h' : HeaderWrite m' m'' a) : HeaderWrite m m'' a :=
  fun i hi => (h' i hi).trans (h i hi)

theorem HeaderWrite.confined (h : HeaderWrite m m' (a + extent xs)) : Confined m m' a (xs ++ b :: ys) := by
  intro i hi
  rw [inHeader_append] at hi
  simp only [InHeader, not_or, not_and, not_lt] at hi
  apply h i
  by_cases hlo : a + extent xs ≤ i
  · exact .inr (hi.2.1 hlo)
  · omega

theorem Laid.headerWrite {last prev : Nat} (h : Laid m last prev a xs) (hwrite : HeaderWrite m m' p)
    (hdisjoint : a + extent xs ≤ p ∨ p + blockHeaderBytes ≤ a) : Laid m' last prev a xs :=
  h.congr fun i hlo hhi => hwrite i (by omega)

theorem setBlockFree_laid (h : Laid m 0 0 a (xs ++ b :: ys)) (f : Bool) :
    Laid (setBlockFree m (a + extent xs) f) 0 0 a (xs ++ { b with free := f } :: ys) ∧
      Confined m (setBlockFree m (a + extent xs) f) a (xs ++ b :: ys) := by
  have hwrite := headerWrite_free m (a + extent xs) f
  rw [laid_middle] at h ⊢
  obtain ⟨hxs, hb, hys⟩ := h
  refine ⟨⟨hxs.headerWrite hwrite (.inl (le_rfl)), ?_, hys.headerWrite hwrite (.inr ?_)⟩, hwrite.confined⟩
  · rw [header_setBlockFree, hb]
    rfl
  · omega

/-- The link back of the block at `next`, when there is one. -/
def relinkHead (m : Memory) (next q : Nat) : Memory := if next ≠ 0 then setBlockPrev m next q else m

theorem relinkHead_laid (h : Laid m 0 p a ys) (ha : 0 < a) (hq : q < 2 ^ 32) :
    Laid (relinkHead m (if ys = [] then 0 else a) q) 0 q a ys ∧
      Confined m (relinkHead m (if ys = [] then 0 else a) q) a ys := by
  cases ys with
  | nil => exact ⟨trivial, .refl m a []⟩
  | cons y ys =>
      have hne : a ≠ 0 := by omega
      rw [if_neg (cons_ne_nil y ys), relinkHead, if_pos hne]
      refine ⟨h.relink q hq, ?_⟩
      have hwrite : HeaderWrite m (setBlockPrev m a q) (a + extent []) := headerWrite_prev m a q
      exact hwrite.confined

def writeSplit (m : Memory) (block size : Nat) : Memory :=
  let next := blockPayload block + size
  let m := setBlockSize m next (blockSize m block - size - blockHeaderBytes)
  let m := setBlockFree m next true
  let m := setBlockPrev m next block
  setBlockNext m next (blockNext m block)

theorem splitBlock_eq (hb : addr ≠ 0) (hsize : size < blockSize m addr)
    (hremaining : blockHeaderBytes + alignment < blockSize m addr - size) :
    splitBlock m addr size = setBlockNext (setBlockSize
      (relinkHead (writeSplit m addr size)
        (blockNext (writeSplit m addr size) (blockPayload addr + size)) (blockPayload addr + size))
      addr size) addr (blockPayload addr + size) := by
  have hkeep : ¬ (addr = 0 ∨ blockSize m addr ≤ size) := by omega
  have hsplit : ¬ blockSize m addr - size ≤ blockHeaderBytes + alignment := by omega
  rw [splitBlock, if_neg hkeep]
  simp only [if_neg hsplit]
  rfl

theorem writeSplit_header (m : Memory) (size : Nat) (haddr : addr < 2 ^ 32) :
    HeaderWrite m (writeSplit m addr size) (addr + blockHeaderBytes + size) ∧
      header (writeSplit m addr size) (addr + blockHeaderBytes + size) =
        ⟨blockSize m addr - size - blockHeaderBytes, true, addr, blockNext m addr⟩ := by
  unfold writeSplit blockPayload
  simp only
  generalize hm1 : setBlockSize m (addr + blockHeaderBytes + size)
    (blockSize m addr - size - blockHeaderBytes) = m1
  generalize hm2 : setBlockFree m1 (addr + blockHeaderBytes + size) true = m2
  generalize hm3 : setBlockPrev m2 (addr + blockHeaderBytes + size) addr = m3
  have hwrite3 : HeaderWrite m m3 (addr + blockHeaderBytes + size) := by
    subst hm1 hm2 hm3
    exact ((headerWrite_size _ _ _).trans (headerWrite_free _ _ _)).trans (headerWrite_prev _ _ _)
  have hnext3 : blockNext m3 addr = blockNext m addr := by
    have := hwrite3.header (b := addr) (.inl (by omega))
    exact congrArg Header.next this
  refine ⟨hwrite3.trans (headerWrite_next _ _ _), ?_⟩
  rw [header_setBlockNext, hnext3, ← hm3, header_setBlockPrev, ← hm2, header_setBlockFree, ← hm1, header_setBlockSize]
  simp only [Header.mk.injEq]
  have hsize : blockSize m addr < 2 ^ 32 := load32_lt m addr
  have hnext : blockNext m addr < 2 ^ 32 := load32_lt m (addr + 12)
  exact ⟨Nat.mod_eq_of_lt (by omega), trivial, Nat.mod_eq_of_lt haddr, Nat.mod_eq_of_lt hnext⟩

structure Fits (a : Nat) (blocks : List Block) : Prop where
  start : 0 < a
  stop : a + extent blocks ≤ 2 ^ 32

/-- Splitting a block keeps its first part and leaves a free one after it, or keeps it
whole where too little would be left. -/
theorem splitBlock_laid (h : Laid m 0 0 a (xs ++ b :: ys)) (hfits : Fits a (xs ++ b :: ys)) (hsize : size ≤ b.size) :
    ∃ c rem, Laid (splitBlock m (a + extent xs) size) 0 0 a (xs ++ c :: (rem ++ ys)) ∧
      c.free = b.free ∧ size ≤ c.size ∧ c.size + extent rem = b.size ∧
      (∀ r ∈ rem, r.free = true ∧ 0 < r.size) ∧
      (rem = [] ∨ blockHeaderBytes + alignment < b.size - size ∧ ∃ r, rem = [r]) ∧
      Confined m (splitBlock m (a + extent xs) size) a (xs ++ c :: (rem ++ ys)) := by
  have hstart := hfits.start
  have hstop := hfits.stop
  rw [extent_append, extent_cons] at hstop
  unfold blockHeaderBytes at hstop
  obtain ⟨hxs, hb, hys⟩ := laid_middle.mp h
  generalize haddr : a + extent xs = addr at *
  have hbsize : blockSize m addr = b.size := congrArg Header.size hb
  have hbnext : blockNext m addr = if ys = [] then 0 else addr + blockHeaderBytes + b.size := congrArg Header.next hb
  by_cases hsplit : blockHeaderBytes + alignment < b.size - size
  · unfold blockHeaderBytes alignment at hsplit
    have hlt : size < blockSize m addr := by omega
    have hroom : blockHeaderBytes + alignment < blockSize m addr - size := by
      unfold blockHeaderBytes alignment
      omega
    have heq := splitBlock_eq (by omega) hlt hroom
    have haddrlt : addr < 2 ^ 32 := by omega
    obtain ⟨hwrite, hnew⟩ := writeSplit_header m size haddrlt
    generalize writeSplit m addr size = m4 at heq hwrite hnew
    have hnext4 : blockNext m4 (blockPayload addr + size) =
        if ys = [] then 0 else addr + blockHeaderBytes + b.size := by
      have := congrArg Header.next hnew
      exact this.trans hbnext
    rw [hnext4] at heq
    -- the blocks after the new one, their first one linked back to it
    have hys4 : Laid m4 0 addr (addr + blockHeaderBytes + b.size) ys :=
      hys.headerWrite hwrite (.inr (by unfold blockHeaderBytes; omega))
    obtain ⟨hys5, hconfined⟩ := relinkHead_laid (q := blockPayload addr + size) hys4 (by omega)
      (by unfold blockPayload blockHeaderBytes; omega)
    generalize hm5 : relinkHead m4 (if ys = [] then 0 else addr + blockHeaderBytes + b.size)
      (blockPayload addr + size) = m5 at heq hys5 hconfined
    have hbelow : ∀ i, i < addr + blockHeaderBytes + b.size → m5 i = m4 i := by
      intro i hi
      exact hconfined i fun hin => by
        have := hin.bounds
        omega
    have hnew5 : header m5 (addr + blockHeaderBytes + size) = header m4 (addr + blockHeaderBytes + size) :=
      header_congr fun i _ hhi => hbelow i (by unfold blockHeaderBytes at hhi ⊢; omega)
    -- the header of the block itself
    have hwrite7 : HeaderWrite m5 (splitBlock m addr size) addr := by
      rw [heq]
      exact (headerWrite_size _ _ _).trans (headerWrite_next _ _ _)
    have hold5 : header m5 addr = header m addr := by
      refine (header_congr fun i _ hhi => hbelow i (by unfold blockHeaderBytes at hhi ⊢; omega)).trans ?_
      exact hwrite.header (.inl (by unfold blockHeaderBytes; omega))
    have hblock7 : header (splitBlock m addr size) addr =
        ⟨size, b.free, lastAddress 0 a xs, blockPayload addr + size⟩ := by
      rw [heq, header_setBlockNext, header_setBlockSize, hold5, hb]
      simp only [Header.mk.injEq]
      refine ⟨Nat.mod_eq_of_lt (by omega), trivial, trivial, Nat.mod_eq_of_lt ?_⟩
      unfold blockPayload blockHeaderBytes
      omega
    have hend : addr + blockHeaderBytes + size + blockHeaderBytes + (b.size - size - blockHeaderBytes) =
        addr + blockHeaderBytes + b.size := by
      unfold blockHeaderBytes
      omega
    have hlow : ∀ i, i < addr → splitBlock m addr size i = m i := by
      intro i hi
      rw [hwrite7 i (.inl hi), hbelow i (by omega), hwrite i (.inl (by omega))]
    have hnew7 : header (splitBlock m addr size) (addr + blockHeaderBytes + size) =
        ⟨b.size - size - blockHeaderBytes, true, addr, blockNext m addr⟩ := by
      rw [hwrite7.header (.inr (by omega)), hnew5, hnew, hbsize]
    have hys7 : Laid (splitBlock m addr size) 0 (blockPayload addr + size)
        (addr + blockHeaderBytes + b.size) ys :=
      hys5.headerWrite hwrite7 (.inr (by omega))
    refine ⟨⟨size, b.free⟩, [⟨b.size - size - blockHeaderBytes, true⟩], ?_, rfl, le_rfl, ?_, ?_,
      .inr ⟨by unfold blockHeaderBytes alignment; omega, _, rfl⟩, ?_⟩
    · rw [laid_middle, haddr]
      refine ⟨hxs.congr fun i _ hhi => hlow i (by omega), hblock7, ?_, ?_⟩
      · rw [hnew7, hbnext]
        simp only [Header.mk.injEq, nextAddress, hend, true_and]
        rfl
      · rw [hend]
        exact hys7
    · simp only [extent_cons, extent_nil]
      unfold blockHeaderBytes
      omega
    · intro r hr
      rw [mem_singleton] at hr
      subst hr
      refine ⟨rfl, ?_⟩
      simp only [blockHeaderBytes]
      omega
    · intro i hi
      rw [inHeader_append, haddr] at hi
      simp only [singleton_append, InHeader, not_or, not_and, not_lt, hend] at hi
      obtain ⟨-, hblock, hrest, hlast⟩ := hi
      rw [hwrite7 i (by omega), hconfined i hlast, hwrite i (by omega)]
  · have hkeep : splitBlock m addr size = m := by
      unfold splitBlock
      split
      · rfl
      · rw [hbsize, if_pos (by omega)]
    refine ⟨b, [], ?_, rfl, hsize, by simp, by simp, .inl rfl, ?_⟩
    · rw [hkeep]
      exact h
    · rw [hkeep]
      exact .refl m a _

def joined (b c : Block) : Block := ⟨b.size + (blockHeaderBytes + c.size), b.free⟩

theorem extent_joined (b c : Block) (ys : List Block) : extent (joined b c :: ys) = extent (b :: c :: ys) := by
  simp only [extent_cons, joined]
  omega

theorem mergeNext_laid (h : Laid m 0 0 a (xs ++ b :: c :: ys)) (hfits : Fits a (xs ++ b :: c :: ys))
    (hfree : c.free = true) : Laid (mergeNext m (a + extent xs)) 0 0 a (xs ++ joined b c :: ys) ∧
      Confined m (mergeNext m (a + extent xs)) a (xs ++ b :: c :: ys) := by
  have hstart := hfits.start
  have hstop := hfits.stop
  rw [extent_append, extent_cons, extent_cons] at hstop
  unfold blockHeaderBytes at hstop
  obtain ⟨hxs, hb, hc, hys⟩ := laid_middle.mp h
  generalize haddr : a + extent xs = addr at *
  generalize hnext : addr + blockHeaderBytes + b.size = next at *
  have hnextval : next = addr + 16 + b.size := by rw [← hnext]; rfl
  have hbnext : blockNext m addr = next := by
    have := congrArg Header.next hb
    simpa [header, nextAddress, hnext] using this
  have hcfree : blockFree m next = true := (congrArg Header.free hc).trans hfree
  have hkeep : ¬ (addr = 0 ∨ blockNext m addr = 0 ∨ blockFree m (blockNext m addr) = false) := by
    rw [hbnext, hcfree]
    simp
    omega
  generalize hm1 : setBlockSize m addr (blockSize m addr + (blockHeaderBytes + blockSize m next)) = m1
  generalize hm2 : setBlockNext m1 addr (blockNext m1 next) = m2
  have hmerge : mergeNext m addr = relinkHead m2 (blockNext m2 addr) addr := by
    rw [mergeNext, if_neg hkeep, hbnext, ← hm2, ← hm1]
    rfl
  have hwrite : HeaderWrite m m2 addr := by
    rw [← hm2, ← hm1]
    exact (headerWrite_size _ _ _).trans (headerWrite_next _ _ _)
  have hc1 : blockNext m1 next = if ys = [] then 0 else next + blockHeaderBytes + c.size := by
    have hsame : header m1 next = header m next := by
      rw [← hm1]
      exact (headerWrite_size _ _ _).header (.inr (by unfold blockHeaderBytes; omega))
    exact congrArg Header.next (hsame.trans hc)
  have hblock2 : header m2 addr = ⟨b.size + (blockHeaderBytes + c.size), b.free, lastAddress 0 a xs,
      if ys = [] then 0 else next + blockHeaderBytes + c.size⟩ := by
    have hbsize : blockSize m addr = b.size := congrArg Header.size hb
    have hcsize : blockSize m next = c.size := congrArg Header.size hc
    have hlt : blockNext m1 next < 2 ^ 32 := load32_lt m1 (next + 12)
    rw [← hm2, header_setBlockNext, ← hm1, header_setBlockSize, hb, hm1, hbsize, hcsize,
      Nat.mod_eq_of_lt hlt, hc1, Nat.mod_eq_of_lt (by unfold blockHeaderBytes; omega)]
  have hnext2 : blockNext m2 addr = if ys = [] then 0 else next + blockHeaderBytes + c.size :=
    congrArg Header.next hblock2
  have hys2 : Laid m2 0 next (next + blockHeaderBytes + c.size) ys :=
    hys.headerWrite hwrite (.inr (by unfold blockHeaderBytes; omega))
  obtain ⟨hys3, hconfined⟩ := relinkHead_laid (q := addr) hys2 (by omega) (by omega)
  rw [← hnext2, ← hmerge] at hys3 hconfined
  have hbelow : ∀ i, i < next + blockHeaderBytes + c.size → mergeNext m addr i = m2 i := by
    intro i hi
    exact hconfined i fun hin => by
      have := hin.bounds
      omega
  have hend : addr + blockHeaderBytes + (b.size + (blockHeaderBytes + c.size)) =
      next + blockHeaderBytes + c.size := by omega
  constructor
  · rw [laid_middle, haddr]
    refine ⟨hxs.congr fun i _ hhi => ?_, ?_, ?_⟩
    · rw [hbelow i (by omega), hwrite i (.inl (by omega))]
    · have hsame : header (mergeNext m addr) addr = header m2 addr :=
        header_congr fun i _ hhi => hbelow i (by unfold blockHeaderBytes at hhi ⊢; omega)
      rw [hsame, hblock2, joined]
      simp only [nextAddress, hend]
    · simp only [joined, hend]
      exact hys3
  · intro i hi
    rw [inHeader_append, haddr] at hi
    simp only [InHeader, not_or, not_and, not_lt, hnext] at hi
    obtain ⟨-, hblock, -, hlast⟩ := hi
    rw [hconfined i hlast, hwrite i (by omega)]

theorem mergeNext_of_used (h : Laid m 0 0 a (xs ++ b :: ys))
    (hused : ∀ c ∈ ys.head?, c.free = false) : mergeNext m (a + extent xs) = m := by
  obtain ⟨-, hb, hys⟩ := laid_middle.mp h
  have hbnext : blockNext m (a + extent xs) = nextAddress 0 (a + extent xs) b ys := congrArg Header.next hb
  unfold mergeNext
  refine if_pos (.inr ?_)
  cases ys with
  | nil => exact .inl hbnext
  | cons c ys =>
      right
      have hcfree : blockFree m (a + extent xs + blockHeaderBytes + b.size) = c.free := congrArg Header.free hys.1
      rw [hbnext, nextAddress, if_neg (cons_ne_nil c ys), hcfree]
      exact hused c rfl

theorem inHeader_joined (h : InHeader a (xs ++ joined b c :: ys) i) : InHeader a (xs ++ b :: c :: ys) i := by
  rw [inHeader_append] at h ⊢
  rcases h with hxs | hblock | hys
  · exact .inl hxs
  · exact .inr (.inl hblock)
  · refine .inr (.inr (.inr ?_))
    have hend : a + extent xs + blockHeaderBytes + (joined b c).size =
        a + extent xs + blockHeaderBytes + b.size + blockHeaderBytes + c.size := by
      simp only [joined]
      omega
    rw [← hend]
    exact hys

theorem extent_append_joined (xs : List Block) (b c : Block) (ys : List Block) :
    extent (xs ++ joined b c :: ys) = extent (xs ++ b :: c :: ys) := by
  rw [extent_append, extent_append, extent_joined]

theorem Fits.joined (h : Fits a (xs ++ b :: c :: ys)) : Fits a (xs ++ joined b c :: ys) where
  start := h.start
  stop := by
    rw [extent_append_joined]
    exact h.stop

theorem payloads_joined (hb : b.free = true) (hc : c.free = true) :
    payloads a (xs ++ joined b c :: ys) = payloads a (xs ++ b :: c :: ys) := by
  have hend : a + extent xs + extent [Ramfs.joined b c] =
      a + extent xs + extent [b] + extent [c] := by
    simp only [extent_cons, extent_nil, Ramfs.joined]
    omega
  rw [payloads_append, payloads_append, payloads_cons_free (b := Ramfs.joined b c) hb,
    payloads_cons_free hb, payloads_cons_free hc, hend]

theorem lastAddress_concat (prev a : Nat) (xs : List Block) (b : Block) :
    lastAddress prev a (xs ++ [b]) = a + extent xs := by
  induction xs generalizing prev a with
  | nil => rfl
  | cons x xs ih =>
      rw [cons_append, lastAddress, ih, extent_cons]
      omega

/-- A block list that differs from another only in how free space is divided. -/
structure Regrouped (a : Nat) (blocks zs : List Block) : Prop where
  extent : extent zs = extent blocks
  payloads : payloads a zs = payloads a blocks
  positive : (∀ c ∈ blocks, 0 < c.size) → ∀ c ∈ zs, 0 < c.size

theorem Regrouped.refl (a : Nat) (blocks : List Block) : Regrouped a blocks blocks := ⟨rfl, rfl, id⟩

theorem Regrouped.trans (h : Regrouped a blocks ys) (h' : Regrouped a ys zs) : Regrouped a blocks zs where
  extent := h'.extent.trans h.extent
  payloads := h'.payloads.trans h.payloads
  positive := fun hpos => h'.positive (h.positive hpos)

theorem regrouped_joined (hb : b.free = true) (hc : c.free = true) :
    Regrouped a (xs ++ b :: c :: ys) (xs ++ joined b c :: ys) where
  extent := extent_append_joined xs b c ys
  payloads := payloads_joined hb hc
  positive := by
    intro hpos d hd
    simp only [mem_append, mem_cons] at hpos hd
    rcases hd with hxs | rfl | hys
    · exact hpos d (.inl hxs)
    · have := hpos b (.inr (.inl rfl))
      simp only [joined]
      omega
    · exact hpos d (.inr (.inr (.inr hys)))

def Parted (blocks : List Block) : Prop := blocks.IsChain fun b c => b.free = true → c.free = false

theorem parted_middle : Parted (xs ++ b :: ys) ↔ Parted xs ∧ Parted ys ∧
      (b.free = true → (∀ x ∈ xs.getLast?, x.free = false) ∧ ∀ y ∈ ys.head?, y.free = false) := by
  unfold Parted
  rw [isChain_append, isChain_cons]
  constructor
  · rintro ⟨before, ⟨next, after⟩, last⟩
    refine ⟨before, after, fun free => ⟨fun x hx => ?_, fun y hy => next y hy free⟩⟩
    by_contra other
    exact absurd (last x hx b rfl (Bool.not_eq_false _ ▸ other)) (by simp [free])
  · rintro ⟨before, after, apart⟩
    refine ⟨before, ⟨fun y hy free => (apart free).2 y hy, after⟩, fun x hx c hc free => ?_⟩
    obtain rfl := Option.some.inj hc
    by_contra other
    exact absurd ((apart (Bool.not_eq_false _ ▸ other)).1 x hx) (by simp [free])

theorem coalesceBlock_laid (h : Laid m 0 0 a (xs ++ b :: ys)) (hfits : Fits a (xs ++ b :: ys)) (hb : b.free = true) :
    ∃ zs, Laid (coalesceBlock m (a + extent xs)) 0 0 a zs ∧ Regrouped a (xs ++ b :: ys) zs ∧
      (Parted xs → Parted ys → Parted zs) ∧
      Confined m (coalesceBlock m (a + extent xs)) a (xs ++ b :: ys) := by
  have hstart := hfits.start
  have hne : a + extent xs ≠ 0 := by omega
  -- after the merge with the next block
  obtain ⟨b', ys', hlaid, hregrouped, hb', hconfined, hfits', hheaders, hnext⟩ : ∃ b' ys',
      Laid (mergeNext m (a + extent xs)) 0 0 a (xs ++ b' :: ys') ∧
      Regrouped a (xs ++ b :: ys) (xs ++ b' :: ys') ∧ b'.free = true ∧
      Confined m (mergeNext m (a + extent xs)) a (xs ++ b :: ys) ∧ Fits a (xs ++ b' :: ys') ∧
      (∀ i, InHeader a (xs ++ b' :: ys') i → InHeader a (xs ++ b :: ys) i) ∧
      (Parted ys → Parted ys' ∧ ∀ y ∈ ys'.head?, y.free = false) := by
    have hsame : mergeNext m (a + extent xs) = m → (∀ y ∈ ys.head?, y.free = false) → ∃ b' ys',
        Laid (mergeNext m (a + extent xs)) 0 0 a (xs ++ b' :: ys') ∧
        Regrouped a (xs ++ b :: ys) (xs ++ b' :: ys') ∧ b'.free = true ∧
        Confined m (mergeNext m (a + extent xs)) a (xs ++ b :: ys) ∧ Fits a (xs ++ b' :: ys') ∧
        (∀ i, InHeader a (xs ++ b' :: ys') i → InHeader a (xs ++ b :: ys) i) ∧
        (Parted ys → Parted ys' ∧ ∀ y ∈ ys'.head?, y.free = false) := by
      intro heq hused
      rw [heq]
      exact ⟨b, ys, h, .refl a _, hb, .refl m a _, hfits, fun _ => id, fun hparted => ⟨hparted, hused⟩⟩
    cases ys with
    | nil => exact hsame (mergeNext_of_used h (by simp)) (by simp)
    | cons c ys =>
        cases hc : c.free with
        | false => exact hsame (mergeNext_of_used h (by simp [hc])) (by simp [hc])
        | true =>
            obtain ⟨hlaid, hconfined⟩ := mergeNext_laid h hfits hc
            refine ⟨joined b c, ys, hlaid, regrouped_joined hb hc, hb, hconfined, hfits.joined,
              fun i => inHeader_joined, fun hparted => ?_⟩
            obtain ⟨-, hrest, happart⟩ := (@parted_middle c [] ys).mp hparted
            exact ⟨hrest, (happart hc).2⟩
  have hprev : blockPrev (mergeNext m (a + extent xs)) (a + extent xs) = lastAddress 0 a xs :=
    congrArg Header.prev (laid_middle.mp hlaid).2.1
  rw [coalesceBlock, if_neg hne]
  simp only [hprev]
  split
  next hmerge =>
    rcases eq_nil_or_concat xs with rfl | ⟨ws, p, rfl⟩
    · exact absurd rfl hmerge.1
    · rw [concat_eq_append] at *
      rw [lastAddress_concat] at hmerge ⊢
      rw [append_assoc, singleton_append] at hlaid hfits' 
      have hp : p.free = true := by
        have := (laid_middle.mp hlaid).2.1
        exact (congrArg Header.free this).symm.trans hmerge.2
      obtain ⟨hlaid', hconfined'⟩ := mergeNext_laid hlaid hfits' hb'
      refine ⟨ws ++ joined p b' :: ys', hlaid', hregrouped.trans ?_, fun hxs hys => ?_, hconfined.trans fun i hi => ?_⟩
      · rw [append_assoc, singleton_append]
        exact regrouped_joined hp hb'
      · obtain ⟨hws, -, happart⟩ := parted_middle.mp hxs
        exact parted_middle.mpr ⟨hws, (hnext hys).1, fun _ => ⟨(happart hp).1, (hnext hys).2⟩⟩
      · refine hconfined' i fun hin => hi (hheaders i ?_)
        rw [append_assoc, singleton_append]
        exact hin
  next hkeep =>
    refine ⟨xs ++ b' :: ys', hlaid, hregrouped, fun hxs hys => ?_, hconfined⟩
    refine parted_middle.mpr ⟨hxs, (hnext hys).1, fun _ => ⟨fun x hx => ?_, (hnext hys).2⟩⟩
    -- the block before was looked at, and is in use
    obtain ⟨ws, rfl⟩ := getLast?_eq_some_iff.mp hx
    by_contra hfree
    have hfree : x.free = true := Bool.not_eq_false _ ▸ hfree
    rw [lastAddress_concat] at hkeep
    rw [append_assoc, singleton_append] at hlaid
    have hx' := (laid_middle.mp hlaid).2.1
    exact hkeep ⟨by omega, (congrArg Header.free hx').trans hfree⟩

end SolarOs.Ramfs
