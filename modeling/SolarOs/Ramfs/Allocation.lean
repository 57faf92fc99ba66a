import Mathlib.Data.List.Pairwise
import SolarOs.Ramfs.Splitting

/-! What `ramfs_alloc`, `ramfs_free` and `ramfs_realloc` do to the payloads in use. -/
namespace SolarOs.Ramfs
open ByteMemory List

variable {h : Heap} {m m' m'' : Memory} {a p n size : Nat} {blocks zs : List Block}
  {ps qs : List (Nat × Nat)}

/-- The same arena with other bytes. -/
abbrev Heap.withMemory (h : Heap) (memory : Memory) : Heap := { h with memory }

structure Heap.Tiled (h : Heap) (blocks : List Block) : Prop where
  start : h.blocks = h.arena
  laid : Laid h.memory 0 0 h.arena blocks
  total : extent blocks = h.arenaBytes
  positive : ∀ b ∈ blocks, 0 < b.size
  arenaPos : 0 < h.arena
  inSpace : h.arena + h.arenaBytes ≤ 2 ^ 32

def Heap.Holds (h : Heap) (ps : List (Nat × Nat)) : Prop :=
  ∃ blocks, h.Tiled blocks ∧ (payloads h.arena blocks).Perm ps

def Keeps (m m' : Memory) (ps : List (Nat × Nat)) : Prop :=
  ∀ p n, (p, n) ∈ ps → ∀ i < n, m' (p + i) = m (p + i)

theorem Keeps.trans (h : Keeps m m' ps) (h' : Keeps m' m'' ps) : Keeps m m'' ps :=
  fun p n hp i hi => (h' p n hp i hi).trans (h p n hp i hi)

theorem Keeps.mono (h : Keeps m m' ps) (hsub : qs ⊆ ps) : Keeps m m' qs :=
  fun p n hp => h p n (hsub hp)

theorem Confined.keeps (h : Confined m m' a blocks) : Keeps m m' (payloads a blocks) :=
  fun _ _ hp _ hi => h _ (not_inHeader_payload hp hi)

theorem Heap.Tiled.fits (h' : h.Tiled blocks) : Fits h.arena blocks where
  start := h'.arenaPos
  stop := by
    rw [h'.total]
    exact h'.inSpace

theorem Heap.Holds.perm (h' : h.Holds ps) (hperm : ps.Perm qs) : h.Holds qs := by
  obtain ⟨blocks, htiled, hps⟩ := h'
  exact ⟨blocks, htiled, hps.trans hperm⟩

theorem Heap.Holds.bounds (h' : h.Holds ps) (hp : (p, n) ∈ ps) :
    0 < n ∧ 0 < h.arena ∧ h.arena + blockHeaderBytes ≤ p ∧ p + n ≤ h.arena + h.arenaBytes ∧
      h.arena + h.arenaBytes ≤ 2 ^ 32 := by
  obtain ⟨blocks, htiled, hps⟩ := h'
  have hmem := hps.mem_iff.mpr hp
  have hbounds := mem_payloads_bounds hmem
  rw [htiled.total] at hbounds
  obtain ⟨pre, b, post, rfl, -, -, hn⟩ := mem_payloads hmem
  have hpos := htiled.positive b (by simp)
  exact ⟨hn ▸ hpos, htiled.arenaPos, hbounds.1, hbounds.2, htiled.inSpace⟩

theorem Heap.Holds.disjoint (h' : h.Holds ps) : ps.Pairwise fun p q => p.1 + p.2 ≤ q.1 ∨ q.1 + q.2 ≤ p.1 := by
  obtain ⟨blocks, htiled, hps⟩ := h'
  have hordered : (payloads h.arena blocks).Pairwise fun p q => p.1 + p.2 ≤ q.1 ∨ q.1 + q.2 ≤ p.1 :=
    (payloads_disjoint h.arena blocks).imp Or.inl
  exact hps.pairwise hordered fun hpq => hpq.symm

theorem Heap.Holds.apart {q k : Nat} (h' : h.Holds ps) (hp : (p, n) ∈ ps) (hq : (q, k) ∈ ps)
    (hne : q ≠ p) : p + n ≤ q ∨ q + k ≤ p := by
  have : Std.Symm fun p q : Nat × Nat => p.1 + p.2 ≤ q.1 ∨ q.1 + q.2 ≤ p.1 := ⟨fun _ _ => Or.symm⟩
  exact h'.disjoint.forall hp hq fun heq => hne (congrArg Prod.fst heq).symm

theorem Heap.Holds.nodup (h' : h.Holds ps) : (ps.map Prod.fst).Nodup := by
  unfold List.Nodup
  rw [pairwise_map]
  refine h'.disjoint.imp_of_mem fun {p q} hp hq hpq => ?_
  have hp' := (h'.bounds (p := p.1) (n := p.2) hp).1
  have hq' := (h'.bounds (p := q.1) (n := q.2) hq).1
  omega

theorem Heap.Holds.length_le (h' : h.Holds ps) : ps.length ≤ h.arenaBytes := by
  obtain ⟨blocks, htiled, hps⟩ := h'
  rw [← hps.length_eq, ← htiled.total]
  have hle : ∀ a, (payloads a blocks).length ≤ extent blocks := by
    clear hps htiled
    induction blocks with
    | nil => simp [payloads]
    | cons b rest ih =>
        intro a
        have := ih (a + blockHeaderBytes + b.size)
        rw [payloads, extent_cons]
        unfold blockHeaderBytes at this ⊢
        split
        · omega
        · rw [length_cons]
          omega
  exact hle h.arena

theorem allocLoop_spec (aligned : Nat) {fuel prev : Nat} (h : Laid m 0 prev a zs) (ha : 0 < a)
    (hfuel : zs.length ≤ fuel) : allocLoop aligned fuel m (if zs = [] then 0 else a) = none ∨
      ∃ xs b ys, zs = xs ++ b :: ys ∧ b.free = true ∧ aligned ≤ b.size ∧
        allocLoop aligned fuel m (if zs = [] then 0 else a) =
          some (setBlockFree (splitBlock m (a + extent xs) aligned) (a + extent xs) false,
            blockPayload (a + extent xs)) := by
  induction zs generalizing a prev fuel with
  | nil =>
      left
      cases fuel <;> rfl
  | cons b rest ih =>
      cases fuel with
      | zero => simp at hfuel
      | succ fuel =>
          have hne : a ≠ 0 := by omega
          have hfree : blockFree m a = b.free := congrArg Header.free h.1
          have hbsize : blockSize m a = b.size := congrArg Header.size h.1
          have hnext : blockNext m a = if rest = [] then 0 else a + blockHeaderBytes + b.size :=
            congrArg Header.next h.1
          rw [if_neg (cons_ne_nil b rest), allocLoop, if_neg hne, hfree, hbsize, hnext]
          by_cases hskip : b.free = false ∨ b.size < aligned
          · rw [if_pos hskip]
            have hrest : rest.length ≤ fuel := by simpa using hfuel
            rcases ih h.2 (by omega) hrest with hnone | ⟨xs, c, ys, rfl, hc, hsize, hsome⟩
            · exact .inl hnone
            · refine .inr ⟨b :: xs, c, ys, rfl, hc, hsize, hsome.trans ?_⟩
              rw [extent_cons]
              simp only [add_assoc]
          · rw [if_neg hskip]
            simp only [not_or, Bool.not_eq_false, not_lt] at hskip
            exact .inr ⟨[], b, rest, rfl, hskip.1, hskip.2, rfl⟩

theorem alignSize_some {aligned : Nat} (h : alignSize size = some aligned) :
    size ≤ aligned ∧ aligned ≤ size + 3 ∧ aligned < 2 ^ 32 := by
  unfold alignSize alignment sizeMax at h
  simp only [Option.ite_none_left_eq_some, Option.some.injEq] at h
  omega

theorem Heap.Tiled.rearrange (h' : h.Tiled blocks) (hlaid : Laid m 0 0 h.arena zs)
    (hextent : extent zs = extent blocks) (hpos : ∀ d ∈ zs, 0 < d.size) : (h.withMemory m).Tiled zs where
  start := h'.start
  laid := hlaid
  total := hextent.trans h'.total
  positive := hpos
  arenaPos := h'.arenaPos
  inSpace := h'.inSpace

theorem Heap.Tiled.replace {xs cs ds ys : List Block} (h' : h.Tiled (xs ++ cs ++ ys))
    (hlaid : Laid m 0 0 h.arena (xs ++ ds ++ ys)) (hextent : extent ds = extent cs)
    (hpos : ∀ d ∈ ds, 0 < d.size) : (h.withMemory m).Tiled (xs ++ ds ++ ys) := by
  refine h'.rearrange hlaid (by simp only [extent_append, hextent]) fun d hd => ?_
  have := h'.positive
  simp only [mem_append] at this hd
  rcases hd with (hxs | hds) | hys
  · exact this d (.inl (.inl hxs))
  · exact hpos d hds
  · exact this d (.inr hys)

theorem payloads_skip (a : Nat) (xs : List Block) {cs : List Block} (ys : List Block) (hcs : ∀ c ∈ cs, c.free = true) :
    payloads a (xs ++ cs ++ ys) = payloads a xs ++ payloads (a + extent xs + extent cs) ys := by
  have hnone : payloads (a + extent xs) cs = [] := payloads_of_free hcs
  rw [payloads_append, payloads_append, hnone, append_nil, extent_append, add_assoc]

theorem payloads_first (a : Nat) (xs ys : List Block) {cs : List Block} {c : Block} {rem : List Block}
    (hc : c.free = false) (hrem : ∀ r ∈ rem, r.free = true) (hextent : extent (c :: rem) = extent cs) :
    payloads a (xs ++ (c :: rem) ++ ys) =
      payloads a xs ++ (a + extent xs + blockHeaderBytes, c.size) :: payloads (a + extent xs + extent cs) ys := by
  have hend : a + extent (xs ++ c :: rem) = a + extent xs + extent cs := by
    rw [extent_append, hextent]
    omega
  have hnone : payloads (a + extent xs + extent [c]) rem = [] := payloads_of_free hrem
  rw [payloads_append, payloads_append, payloads_cons_used hc, hnone, hend]
  simp

variable {xs ys : List Block}

theorem takeBlock_spec {aligned : Nat} {b : Block} (htiled : h.Tiled (xs ++ b :: ys)) (hfree : b.free = true)
    (hfits : aligned ≤ b.size) (haligned : 0 < aligned) : ∃ n, aligned ≤ n ∧
      (h.withMemory (setBlockFree (splitBlock h.memory (h.arena + extent xs) aligned)
        (h.arena + extent xs) false)).Holds
          ((blockPayload (h.arena + extent xs), n) :: payloads h.arena (xs ++ b :: ys)) ∧
      Keeps h.memory (setBlockFree (splitBlock h.memory (h.arena + extent xs) aligned)
        (h.arena + extent xs) false) (payloads h.arena (xs ++ b :: ys)) := by
  obtain ⟨c, rem, hlaid, hcfree, hcsize, hextent, hrem, -, hconfined⟩ := splitBlock_laid htiled.laid htiled.fits hfits
  obtain ⟨hlaid', hconfined'⟩ := setBlockFree_laid hlaid false
  have hgroup : ∀ d : Block, xs ++ d :: (rem ++ ys) = xs ++ (d :: rem) ++ ys := by simp
  have hsingle : xs ++ b :: ys = xs ++ [b] ++ ys := by simp
  rw [hgroup] at hlaid hlaid' hconfined hconfined'
  rw [hsingle] at htiled ⊢
  have hremfree : ∀ r ∈ rem, r.free = true := fun r hr => (hrem r hr).1
  have hextent' : ∀ f, extent (⟨c.size, f⟩ :: rem) = extent [b] := by
    intro f
    simp only [extent_cons, extent_nil]
    omega
  have hsinglefree : ∀ c ∈ [b], c.free = true := by simp [hfree]
  have hold := payloads_skip h.arena xs ys hsinglefree
  have hgroupfree : ∀ d ∈ c :: rem, d.free = true := by simpa [hcfree, hfree] using hremfree
  have hbetween := payloads_skip h.arena xs ys hgroupfree
  rw [hextent' c.free] at hbetween
  refine ⟨c.size, hcsize, ⟨xs ++ (⟨c.size, false⟩ :: rem) ++ ys, ?_, ?_⟩, ?_⟩
  · refine htiled.replace hlaid' (hextent' false) fun d hd => ?_
    rcases mem_cons.mp hd with rfl | hd
    · exact lt_of_lt_of_le haligned hcsize
    · exact (hrem d hd).2
  · rw [payloads_first h.arena xs ys rfl hremfree (hextent' false), hold]
    exact perm_middle
  · rw [hold, ← hbetween]
    exact (hconfined.trans hconfined').keeps

/-- What an allocation can do, and the payloads in use afterwards. -/
inductive Allocates (h : Heap) (ps : List (Nat × Nat)) (size : Nat) : Heap × Except Errno Nat → Prop
  | fails errno : Allocates h ps size (h, .error errno)
  | gives {memory p n} : 0 < size → size ≤ n → (h.withMemory memory).Holds ((p, n) :: ps) →
      Keeps h.memory memory ps → Allocates h ps size (h.withMemory memory, .ok p)

theorem alloc_cases (htiled : h.Tiled zs) (size : Nat) : (∃ errno, alloc h size = (h, .error errno)) ∨
      ∃ aligned xs b ys, zs = xs ++ b :: ys ∧ b.free = true ∧ 0 < size ∧ size ≤ aligned ∧ aligned ≤ b.size ∧
        alloc h size = (h.withMemory (setBlockFree (splitBlock h.memory (h.arena + extent xs) aligned)
          (h.arena + extent xs) false), .ok (blockPayload (h.arena + extent xs))) := by
  unfold alloc
  split
  · exact .inl ⟨_, rfl⟩
  next hsize =>
    cases haligned : alignSize size with
    | none => exact .inl ⟨_, rfl⟩
    | some aligned =>
        obtain ⟨hle, -, hlt⟩ := alignSize_some haligned
        have hfuel : zs.length ≤ h.arenaBytes := htiled.total ▸ length_le_extent zs
        have hloop := allocLoop_spec aligned htiled.laid htiled.arenaPos hfuel
        have hstart : allocLoop aligned h.arenaBytes h.memory h.blocks =
            allocLoop aligned h.arenaBytes h.memory (if zs = [] then 0 else h.arena) := by
          cases zs with
          | nil =>
              rw [← htiled.total]
              rfl
          | cons z zs => rw [htiled.start, if_neg (cons_ne_nil z zs)]
        simp only
        rw [hstart]
        rcases hloop with hnone | ⟨xs, b, ys, rfl, hfree, hfits, hsome⟩
        · rw [hnone]
          exact .inl ⟨_, rfl⟩
        · rw [hsome]
          exact .inr ⟨aligned, xs, b, ys, rfl, hfree, Nat.pos_of_ne_zero hsize, hle, hfits, rfl⟩

theorem alloc_spec (h' : h.Holds ps) (size : Nat) : Allocates h ps size (alloc h size) := by
  obtain ⟨zs, htiled, hps⟩ := h'
  rcases alloc_cases htiled size with ⟨errno, hfails⟩ | ⟨aligned, xs, b, ys, rfl, hfree, hpos, hle, hfits, hgives⟩
  · rw [hfails]
    exact .fails _
  · rw [hgives]
    obtain ⟨n, hn, hholds, hkeeps⟩ := takeBlock_spec htiled hfree hfits (by omega)
    refine .gives hpos (le_trans hle hn) (hholds.perm (hps.cons _)) ?_
    exact hkeeps.mono hps.symm.subset

theorem Heap.Tiled.payload {b : Block} (htiled : h.Tiled (xs ++ b :: ys))
    (hp : p = h.arena + extent xs + blockHeaderBytes) (hpos : 0 < b.size) :
    p ≠ 0 ∧ ptrInArena h p = true ∧ payloadBlock p = h.arena + extent xs ∧
      blockSize h.memory (payloadBlock p) = b.size ∧
      blockNext h.memory (payloadBlock p) = nextAddress 0 (h.arena + extent xs) b ys := by
  have htotal := htiled.total
  have harena := htiled.arenaPos
  rw [extent_append, extent_cons] at htotal
  have hblock : payloadBlock p = h.arena + extent xs := by
    rw [hp, payloadBlock, Nat.add_sub_cancel]
  have hheader := (laid_middle.mp htiled.laid).2.1
  refine ⟨by omega, ?_, hblock, ?_, ?_⟩
  · simp only [ptrInArena, Bool.and_eq_true, decide_eq_true_eq]
    refine ⟨⟨⟨by omega, by omega⟩, by omega⟩, by omega⟩
  · rw [hblock]
    exact congrArg Header.size hheader
  · rw [hblock]
    exact congrArg Header.next hheader

theorem free_tiled {b : Block} (htiled : h.Tiled (xs ++ b :: ys)) (hp : p = h.arena + extent xs + blockHeaderBytes) :
    ∃ zs memory, free h p = h.withMemory memory ∧ (h.withMemory memory).Tiled zs ∧
      Regrouped h.arena (xs ++ { b with free := true } :: ys) zs ∧ (Parted xs → Parted ys → Parted zs) ∧
      Keeps h.memory memory (payloads h.arena (xs ++ { b with free := true } :: ys)) := by
  have hpos := htiled.positive b (by simp)
  obtain ⟨hne, hin, hblock, -, -⟩ := htiled.payload hp hpos
  obtain ⟨hlaid, hconfined⟩ := setBlockFree_laid htiled.laid true
  have hsame : extent (xs ++ { b with free := true } :: ys) = extent (xs ++ b :: ys) := by
    rw [extent_append, extent_append, extent_cons, extent_cons]
  have hfits : Fits h.arena (xs ++ { b with free := true } :: ys) := by
    refine ⟨htiled.arenaPos, ?_⟩
    rw [hsame]
    exact htiled.fits.stop
  obtain ⟨zs, hlaid', hregrouped, hparted, hconfined'⟩ := coalesceBlock_laid hlaid hfits rfl
  refine ⟨zs, coalesceBlock (setBlockFree h.memory (payloadBlock p) true) (payloadBlock p), ?_, ?_, hregrouped,
    hparted, ?_⟩
  · unfold free
    rw [if_neg hne, hin]
    rfl
  · rw [hblock]
    refine htiled.rearrange hlaid' (hregrouped.extent.trans hsame) (hregrouped.positive fun d hd => ?_)
    simp only [mem_append, mem_cons] at hd
    rcases hd with hd | rfl | hd
    · exact htiled.positive d (by simp [hd])
    · exact hpos
    · exact htiled.positive d (by simp [hd])
  · have hrest : payloads h.arena (xs ++ { b with free := true } :: ys) ⊆ payloads h.arena (xs ++ b :: ys) := by
      rw [payloads_append, payloads_append, payloads_cons_free rfl]
      cases hb : b.free with
      | true =>
          rw [payloads_cons_free hb]
          simp
      | false =>
          rw [payloads_cons_used hb]
          simp only [extent_cons, extent_nil]
          exact append_subset.mpr ⟨subset_append_left _ _,
            List.Subset.trans (subset_cons_self _ _) (subset_append_right _ _)⟩
    rw [hblock]
    exact (hconfined.keeps.mono hrest).trans hconfined'.keeps

theorem free_spec (h' : h.Holds ((p, n) :: ps)) :
    ∃ memory, free h p = h.withMemory memory ∧ (h.withMemory memory).Holds ps ∧
      Keeps h.memory memory ps := by
  obtain ⟨blocks, htiled, hps⟩ := h'
  have hmem : (p, n) ∈ payloads h.arena blocks := hps.mem_iff.mpr mem_cons_self
  obtain ⟨xs, b, ys, rfl, hb, hp, rfl⟩ := mem_payloads hmem
  obtain ⟨zs, memory, hfree, htiled', hregrouped, -, hkeeps⟩ := free_tiled htiled hp
  have hend : extent [{ b with free := true }] = extent [b] := by simp
  have hrest : payloads h.arena (xs ++ { b with free := true } :: ys) =
      payloads h.arena xs ++ payloads (h.arena + extent xs + extent [b]) ys := by
    rw [payloads_append, payloads_cons_free rfl, hend]
  have hall : payloads h.arena (xs ++ b :: ys) = payloads h.arena xs ++
      (p, b.size) :: payloads (h.arena + extent xs + extent [b]) ys := by
    rw [payloads_append, payloads_cons_used hb, hp]
  have hperm : (payloads h.arena (xs ++ { b with free := true } :: ys)).Perm ps := by
    rw [hrest]
    rw [hall] at hps
    exact (perm_cons _).mp (perm_middle.symm.trans hps)
  refine ⟨memory, hfree, ⟨zs, htiled', ?_⟩, hkeeps.mono hperm.symm.subset⟩
  rw [hregrouped.payloads]
  exact hperm

theorem Heap.Tiled.write (h' : h.Tiled blocks) (hp : (p, n) ∈ payloads h.arena blocks)
    (hm : ∀ i, i < p ∨ p + n ≤ i → m i = h.memory i) : (h.withMemory m).Tiled blocks := by
  obtain ⟨xs, b, ys, rfl, -, hpeq, rfl⟩ := mem_payloads hp
  obtain ⟨hxs, hb, hys⟩ := laid_middle.mp h'.laid
  have hb' : header m (h.arena + extent xs) = header h.memory (h.arena + extent xs) :=
    header_congr fun i _ hi => hm i (by omega)
  have hlaid : Laid m 0 0 h.arena (xs ++ b :: ys) :=
    laid_middle.mpr ⟨hxs.congr fun i _ hi => hm i (by omega), hb'.trans hb,
      hys.congr fun i hi _ => hm i (by omega)⟩
  exact h'.rearrange hlaid rfl h'.positive

theorem Heap.Holds.write (h' : h.Holds ps) (hp : (p, n) ∈ ps) (hm : ∀ i, i < p ∨ p + n ≤ i → m i = h.memory i) :
    (h.withMemory m).Holds ps ∧ ∀ q k, (q, k) ∈ ps → q ≠ p → ∀ i < k, m (q + i) = h.memory (q + i) := by
  constructor
  · obtain ⟨blocks, htiled, hps⟩ := h'
    exact ⟨blocks, htiled.write (hps.mem_iff.mpr hp) hm, hps⟩
  · intro q k hq hne i hi
    have hpq := h'.apart hp hq hne
    exact hm (q + i) (by omega)

theorem splitUsed_spec {aligned : Nat} {b : Block} (htiled : h.Tiled (xs ++ b :: ys)) (hused : b.free = false)
    (hfits : aligned ≤ b.size) (haligned : 0 < aligned) (hp : p = h.arena + extent xs + blockHeaderBytes)
    (hps : (payloads h.arena (xs ++ b :: ys)).Perm ((p, b.size) :: ps)) : ∃ k, aligned ≤ k ∧
      (h.withMemory (splitBlock h.memory (h.arena + extent xs) aligned)).Holds ((p, k) :: ps) ∧
      Keeps h.memory (splitBlock h.memory (h.arena + extent xs) aligned) ((p, k) :: ps) := by
  obtain ⟨c, rem, hlaid, hcfree, hcsize, hextent, hrem, -, hconfined⟩ := splitBlock_laid htiled.laid htiled.fits hfits
  have hgroup : xs ++ c :: (rem ++ ys) = xs ++ (c :: rem) ++ ys := by simp
  have hsingle : xs ++ b :: ys = xs ++ [b] ++ ys := by simp
  rw [hgroup] at hlaid hconfined
  have hextent' : extent (c :: rem) = extent [b] := by
    simp only [extent_cons, extent_nil]
    omega
  have hold := payloads_first h.arena xs ys hused (forall_mem_nil _) (Eq.refl (extent [b]))
  have hnew := payloads_first h.arena xs ys (hcfree.trans hused) (fun r hr => (hrem r hr).1) hextent'
  rw [← hp] at hold hnew
  have hperm : (payloads h.arena (xs ++ (c :: rem) ++ ys)).Perm ((p, c.size) :: ps) := by
    rw [hnew]
    rw [hsingle, hold] at hps
    exact perm_middle.trans (((perm_cons _).mp (perm_middle.symm.trans hps)).cons _)
  rw [hsingle] at htiled
  refine ⟨c.size, hcsize, ⟨xs ++ (c :: rem) ++ ys, htiled.replace hlaid hextent' ?_, hperm⟩, ?_⟩
  · intro d hd
    rcases mem_cons.mp hd with rfl | hd
    · exact lt_of_lt_of_le haligned hcsize
    · exact (hrem d hd).2
  · exact hconfined.keeps.mono hperm.symm.subset

inductive Reallocates (h : Heap) (p n : Nat) (ps : List (Nat × Nat)) (oldSize newSize : Nat) :
    Heap × Except Errno Nat → Prop
  | fails errno : Reallocates h p n ps oldSize newSize (h, .error errno)
  | gives {memory q k} : newSize ≤ k → (h.withMemory memory).Holds ((q, k) :: ps) →
      Keeps h.memory memory ps →
      (∀ i < min (min oldSize n) newSize, memory (q + i) = h.memory (p + i)) →
      Reallocates h p n ps oldSize newSize (h.withMemory memory, .ok q)

theorem Heap.Holds.blockSize (h' : h.Holds ps) (hp : (p, n) ∈ ps) : Ramfs.blockSize h.memory (payloadBlock p) = n := by
  obtain ⟨blocks, htiled, hps⟩ := h'
  obtain ⟨xs, b, ys, rfl, -, hpeq, rfl⟩ := mem_payloads (hps.mem_iff.mpr hp)
  exact (htiled.payload hpeq (htiled.positive b (by simp))).2.2.2.1

theorem moveBlock_spec (h' : h.Holds ((p, n) :: ps)) (oldSize newSize : Nat) :
    Reallocates h p n ps oldSize newSize (moveBlock h p oldSize newSize) := by
  unfold moveBlock
  have halloc := alloc_spec h' newSize
  generalize alloc h newSize = result at halloc
  cases halloc with
  | fails errno => exact .fails errno
  | @gives memory q k hpos hk hholds hkeeps =>
      have hp : (p, n) ∈ (q, k) :: (p, n) :: ps := by simp
      have hq : (q, k) ∈ (q, k) :: (p, n) :: ps := by simp
      have hnodup := hholds.nodup
      simp only [map_cons, nodup_cons, mem_cons, not_or] at hnodup
      have hsize : Ramfs.blockSize memory (payloadBlock p) = n := hholds.blockSize hp
      simp only [hsize]
      generalize hcopy : copy memory q p (min (min oldSize n) newSize) = memory'
      have houtside : ∀ i, i < q ∨ q + k ≤ i → memory' i = memory i := by
        intro i hi
        rw [← hcopy]
        exact copy_outside memory q p (by omega)
      have hinside : ∀ i < min (min oldSize n) newSize, memory' (q + i) = memory (p + i) := by
        intro i hi
        rw [← hcopy]
        exact copy_inside memory q p hi
      obtain ⟨hholds', hothers⟩ := hholds.write hq houtside
      have hswap : (h.withMemory memory').Holds ((p, n) :: (q, k) :: ps) := hholds'.perm (List.Perm.swap _ _ _)
      obtain ⟨memory'', hfree, hholds'', hkeeps''⟩ := free_spec hswap
      have heq : free { h.withMemory memory with memory := memory' } p = h.withMemory memory'' := hfree
      simp only [heq]
      refine .gives hk hholds'' ?_ ?_
      · intro r l hr i hi
        have hne : r ≠ q := fun heq => hnodup.1.2 (heq ▸ mem_map_of_mem hr)
        have hold := hkeeps r l (mem_cons_of_mem _ hr) i hi
        have hcopied := hothers r l (by simp [hr]) hne i hi
        have hfreed := hkeeps'' r l (mem_cons_of_mem _ hr) i hi
        exact hfreed.trans (hcopied.trans hold)
      · intro i hi
        have hold := hkeeps p n mem_cons_self i (by omega)
        have hfreed := hkeeps'' q k mem_cons_self i (by omega)
        exact hfreed.trans ((hinside i hi).trans hold)

theorem mergeUsed_spec {b c : Block} (htiled : h.Tiled (xs ++ b :: c :: ys)) (hused : b.free = false)
    (hfree : c.free = true) (hp : p = h.arena + extent xs + blockHeaderBytes)
    (hps : (payloads h.arena (xs ++ b :: c :: ys)).Perm ((p, b.size) :: ps)) :
    (h.withMemory (mergeNext h.memory (h.arena + extent xs))).Tiled (xs ++ joined b c :: ys) ∧
      (payloads h.arena (xs ++ joined b c :: ys)).Perm ((p, (joined b c).size) :: ps) ∧
      Keeps h.memory (mergeNext h.memory (h.arena + extent xs)) ((p, b.size) :: ps) := by
  obtain ⟨hlaid, hconfined⟩ := mergeNext_laid htiled.laid htiled.fits hfree
  have hextent : extent [joined b c] = extent [b, c] := extent_joined b c []
  have hnext : ∀ d ∈ [c], d.free = true := by simp [hfree]
  have hold := payloads_first h.arena xs ys hused hnext (Eq.refl (extent [b, c]))
  have hjoined : (joined b c).free = false := hused
  have hnew := payloads_first h.arena xs ys hjoined (forall_mem_nil _) hextent
  have hkeeps := hconfined.keeps
  have holdlist : xs ++ b :: c :: ys = xs ++ [b, c] ++ ys := by simp
  have hnewlist : xs ++ joined b c :: ys = xs ++ [joined b c] ++ ys := by simp
  rw [← hp] at hold hnew
  refine ⟨?_, ?_, hkeeps.mono hps.symm.subset⟩
  · rw [holdlist] at htiled
    rw [hnewlist] at hlaid ⊢
    refine htiled.replace hlaid hextent fun d hd => ?_
    rw [mem_singleton] at hd
    have := htiled.positive b (by simp)
    rw [hd, joined]
    simp only
    omega
  · rw [hnewlist, hnew]
    rw [holdlist, hold] at hps
    exact perm_middle.trans (((perm_cons _).mp (perm_middle.symm.trans hps)).cons _)

theorem realloc_spec (h' : h.Holds ((p, n) :: ps)) (oldSize : Nat) {newSize : Nat}
    (hnew : 0 < newSize) : Reallocates h p n ps oldSize newSize (realloc h p oldSize newSize) := by
  have hmove := moveBlock_spec h' oldSize newSize
  obtain ⟨blocks, htiled, hps⟩ := h'
  have hmem : (p, n) ∈ payloads h.arena blocks := hps.mem_iff.mpr mem_cons_self
  obtain ⟨xs, b, ys, rfl, hused, hp, rfl⟩ := mem_payloads hmem
  obtain ⟨hne, hin, hblock, hsize, hnext⟩ := htiled.payload hp (htiled.positive b (by simp))
  rw [hblock] at hsize hnext
  have hzero : newSize ≠ 0 := by omega
  rw [realloc, if_neg hzero, if_neg hne, hin, hblock]
  cases haligned : alignSize newSize with
  | none => exact .fails _
  | some aligned =>
      obtain ⟨hle, -, -⟩ := alignSize_some haligned
      simp only [hsize]
      split
      next hshrink =>
        obtain ⟨k, hk, hholds, hkeeps⟩ := splitUsed_spec htiled hused hshrink (by omega) hp hps
        refine .gives (le_trans hle hk) hholds (hkeeps.mono (subset_cons_self _ _)) ?_
        exact fun i hi => hkeeps p k mem_cons_self i (by omega)
      next =>
        split
        next hgrow =>
          obtain ⟨hnextne, hnextfree, hroom⟩ := hgrow
          cases ys with
          | nil => exact absurd hnext hnextne
          | cons c ys =>
              have hfree : c.free = true := by
                have hc := (laid_middle.mp htiled.laid).2.2.1
                rw [hnext, nextAddress, if_neg (cons_ne_nil c ys)] at hnextfree
                exact (congrArg Header.free hc).symm.trans hnextfree
              obtain ⟨htiled', hps', hkeeps⟩ := mergeUsed_spec htiled hused hfree hp hps
              have hfits : aligned ≤ (joined b c).size := by
                have hc := congrArg Header.size (laid_middle.mp htiled.laid).2.2.1
                have hcsize : Ramfs.blockSize h.memory (h.arena + extent xs + blockHeaderBytes + b.size) = c.size := hc
                rw [hnext, nextAddress, if_neg (cons_ne_nil c ys), hcsize] at hroom
                have := Nat.mod_le (b.size + blockHeaderBytes + c.size) (sizeMax + 1)
                simp only [joined]
                omega
              obtain ⟨k, hk, hholds, hkeeps'⟩ := splitUsed_spec htiled' hused hfits (by omega) hp hps'
              refine .gives (le_trans hle hk) hholds ?_ ?_
              · exact (hkeeps.mono (subset_cons_self _ _)).trans (hkeeps'.mono (subset_cons_self _ _))
              · intro i hi
                have hmerged := hkeeps p b.size mem_cons_self i (by omega)
                have hsplit := hkeeps' p k mem_cons_self i (by omega)
                exact hsplit.trans hmerged
        next => exact hmove

theorem mountHeap_tiled {arena quota : Nat} (hmount : mountHeap m arena quota = .ok h)
    (hspace : arena + quota ≤ 2 ^ 32) :
    h.Tiled [⟨h.quotaBytes, true⟩] ∧ h.arenaBytes = blockHeaderBytes + h.quotaBytes := by
  unfold mountHeap at hmount
  simp only at hmount
  split at hmount
  · cases hmount
  next hquota =>
    split at hmount
    · cases hmount
    next harena =>
      obtain rfl := Except.ok.inj hmount
      unfold minQuotaBytes blockHeaderBytes at hquota
      refine ⟨⟨rfl, ⟨?_, trivial⟩, ?_, ?_, by simp only; omega, hspace⟩, ?_⟩
      · simp only [header_setBlockNext, header_setBlockPrev, header_setBlockFree, header_setBlockSize]
        rw [Nat.mod_eq_of_lt (by omega)]
        rfl
      · simp only [extent_cons, extent_nil]
        unfold blockHeaderBytes
        omega
      · intro b hb
        rw [mem_singleton] at hb
        subst hb
        simp only [blockHeaderBytes]
        omega
      · simp only
        unfold blockHeaderBytes
        omega

theorem mountHeap_spec {arena quota : Nat} (hmount : mountHeap m arena quota = .ok h)
    (hspace : arena + quota ≤ 2 ^ 32) : h.Holds [] :=
  ⟨_, (mountHeap_tiled hmount hspace).1, List.Perm.refl _⟩

end SolarOs.Ramfs
