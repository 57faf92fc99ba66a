import SolarOs.Ramfs.ArenaSafety

/-! When the free blocks of the arena stay merged. -/
namespace SolarOs.Ramfs
open ByteMemory List

variable {h : Heap} {m : Memory} {a p n size aligned : Nat} {b c : Block} {blocks xs ys zs : List Block}
  {ps : List (Nat × Nat)}

def Heap.Coalesced (h : Heap) : Prop := ∃ blocks, h.Tiled blocks ∧ Parted blocks

theorem Laid.unique {last prev last' prev' : Nat} (hxs : Laid m last prev a xs) (hys : Laid m last' prev' a ys)
    (hextent : extent xs = extent ys) : xs = ys := by
  induction xs generalizing a prev prev' ys with
  | nil =>
      cases ys with
      | nil => rfl
      | cons y ys =>
          rw [extent_nil, extent_cons] at hextent
          unfold blockHeaderBytes at hextent
          omega
  | cons x xs ih =>
      cases ys with
      | nil =>
          rw [extent_nil, extent_cons] at hextent
          unfold blockHeaderBytes at hextent
          omega
      | cons y ys =>
          have hheader := hxs.1.symm.trans hys.1
          have hsize : x.size = y.size := congrArg Header.size hheader
          have hfree : x.free = y.free := congrArg Header.free hheader
          have hxy : x = y := by
            cases x
            cases y
            simp_all
          subst hxy
          have hrest := ih hxs.2 hys.2 (by simpa using hextent)
          rw [hrest]

theorem Heap.Tiled.unique (hxs : h.Tiled xs) (hys : h.Tiled ys) : xs = ys :=
  hxs.laid.unique hys.laid (hxs.total.trans hys.total.symm)

theorem Heap.Coalesced.parted (hc : h.Coalesced) (htiled : h.Tiled blocks) : Parted blocks := by
  obtain ⟨zs, htiled', hparted⟩ := hc
  rwa [htiled.unique htiled']

theorem parted_split {rem : List Block} (hxs : Parted xs) (hys : Parted ys) (hused : c.free = false)
    (hrem : rem = [] ∨ (∃ r, rem = [r]) ∧ ∀ y ∈ ys.head?, y.free = false) : Parted (xs ++ c :: (rem ++ ys)) := by
  refine parted_middle.mpr ⟨hxs, ?_, fun hfree => (nomatch hfree.symm.trans hused)⟩
  rcases hrem with rfl | ⟨⟨r, rfl⟩, hnext⟩
  · exact hys
  · exact (@parted_middle r [] ys).mpr ⟨isChain_nil, hys, fun _ => ⟨nofun, hnext⟩⟩

theorem Heap.Tiled.split {rem : List Block} (htiled : h.Tiled (xs ++ b :: ys)) (hlaid : Laid m 0 0 h.arena (xs ++ c :: (rem ++ ys)))
    (hextent : c.size + extent rem = b.size) (hc : 0 < c.size) (hrem : ∀ r ∈ rem, r.free = true ∧ 0 < r.size) :
    (h.withMemory m).Tiled (xs ++ c :: (rem ++ ys)) := by
  refine htiled.rearrange hlaid (by simp only [extent_append, extent_cons]; omega) fun d hd => ?_
  simp only [mem_append, mem_cons] at hd
  rcases hd with hd | rfl | hd | hd
  · exact htiled.positive d (by simp [hd])
  · exact hc
  · exact (hrem d hd).2
  · exact htiled.positive d (by simp [hd])

theorem splitUsed_coalesced (htiled : h.Tiled (xs ++ b :: ys)) (hused : b.free = false) (hfits : aligned ≤ b.size)
    (haligned : 0 < aligned) (hxs : Parted xs) (hys : Parted ys)
    (hnext : blockHeaderBytes + alignment < b.size - aligned → ∀ y ∈ ys.head?, y.free = false) :
    (h.withMemory (splitBlock h.memory (h.arena + extent xs) aligned)).Coalesced := by
  obtain ⟨c, rem, hlaid, hcfree, hcsize, hextent, hrem, hone, -⟩ := splitBlock_laid htiled.laid htiled.fits hfits
  refine ⟨_, htiled.split hlaid hextent (Nat.lt_of_lt_of_le haligned hcsize) hrem, ?_⟩
  exact parted_split hxs hys (hcfree.trans hused) (hone.imp_right fun ⟨hover, r, hr⟩ => ⟨⟨r, hr⟩, hnext hover⟩)

theorem takeBlock_coalesced (htiled : h.Tiled (xs ++ b :: ys)) (hfree : b.free = true) (hfits : aligned ≤ b.size)
    (haligned : 0 < aligned) (hparted : Parted (xs ++ b :: ys)) :
    (h.withMemory (setBlockFree (splitBlock h.memory (h.arena + extent xs) aligned)
      (h.arena + extent xs) false)).Coalesced := by
  obtain ⟨hxs, hys, hapart⟩ := parted_middle.mp hparted
  obtain ⟨c, rem, hlaid, -, hcsize, hextent, hrem, hone, -⟩ := splitBlock_laid htiled.laid htiled.fits hfits
  obtain ⟨hlaid', -⟩ := setBlockFree_laid hlaid false
  refine ⟨_, htiled.split hlaid' hextent (Nat.lt_of_lt_of_le haligned hcsize) hrem, ?_⟩
  exact parted_split hxs hys rfl (hone.imp_right fun ⟨_, r, hr⟩ => ⟨⟨r, hr⟩, (hapart hfree).2⟩)

theorem alloc_coalesced (hc : h.Coalesced) (size : Nat) : (alloc h size).1.Coalesced := by
  obtain ⟨zs, htiled, hparted⟩ := hc
  rcases alloc_cases htiled size with ⟨errno, hfails⟩ | ⟨aligned, xs, b, ys, rfl, hfree, hpos, hle, hfits, hgives⟩
  · rw [hfails]
    exact ⟨zs, htiled, hparted⟩
  · rw [hgives]
    exact takeBlock_coalesced htiled hfree hfits (by omega) hparted

theorem free_coalesced (hc : h.Coalesced) (h' : h.Holds ((p, n) :: ps)) : (free h p).Coalesced := by
  obtain ⟨blocks, htiled, hps⟩ := h'
  obtain ⟨xs, b, ys, rfl, hb, hp, rfl⟩ := mem_payloads (hps.mem_iff.mpr mem_cons_self)
  obtain ⟨hxs, hys, -⟩ := parted_middle.mp (hc.parted htiled)
  obtain ⟨zs, memory, hfree, htiled', -, hparted, -⟩ := free_tiled htiled hp
  rw [hfree]
  exact ⟨zs, htiled', hparted hxs hys⟩

theorem moveBlock_coalesced (hc : h.Coalesced) (h' : h.Holds ((p, n) :: ps)) (oldSize newSize : Nat) :
    (moveBlock h p oldSize newSize).1.Coalesced := by
  have hnew := alloc_coalesced hc newSize
  have halloc := alloc_spec h' newSize
  unfold moveBlock
  generalize alloc h newSize = result at halloc hnew
  cases halloc with
  | fails errno => exact hc
  | @gives memory q k hpos hk hholds hkeeps =>
      have hp : (p, n) ∈ (q, k) :: (p, n) :: ps := by simp
      have hq : (q, k) ∈ (q, k) :: (p, n) :: ps := by simp
      have hsize : Ramfs.blockSize memory (payloadBlock p) = n := hholds.blockSize hp
      simp only [hsize]
      generalize hcopy : copy memory q p (min (min oldSize n) newSize) = memory'
      have houtside : ∀ i, i < q ∨ q + k ≤ i → memory' i = memory i := by
        intro i hi
        rw [← hcopy]
        exact copy_outside memory q p (by omega)
      obtain ⟨blocks, htiled, hps⟩ := hholds
      have hwritten := htiled.write (hps.mem_iff.mpr hq) houtside
      refine @free_coalesced _ p n ((q, k) :: ps) ⟨blocks, hwritten, hnew.parted htiled⟩
        ⟨blocks, hwritten, hps.trans (List.Perm.swap _ _ _)⟩

def Severs (h : Heap) (ptr newSize : Nat) : Prop :=
  ∃ aligned ∈ alignSize newSize,
    blockHeaderBytes + alignment < blockSize h.memory (payloadBlock ptr) - aligned ∧
    blockNext h.memory (payloadBlock ptr) ≠ 0 ∧
    blockFree h.memory (blockNext h.memory (payloadBlock ptr)) = true

instance (h : Heap) (ptr newSize : Nat) : Decidable (Severs h ptr newSize) :=
  inferInstanceAs (Decidable (∃ aligned ∈ alignSize newSize, _))

theorem Heap.Tiled.follows (htiled : h.Tiled (xs ++ b :: c :: ys))
    (hp : p = h.arena + extent xs + blockHeaderBytes) : blockNext h.memory (payloadBlock p) = p + b.size ∧
      header h.memory (p + b.size) = ⟨c.size, c.free, payloadBlock p, nextAddress 0 (p + b.size) c ys⟩ := by
  obtain ⟨-, hb, hc, -⟩ := laid_middle.mp htiled.laid
  have hblock : payloadBlock p = h.arena + extent xs := by
    rw [hp, payloadBlock, Nat.add_sub_cancel]
  have hnext : nextAddress 0 (h.arena + extent xs) b (c :: ys) =
      h.arena + extent xs + blockHeaderBytes + b.size := if_neg (cons_ne_nil c ys)
  rw [hblock, hp]
  exact ⟨(congrArg Header.next hb).trans hnext, hc⟩

theorem realloc_coalesced (hc : h.Coalesced) (h' : h.Holds ((p, n) :: ps)) (oldSize : Nat) {newSize : Nat}
    (hnew : 0 < newSize) (hkeeps : ¬Severs h p newSize) : (realloc h p oldSize newSize).1.Coalesced := by
  have hmove := moveBlock_coalesced hc h' oldSize newSize
  obtain ⟨blocks, htiled, hps⟩ := h'
  obtain ⟨xs, b, ys, rfl, hused, hp, rfl⟩ := mem_payloads (hps.mem_iff.mpr mem_cons_self)
  obtain ⟨hxs, hys, -⟩ := parted_middle.mp (hc.parted htiled)
  obtain ⟨hne, hin, hblock, hsize, hnext⟩ := htiled.payload hp (htiled.positive b (by simp))
  have hzero : newSize ≠ 0 := by omega
  rw [realloc, if_neg hzero, if_neg hne, hin]
  cases haligned : alignSize newSize with
  | none => exact hc
  | some aligned =>
      obtain ⟨hle, -, -⟩ := alignSize_some haligned
      simp only [hsize]
      split
      next hshrink =>
        rw [hblock]
        refine splitUsed_coalesced htiled hused hshrink (by omega) hxs hys fun hover y hy => ?_
        cases ys with
        | nil => cases hy
        | cons c ys =>
            obtain rfl := Option.some.inj hy
            obtain ⟨hfollow, hheader⟩ := htiled.follows hp
            by_contra hfree
            refine hkeeps ⟨aligned, haligned, by rwa [hsize], ?_, ?_⟩
            · rw [hfollow]
              unfold blockHeaderBytes at hp
              omega
            · rw [hfollow]
              exact (congrArg Header.free hheader).trans (Bool.not_eq_false _ ▸ hfree)
      next =>
        split
        next hgrow =>
          obtain ⟨hnextne, hnextfree, hroom⟩ := hgrow
          cases ys with
          | nil => exact absurd hnext hnextne
          | cons c ys =>
              obtain ⟨hfollow, hheader⟩ := htiled.follows hp
              rw [hfollow] at hnextfree hroom
              have hfree : c.free = true := (congrArg Header.free hheader).symm.trans hnextfree
              obtain ⟨htiled', -, -⟩ := mergeUsed_spec htiled hused hfree hp hps
              obtain ⟨-, hrest, hapart⟩ := (@parted_middle c [] ys).mp hys
              have hfits : aligned ≤ (joined b c).size := by
                have hcsize : Ramfs.blockSize h.memory (p + b.size) = c.size := congrArg Header.size hheader
                rw [hcsize] at hroom
                have := Nat.mod_le (b.size + blockHeaderBytes + c.size) (sizeMax + 1)
                simp only [joined]
                omega
              rw [hblock]
              exact splitUsed_coalesced htiled' hused hfits (by omega) hxs hrest fun _ => (hapart hfree).2
        next => exact hmove

theorem alloc_single (htiled : h.Tiled [⟨n, true⟩]) (size : Nat) :
    (alloc h size).2 = if size = 0 then .error .EINVAL else
      match alignSize size with
      | none => .error .ENOSPC
      | some aligned => if n < aligned then .error .ENOSPC else .ok (blockPayload h.arena) := by
  have hheader := htiled.laid.1
  have hfuel : ∃ fuel, h.arenaBytes = fuel + 1 := by
    rw [← htiled.total, extent_cons]
    exact ⟨15 + n + 0, by unfold blockHeaderBytes; simp; omega⟩
  obtain ⟨fuel, hfuel⟩ := hfuel
  have harena : h.arena ≠ 0 := Nat.pos_iff_ne_zero.mp htiled.arenaPos
  unfold alloc
  split
  · rfl
  next =>
    cases haligned : alignSize size with
    | none => rfl
    | some aligned =>
        have hfree : blockFree h.memory h.arena = true := congrArg Header.free hheader
        have hsize : blockSize h.memory h.arena = n := congrArg Header.size hheader
        have hlast : blockNext h.memory h.arena = 0 := congrArg Header.next hheader
        simp only [hfuel, htiled.start, allocLoop, if_neg harena, hfree, hsize, hlast, Bool.true_eq_false, false_or]
        by_cases hsmall : n < aligned
        · rw [if_pos hsmall, if_pos hsmall]
          cases fuel <;> rfl
        · rw [if_neg hsmall, if_neg hsmall]

theorem Heap.Tiled.single (htiled : h.Tiled blocks) (hparted : Parted blocks) (hnone : payloads h.arena blocks = [])
    (hroom : h.arenaBytes = blockHeaderBytes + n) : blocks = [⟨n, true⟩] := by
  have hfree : ∀ b ∈ blocks, b.free = true := by
    intro b hb
    by_contra hused
    obtain ⟨xs, ys, rfl⟩ := append_of_mem hb
    rw [payloads_append, payloads_cons_used (Bool.not_eq_true _ ▸ hused)] at hnone
    exact absurd hnone (by simp)
  have htotal := htiled.total
  cases blocks with
  | nil =>
      rw [extent_nil, hroom] at htotal
      unfold blockHeaderBytes at htotal
      omega
  | cons b rest =>
      cases rest with
      | nil =>
          have hb := hfree b mem_cons_self
          obtain ⟨size, free⟩ := b
          obtain rfl : free = true := hb
          rw [extent_cons, extent_nil, hroom] at htotal
          simp only at htotal
          have : size = n := by omega
          rw [this]
      | cons c rest =>
          obtain ⟨-, -, hapart⟩ := (@parted_middle b [] (c :: rest)).mp hparted
          have hused := (hapart (hfree b mem_cons_self)).2 c rfl
          exact nomatch (hfree c (by simp)).symm.trans hused

def Heap.Same (h h' : Heap) : Prop := ∃ memory, h' = h.withMemory memory

theorem Heap.Same.refl (h : Heap) : h.Same h := ⟨h.memory, rfl⟩

theorem Heap.Same.trans {h h' h'' : Heap} (first : h.Same h') (second : h'.Same h'') : h.Same h'' := by
  obtain ⟨memory, rfl⟩ := first
  obtain ⟨memory', rfl⟩ := second
  exact ⟨memory', rfl⟩

theorem alloc_same (h : Heap) (size : Nat) : h.Same (alloc h size).1 := by
  unfold alloc
  split
  · exact .refl h
  · split
    · exact .refl h
    · split
      · exact ⟨_, rfl⟩
      · exact .refl h

theorem free_same (h : Heap) (ptr : Nat) : h.Same (free h ptr) := by
  unfold free
  split
  · exact .refl h
  · split
    · exact .refl h
    · exact ⟨_, rfl⟩

theorem realloc_same (h : Heap) (ptr oldSize newSize : Nat) : h.Same (realloc h ptr oldSize newSize).1 := by
  have hmove : h.Same (moveBlock h ptr oldSize newSize).1 := by
    have hnew := alloc_same h newSize
    unfold moveBlock
    split
    next heap errno heq =>
      rw [heq] at hnew
      exact hnew
    next heap q heq =>
      rw [heq] at hnew
      have hcopied : heap.Same { heap with
          memory := copy heap.memory q ptr (min (min oldSize (blockSize heap.memory (payloadBlock ptr))) newSize) } :=
        ⟨_, rfl⟩
      exact (hnew.trans hcopied).trans (free_same _ ptr)
  unfold realloc
  split
  · exact free_same h ptr
  · split
    · exact alloc_same h newSize
    · split
      · dsimp only
        split
        · exact ⟨_, rfl⟩
        · split
          · exact ⟨_, rfl⟩
          · exact hmove
      · exact .refl h

namespace Session

def Whole (s : Session) (c : Call) : Prop :=
  s.Valid c ∧ match c with
    | .realloc ptr _ newSize => ptr ≠ 0 → newSize ≠ 0 → ¬Severs s.heap ptr newSize
    | _ => True

instance (s : Session) : ∀ c, Decidable (s.Whole c)
  | .alloc _ => inferInstanceAs (Decidable (_ ∧ True))
  | .free _ _ => inferInstanceAs (Decidable (_ ∧ True))
  | .realloc _ _ _ => inferInstanceAs (Decidable (_ ∧ (_ → _ → ¬_)))
  | .write _ _ _ => inferInstanceAs (Decidable (_ ∧ True))

theorem give_heap (live : List Live) (size : Nat) (result : Heap × Except Errno Nat) (rest : List Live) :
    (give live size result rest).heap = result.1 := by
  obtain ⟨heap, result⟩ := result
  cases result <;> rfl

theorem step_same (s : Session) (c : Call) : s.heap.Same (s.step c).heap := by
  cases c with
  | alloc size =>
      rw [step, give_heap]
      exact alloc_same s.heap size
  | free ptr size => exact free_same s.heap ptr
  | realloc ptr oldSize newSize =>
      rw [step, give_heap]
      exact realloc_same s.heap ptr oldSize newSize
  | write ptr i byte => exact ⟨_, rfl⟩

theorem Owns.coalesced {s : Session} {c : Call} (h : s.Owns) (hc : s.heap.Coalesced) (hwhole : s.Whole c) :
    (s.step c).heap.Coalesced := by
  obtain ⟨hvalid, hkeeps⟩ := hwhole
  have hfree (ptr size : Nat) (hvalid : s.Valid (.free ptr size)) : (Ramfs.free s.heap ptr).Coalesced := by
    by_cases hzero : ptr = 0
    · rw [Ramfs.free, if_pos hzero]
      exact hc
    · obtain ⟨n, rest, hholds, -⟩ := h.take (hvalid.resolve_left hzero)
      exact free_coalesced hc hholds
  cases c with
  | alloc size =>
      rw [step, give_heap]
      exact alloc_coalesced hc size
  | free ptr size => exact hfree ptr size hvalid
  | realloc ptr oldSize newSize =>
      rw [step, give_heap]
      by_cases hnew : newSize = 0
      · rw [Ramfs.realloc, if_pos hnew]
        exact hfree ptr oldSize hvalid
      · by_cases hzero : ptr = 0
        · rw [Ramfs.realloc, if_neg hnew, if_pos hzero]
          exact alloc_coalesced hc newSize
        · obtain ⟨n, rest, hholds, -⟩ := h.take (hvalid.resolve_left hzero)
          exact realloc_coalesced hc hholds oldSize (Nat.pos_of_ne_zero hnew) (hkeeps hzero hnew)
  | write ptr i byte =>
      obtain ⟨ps, hholds, hbacks⟩ := h
      obtain ⟨l, hl, rfl, hi⟩ := hvalid
      obtain ⟨n, hn, hle⟩ := mem_of_backs hbacks hl
      obtain ⟨blocks, htiled, hps⟩ := hholds
      refine ⟨blocks, htiled.write (hps.mem_iff.mpr hn) fun j hj => ?_, hc.parted htiled⟩
      exact store_outside _ _ (by simp only [length_singleton]; omega)

/-- What the merging of free blocks is for: the whole arena comes back. -/
structure Restored (fresh : Heap) (s : Session) : Prop where
  coalesced : s.heap.Coalesced
  whole : s.live = [] → s.heap.Tiled [⟨fresh.quotaBytes, true⟩]
  fits : s.live = [] → ∀ size, (Ramfs.alloc s.heap size).2 = (Ramfs.alloc fresh size).2

/-- On every mounted arena, after every sequence of calls on payloads held that shortens no
payload in front of a free block, the free blocks are merged, and the arena without a
payload is the fresh one again. -/
theorem coalesced_run (memory : Memory) (arena quota : Nat) (heap : Heap)
    (hmount : mountHeap memory arena quota = .ok heap) (hspace : arena + quota ≤ 2 ^ 32)
    (calls : List Call) (hwhole : Machine.Admits step Whole ⟨heap, []⟩ calls) :
    Restored heap (run ⟨heap, []⟩ calls) := by
  obtain ⟨htiled, hroom⟩ := mountHeap_tiled hmount hspace
  have hfresh : heap.Coalesced := ⟨_, htiled, by simp [Parted]⟩
  obtain ⟨howns, hcoalesced, hsame⟩ : (run ⟨heap, []⟩ calls).Owns ∧ (run ⟨heap, []⟩ calls).heap.Coalesced ∧
      heap.Same (run ⟨heap, []⟩ calls).heap :=
    Machine.run_induct (P := fun s => s.Owns ∧ s.heap.Coalesced ∧ heap.Same s.heap)
      (fun s c ⟨howns, hcoalesced, hsame⟩ hc =>
        ⟨(howns.call hc.1).1, howns.coalesced hcoalesced hc, hsame.trans (step_same s c)⟩)
      ⟨⟨[], mountHeap_spec hmount hspace, .nil⟩, hfresh, .refl heap⟩ hwhole
  have hone : (run ⟨heap, []⟩ calls).live = [] →
      (run ⟨heap, []⟩ calls).heap.Tiled [⟨heap.quotaBytes, true⟩] := by
    intro hlive
    obtain ⟨ps, ⟨blocks, htiled', hps'⟩, hbacks⟩ := howns
    rw [hlive] at hbacks
    obtain rfl := forall₂_nil_left_iff.mp hbacks
    have hblocks := htiled'.single (hcoalesced.parted htiled') hps'.eq_nil (n := heap.quotaBytes) (by
      obtain ⟨memory', hsame⟩ := hsame
      rw [hsame]
      exact hroom)
    exact hblocks ▸ htiled'
  refine ⟨hcoalesced, hone, fun hlive size => ?_⟩
  obtain ⟨memory', hsame⟩ := hsame
  rw [alloc_single (hone hlive), alloc_single htiled, hsame]

def shortenCalls : List Call := [.alloc 600, .alloc 20, .realloc 4112 600 300, .free 4728 20, .free 4112 300]

theorem coalesced_run_shortenCalls :
    (run ⟨sampleHeap, []⟩ shortenCalls).live = [] ∧ Restored sampleHeap (run ⟨sampleHeap, []⟩ shortenCalls) :=
  ⟨by decide,
    coalesced_run ⟨fun _ => 0⟩ 4096 1024 sampleHeap rfl (by decide) shortenCalls (by decide)⟩

def shortenLast : Session := run ⟨sampleHeap, []⟩ [.alloc 600, .realloc 4112 600 300]

/-- What is split off the last payload is not merged with the free rest of the arena; after
the payload is freed the arena is in two parts, and what fitted once does not fit any more. -/
theorem shortened_last_splits : ¬shortenLast.heap.Coalesced ∧ (shortenLast.step (.free 4112 300)).live = [] ∧
      ¬(shortenLast.step (.free 4112 300)).heap.Coalesced ∧ (Ramfs.alloc sampleHeap 1008).2 = .ok 4112 ∧
      (Ramfs.alloc (shortenLast.step (.free 4112 300)).heap 1008).2 = .error .ENOSPC := by
  have hlast : shortenLast.heap.Tiled [⟨300, false⟩, ⟨284, true⟩, ⟨392, true⟩] := by
    refine ⟨by decide, ⟨by decide, by decide, by decide, trivial⟩, ?_, ?_, ?_, ?_⟩ <;>
      decide
  have hfreed : (shortenLast.step (.free 4112 300)).heap.Tiled [⟨600, true⟩, ⟨392, true⟩] := by
    refine ⟨by decide, ⟨by decide, by decide, trivial⟩, ?_, ?_, ?_, ?_⟩ <;> decide
  refine ⟨fun hc => ?_, by decide, fun hc => ?_, by decide, by decide⟩
  · have hparted := hc.parted hlast
    simp [Parted] at hparted
  · have hparted := hc.parted hfreed
    simp [Parted] at hparted

end Session
end SolarOs.Ramfs
