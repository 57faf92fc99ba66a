import Mathlib.Data.List.Forall2
import SolarOs.Library.Machine
import SolarOs.Ramfs.Allocation

/-! Every sequence of allocator calls on a fresh arena: the blocks tile it, and the
payloads their callers hold keep their bytes. -/
namespace SolarOs.Ramfs
open ByteMemory List

/-- A payload its caller holds, with the size last requested for it. -/
structure Live where
  ptr : Nat
  size : Nat
  deriving DecidableEq, Repr

structure Session where
  heap : Heap
  live : List Live

/-- A call of the allocator, or a byte its caller writes into a payload held. -/
inductive Call where
  | alloc (size : Nat)
  | free (ptr size : Nat)
  | realloc (ptr oldSize newSize : Nat)
  | write (ptr i : Nat) (byte : UInt8)
  deriving DecidableEq, Repr

namespace Session
variable {s : Session} {c : Call} {calls : List Call} {ptr n : Nat}

/-- The payloads held without the one at `ptr`. -/
def without (s : Session) (ptr : Nat) : List Live := s.live.eraseP fun l => l.ptr = ptr

/-- The session after a call that gave a pointer, or `NULL`. -/
def give (live : List Live) (size : Nat) : Heap × Except Errno Nat → List Live → Session
  | (heap, .ok ptr), rest => ⟨heap, if ptr = 0 then rest else ⟨ptr, size⟩ :: rest⟩
  | (heap, .error _), _ => ⟨heap, live⟩

def step (s : Session) : Call → Session
  | .alloc size => give s.live size (alloc s.heap size) s.live
  | .free ptr _ => ⟨free s.heap ptr, s.without ptr⟩
  | .realloc ptr oldSize newSize =>
    give s.live newSize (realloc s.heap ptr oldSize newSize) (s.without ptr)
  | .write ptr i byte => { s with heap := { s.heap with memory := store s.heap.memory (ptr + i) [byte] } }

/-- What a call gives back: a pointer, `NULL` for an error, nothing for the rest. -/
def result (s : Session) : Call → Option Nat
  | .alloc size => some ((alloc s.heap size).2.toOption.getD 0)
  | .realloc ptr oldSize newSize => some ((realloc s.heap ptr oldSize newSize).2.toOption.getD 0)
  | _ => none

def Valid (s : Session) : Call → Prop
  | .alloc _ => True
  | .free ptr _ => ptr = 0 ∨ ∃ l ∈ s.live, l.ptr = ptr
  | .realloc ptr _ _ => ptr = 0 ∨ ∃ l ∈ s.live, l.ptr = ptr
  | .write ptr i _ => ∃ l ∈ s.live, l.ptr = ptr ∧ i < l.size

instance (s : Session) : ∀ c, Decidable (s.Valid c)
  | .alloc _ => .isTrue trivial
  | .free _ _ => inferInstanceAs (Decidable (_ ∨ _))
  | .realloc _ _ _ => inferInstanceAs (Decidable (_ ∨ _))
  | .write _ _ _ => inferInstanceAs (Decidable (∃ l ∈ _, _))

section
variable (s : Session)

abbrev run (calls : List Call) : Session := Machine.run step s calls

def subject : Call → Option Nat
  | .alloc _ => none
  | .free ptr _ => some ptr
  | .realloc ptr _ _ => some ptr
  | .write ptr _ _ => some ptr

def payloadSize (ptr : Nat) : Nat := blockSize s.heap.memory (payloadBlock ptr)

structure Safe : Prop where
  tiled : ∃ blocks, s.heap.Tiled blocks ∧
    ((payloads s.heap.arena blocks).map Prod.fst).Perm (s.live.map Live.ptr)
  apart : s.live.Pairwise fun l l' =>
    l.ptr + s.payloadSize l.ptr ≤ l'.ptr ∨ l'.ptr + s.payloadSize l'.ptr ≤ l.ptr
  large : ∀ l ∈ s.live, l.size ≤ s.payloadSize l.ptr

structure SafeCall (c : Call) : Prop where
  others : ∀ l ∈ s.live, subject c ≠ some l.ptr → ∀ i < s.payloadSize l.ptr,
    (s.step c).heap.memory (l.ptr + i) = s.heap.memory (l.ptr + i)
  moved : ∀ ptr oldSize newSize q, c = .realloc ptr oldSize newSize → ptr ≠ 0 →
    s.result c = some q → q ≠ 0 → ∀ i < min (min oldSize (s.payloadSize ptr)) newSize,
      (s.step c).heap.memory (q + i) = s.heap.memory (ptr + i)
  refused : s.result c = some 0 → (∀ ptr oldSize, c ≠ .realloc ptr oldSize 0) →
    (s.step c).heap = s.heap

def Backs (l : Live) (q : Nat × Nat) : Prop := l.ptr = q.1 ∧ l.size ≤ q.2

def Owns : Prop := ∃ ps, s.heap.Holds ps ∧ List.Forall₂ Backs s.live ps

end

variable {ps : List (Nat × Nat)}

theorem mem_of_backs {live : List Live} (h : List.Forall₂ Backs live ps) {l : Live} (hl : l ∈ live) :
    ∃ n, (l.ptr, n) ∈ ps ∧ l.size ≤ n := by
  induction h with
  | nil => cases hl
  | @cons l' q live ps hq _ ih =>
      rcases mem_cons.mp hl with rfl | hl
      · exact ⟨q.2, by rw [hq.1]; exact mem_cons_self, hq.2⟩
      · obtain ⟨n, hn, hsize⟩ := ih hl
        exact ⟨n, mem_cons_of_mem _ hn, hsize⟩

theorem pointers_of_backs {live : List Live} (h : List.Forall₂ Backs live ps) :
    live.map Live.ptr = ps.map Prod.fst := by
  induction h with
  | nil => rfl
  | cons hq _ ih => rw [map_cons, map_cons, hq.1, ih]

theorem Owns.safe (h : s.Owns) : s.Safe := by
  obtain ⟨ps, hholds, hbacks⟩ := h
  have hsize : ∀ q ∈ ps, s.payloadSize q.1 = q.2 := fun q hq => hholds.blockSize hq
  refine ⟨?_, ?_, ?_⟩
  · obtain ⟨blocks, htiled, hps⟩ := hholds
    refine ⟨blocks, htiled, ?_⟩
    rw [pointers_of_backs hbacks]
    exact hps.map Prod.fst
  · have hmap : (s.live.map Live.ptr).Pairwise fun p q =>
        p + s.payloadSize p ≤ q ∨ q + s.payloadSize q ≤ p := by
      rw [pointers_of_backs hbacks, pairwise_map]
      refine hholds.disjoint.imp_of_mem fun {p q} hp hq hpq => ?_
      rw [hsize p hp, hsize q hq]
      exact hpq
    rwa [pairwise_map] at hmap
  · intro l hl
    obtain ⟨n, hn, hle⟩ := mem_of_backs hbacks hl
    rw [hsize _ hn]
    exact hle

theorem backs_take {live : List Live} (h : List.Forall₂ Backs live ps) (hheld : ∃ l ∈ live, l.ptr = ptr) :
    ∃ n rest, ps.Perm ((ptr, n) :: rest) ∧
      List.Forall₂ Backs (live.eraseP fun l => l.ptr = ptr) rest := by
  induction h with
  | nil => simp at hheld
  | @cons l q live ps hq hrest ih =>
      by_cases hl : l.ptr = ptr
      · refine ⟨q.2, ps, ?_, ?_⟩
        · rw [← hl, hq.1]
        · rw [eraseP_cons_of_pos (by simpa using hl)]
          exact hrest
      · have hheld' : ∃ l ∈ live, l.ptr = ptr := by
          obtain ⟨l', hl', hptr⟩ := hheld
          rcases mem_cons.mp hl' with rfl | hmem
          · exact absurd hptr hl
          · exact ⟨l', hmem, hptr⟩
        obtain ⟨n, rest, hperm, hbacks⟩ := ih hheld'
        refine ⟨n, q :: rest, (hperm.cons q).trans (List.Perm.swap _ _ _), ?_⟩
        rw [eraseP_cons_of_neg (by simpa using hl)]
        exact .cons hq hbacks

theorem Owns.take (h : s.Owns) (hheld : ∃ l ∈ s.live, l.ptr = ptr) :
    ∃ n rest, s.heap.Holds ((ptr, n) :: rest) ∧ List.Forall₂ Backs (s.without ptr) rest ∧
      s.payloadSize ptr = n ∧
      ∀ l ∈ s.live, l.ptr ≠ ptr → (l.ptr, s.payloadSize l.ptr) ∈ rest := by
  obtain ⟨ps, hholds, hbacks⟩ := h
  obtain ⟨n, rest, hperm, hrest⟩ := backs_take hbacks hheld
  have hholds' := hholds.perm hperm
  refine ⟨n, rest, hholds', hrest, hholds'.blockSize mem_cons_self, fun l hl hne => ?_⟩
  obtain ⟨k, hk, -⟩ := mem_of_backs hbacks hl
  rw [payloadSize, hholds.blockSize hk]
  rcases mem_cons.mp (hperm.subset hk) with heq | hmem
  · exact absurd (Prod.mk.inj heq).1 hne
  · exact hmem

theorem ptr_ne_zero {heap : Heap} (h : heap.Holds ps) {p k : Nat} (hp : (p, k) ∈ ps) : p ≠ 0 := by
  have := h.bounds hp
  unfold blockHeaderBytes at this
  omega

section
variable (h : s.Owns)
include h

theorem Owns.alloc (size : Nat) : (s.step (.alloc size)).Owns ∧ SafeCall s (.alloc size) := by
  obtain ⟨ps, hholds, hbacks⟩ := h
  have hspec := alloc_spec hholds size
  generalize hresult : Ramfs.alloc s.heap size = result at hspec
  cases hspec with
  | fails errno =>
      have hstep : s.step (.alloc size) = s := by
        rw [step, hresult]
        rfl
      rw [hstep]
      exact ⟨⟨ps, hholds, hbacks⟩, fun _ _ _ _ _ => by rw [hstep], nofun, fun _ _ => by rw [hstep]⟩
  | @gives memory p n _ hn hholds' hkeeps =>
      have hp : p ≠ 0 := ptr_ne_zero hholds' mem_cons_self
      have hstep : s.step (.alloc size) = ⟨s.heap.withMemory memory, ⟨p, size⟩ :: s.live⟩ := by
        rw [step, hresult, give, if_neg hp]
      refine ⟨?_, fun l hl _ i hi => ?_, nofun, fun hnull _ => ?_⟩
      · rw [hstep]
        exact ⟨(p, n) :: ps, hholds', .cons ⟨rfl, hn⟩ hbacks⟩
      · obtain ⟨k, hk, -⟩ := mem_of_backs hbacks hl
        rw [payloadSize, hholds.blockSize hk] at hi
        rw [hstep]
        exact hkeeps _ _ hk i hi
      · rw [Session.result, hresult] at hnull
        exact absurd (Option.some.inj hnull) hp

theorem Owns.without_zero : s.without 0 = s.live := by
  obtain ⟨ps, hholds, hbacks⟩ := h
  refine eraseP_of_forall_not fun l hl => ?_
  obtain ⟨n, hn, -⟩ := mem_of_backs hbacks hl
  simpa using ptr_ne_zero hholds hn

theorem Owns.free {size : Nat} (hvalid : s.Valid (.free ptr size)) :
    (s.step (.free ptr size)).Owns ∧ SafeCall s (.free ptr size) := by
  by_cases hzero : ptr = 0
  · have hstep : s.step (.free ptr size) = s := by
      rw [step, hzero, h.without_zero, Ramfs.free, if_pos rfl]
    rw [hstep]
    exact ⟨h, fun _ _ _ _ _ => by rw [hstep], nofun, nofun⟩
  · obtain ⟨n, rest, hholds, hbacks, -, hothers⟩ := h.take (hvalid.resolve_left hzero)
    obtain ⟨memory, hfree, hholds', hkeeps⟩ := free_spec hholds
    have hstep : s.step (.free ptr size) = ⟨s.heap.withMemory memory, s.without ptr⟩ := by
      rw [step, hfree]
    refine ⟨?_, fun l hl hsubject i hi => ?_, nofun, nofun⟩
    · rw [hstep]
      exact ⟨rest, hholds', hbacks⟩
    · have hne : l.ptr ≠ ptr := fun heq => hsubject (by rw [subject, heq])
      rw [hstep]
      exact hkeeps _ _ (hothers l hl hne) i hi

theorem Owns.write {i : Nat} {byte : UInt8} (hvalid : s.Valid (.write ptr i byte)) :
    (s.step (.write ptr i byte)).Owns ∧ SafeCall s (.write ptr i byte) := by
  obtain ⟨ps, hholds, hbacks⟩ := h
  obtain ⟨l, hl, rfl, hi⟩ := hvalid
  obtain ⟨n, hn, hle⟩ := mem_of_backs hbacks hl
  have houtside : ∀ j, j < l.ptr ∨ l.ptr + n ≤ j →
      store s.heap.memory (l.ptr + i) [byte] j = s.heap.memory j := by
    intro j hj
    exact store_outside _ _ (by simp only [length_singleton]; omega)
  obtain ⟨hholds', hothers⟩ := hholds.write hn houtside
  refine ⟨⟨ps, hholds', hbacks⟩, fun l' hl' hsubject j hj => ?_, nofun, nofun⟩
  obtain ⟨k, hk, -⟩ := mem_of_backs hbacks hl'
  have hne : l'.ptr ≠ l.ptr := fun heq => hsubject (by rw [subject, heq])
  rw [payloadSize, hholds.blockSize hk] at hj
  exact hothers _ _ hk hne j hj

theorem Owns.realloc {oldSize newSize : Nat} (hvalid : s.Valid (.realloc ptr oldSize newSize)) :
    (s.step (.realloc ptr oldSize newSize)).Owns ∧ SafeCall s (.realloc ptr oldSize newSize) := by
  by_cases hnew : newSize = 0
  · -- the call frees the payload
    obtain ⟨howns, hcall⟩ := h.free (show s.Valid (.free ptr 0) from hvalid)
    have hresult : Ramfs.realloc s.heap ptr oldSize newSize = (Ramfs.free s.heap ptr, .ok 0) := by
      rw [Ramfs.realloc, if_pos hnew]
    have hstep : s.step (.realloc ptr oldSize newSize) = s.step (.free ptr 0) := by
      simp only [step, hresult, give, if_true]
    rw [hstep]
    refine ⟨howns, fun l hl hsubject i hi => ?_, ?_, ?_⟩
    · rw [hstep]
      exact hcall.others l hl hsubject i hi
    · rintro p o z q heq - hq hne
      obtain ⟨rfl, rfl, rfl⟩ := Call.realloc.inj heq
      rw [result, hresult] at hq
      exact absurd (Option.some.inj hq).symm hne
    · exact fun _ hne => absurd (by rw [hnew]) (hne ptr oldSize)
  · by_cases hzero : ptr = 0
    · -- the call allocates
      obtain ⟨howns, hcall⟩ := h.alloc newSize
      have hresult : Ramfs.realloc s.heap ptr oldSize newSize = Ramfs.alloc s.heap newSize := by
        rw [Ramfs.realloc, if_neg hnew, if_pos hzero]
      have hstep : s.step (.realloc ptr oldSize newSize) = s.step (.alloc newSize) := by
        simp only [step, hresult]
        rw [hzero, h.without_zero]
      rw [hstep]
      refine ⟨howns, fun l hl _ i hi => ?_, ?_, fun hnull _ => ?_⟩
      · rw [hstep]
        exact hcall.others l hl (by rintro ⟨⟩) i hi
      · rintro p o z q heq hp
        obtain ⟨rfl, rfl, rfl⟩ := Call.realloc.inj heq
        exact absurd hzero hp
      · rw [hstep]
        refine hcall.refused ?_ (by simp)
        rw [result, ← hresult]
        exact hnull
    · obtain ⟨n, rest, hholds, hbacks, hsize, hothers⟩ := h.take (hvalid.resolve_left hzero)
      have hspec := realloc_spec hholds oldSize (Nat.pos_of_ne_zero hnew)
      generalize hresult : Ramfs.realloc s.heap ptr oldSize newSize = result at hspec
      cases hspec with
      | fails errno =>
          have hstep : s.step (.realloc ptr oldSize newSize) = s := by
            rw [step, hresult]
            rfl
          rw [hstep]
          refine ⟨h, fun _ _ _ _ _ => by rw [hstep], ?_, fun _ _ => by rw [hstep]⟩
          rintro p o z q heq - hq hne
          obtain ⟨rfl, rfl, rfl⟩ := Call.realloc.inj heq
          rw [Session.result, hresult] at hq
          exact absurd (Option.some.inj hq).symm hne
      | @gives memory q k hk hholds' hkeeps hmoved =>
          have hq : q ≠ 0 := ptr_ne_zero hholds' mem_cons_self
          have hstep : s.step (.realloc ptr oldSize newSize) =
              ⟨s.heap.withMemory memory, ⟨q, newSize⟩ :: s.without ptr⟩ := by
            rw [step, hresult, give, if_neg hq]
          refine ⟨?_, fun l hl hsubject i hi => ?_, ?_, fun hnull _ => ?_⟩
          · rw [hstep]
            exact ⟨(q, k) :: rest, hholds', .cons ⟨rfl, hk⟩ hbacks⟩
          · have hne : l.ptr ≠ ptr := fun heq => hsubject (by rw [subject, heq])
            rw [hstep]
            exact hkeeps _ _ (hothers l hl hne) i hi
          · rintro p o z q' heq - hq' - i hi
            obtain ⟨rfl, rfl, rfl⟩ := Call.realloc.inj heq
            rw [Session.result, hresult] at hq'
            obtain rfl : q = q' := Option.some.inj hq'
            rw [hstep]
            rw [hsize] at hi
            exact hmoved i hi
          · rw [Session.result, hresult] at hnull
            exact absurd (Option.some.inj hnull) hq

theorem Owns.call (hvalid : s.Valid c) : (s.step c).Owns ∧ SafeCall s c := by
  cases c with
  | alloc size => exact h.alloc size
  | free ptr size => exact h.free hvalid
  | realloc ptr oldSize newSize => exact h.realloc hvalid
  | write ptr i byte => exact h.write hvalid

theorem owns_run (hvalid : Machine.Admits step Valid s calls) : (s.run calls).Owns :=
  Machine.run_induct (fun _ _ hs hc => (hs.call hc).1) h hvalid

end

/-- On every mounted arena, after every sequence of calls on payloads held, the blocks
tile the arena and back the payloads held, and one more call is safe. -/
theorem arena_safe (memory : Memory) (arena quota : Nat) (heap : Heap)
    (hmount : mountHeap memory arena quota = .ok heap) (hspace : arena + quota ≤ 2 ^ 32)
    (calls : List Call) (hvalid : Machine.Admits step Valid ⟨heap, []⟩ calls) : Safe (run ⟨heap, []⟩ calls) ∧
      ∀ c, (run ⟨heap, []⟩ calls).Valid c → SafeCall (run ⟨heap, []⟩ calls) c := by
  have hstart : Owns ⟨heap, []⟩ := ⟨[], mountHeap_spec hmount hspace, .nil⟩
  have howns := owns_run hstart hvalid
  exact ⟨howns.safe, fun c hc => (howns.call hc).2⟩

/-- The arena of a mount of 1024 bytes at address 4096. -/
def sampleHeap : Heap where
  quotaBytes := 1008
  arenaBytes := 1024
  arena := 4096
  blocks := 4096
  memory := setBlockNext (setBlockPrev (setBlockFree (setBlockSize ⟨fun _ => 0⟩ 4096 1008) 4096 true)
    4096 0) 4096 0

def growCalls : List Call :=
  [.alloc 10, .alloc 20, .write 4140 19 7, .alloc 30, .free 4112 10, .realloc 4140 20 100]

theorem arena_safe_growCalls : (run ⟨sampleHeap, []⟩ growCalls).live = [⟨4224, 100⟩, ⟨4176, 30⟩] ∧
      Safe (run ⟨sampleHeap, []⟩ growCalls) :=
  ⟨by decide, (arena_safe ⟨fun _ => 0⟩ 4096 1024 sampleHeap rfl (by decide) growCalls
    (by decide)).1⟩

end Session
end SolarOs.Ramfs
