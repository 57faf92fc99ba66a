import SolarOs.LinkRepeater.Model

/-! Where the pending relays come from: each holds the frame of one queued
observation, and every frame handed out is one of them. -/
namespace SolarOs.LinkRepeater
open WrapClock Function

def observedEntry (time : Nat) (message : Link.Message) (frame : List UInt8) (randomValue : UInt32)
    (result : ObserveResult) : Entry :=
  ⟨⟨time, .observe message frame randomValue⟩, .observed result⟩

def takenEntry (time : Nat) (frame : Option (List UInt8)) : Entry :=
  ⟨⟨time, .takeDue⟩, .taken frame⟩

variable {log : Log} {source : Nat → Nat} {origin : Fin pendingMax → Nat}

theorem log_snoc {e f : Entry} {j : Nat} : (log ++ [e])[j]? = some f ↔ log[j]? = some f ∨ (j = log.length ∧ e = f) := by
  rcases lt_trichotomy j log.length with hj | rfl | hj
  · rw [List.getElem?_append_left hj]
    constructor
    · exact .inl
    · rintro (h | ⟨rfl, -⟩)
      · exact h
      · omega
  · simp
  · rw [List.getElem?_eq_none (by simp; omega), List.getElem?_eq_none (by omega)]
    constructor
    · intro h
      cases h
    · rintro (h | ⟨rfl, -⟩)
      · cases h
      · omega

theorem index_lt {j : Nat} {e : Entry} (h : log[j]? = some e) : j < log.length :=
  (List.getElem?_eq_some_iff.mp h).1

/-- The entry at position `j` queued this relay, to be sent 80 to 200 milliseconds later. -/
def QueuedAt (log : Log) (j : Nat) (p : Pending) : Prop :=
  ∃ q message randomValue delay, log[j]? = some q ∧ q.call = .observe message p.frame randomValue ∧
    q.outcome = .observed .queued ∧ 80 ≤ delay ∧ delay ≤ 200 ∧ p.dueMs = reading (q.time + delay)

/-- Each active relay was queued at its own position, and none of these positions
has been handed out yet. -/
structure PendingInv (pending : Fin pendingMax → Pending) (origin : Fin pendingMax → Nat)
    (log : Log) (source : Nat → Nat) : Prop where
  queued : ∀ i, (pending i).active = true → QueuedAt log (origin i) (pending i)
  distinct : ∀ i j, (pending i).active = true → (pending j).active = true → origin i = origin j → i = j
  taken : TakenFrom log source
  unused : ∀ i, (pending i).active = true → ∀ j e frame, log[j]? = some e →
    e.outcome = .taken (some frame) → source j ≠ origin i

theorem QueuedAt.snoc {j : Nat} {p : Pending} (h : QueuedAt log j p) (e : Entry) : QueuedAt (log ++ [e]) j p := by
  obtain ⟨q, message, randomValue, delay, hq, hrest⟩ := h
  exact ⟨q, message, randomValue, delay, log_snoc.mpr (.inl hq), hrest⟩

theorem QueuedAt.lt {j : Nat} {p : Pending} (h : QueuedAt log j p) : j < log.length := by
  obtain ⟨q, -, -, -, hq, -⟩ := h
  exact index_lt hq

theorem TakenFrom.snoc {e : Entry} (h : TakenFrom log source) (he : ∀ frame, e.outcome ≠ .taken (some frame)) :
    TakenFrom (log ++ [e]) source := by
  constructor
  · intro j f frame hj hf
    rcases log_snoc.mp hj with hold | ⟨-, rfl⟩
    · obtain ⟨hlt, q, message, randomValue, hq, hrest⟩ := h.frame j f frame hold hf
      exact ⟨hlt, q, message, randomValue, log_snoc.mpr (.inl hq), hrest⟩
    · exact absurd hf (he frame)
  · intro j k f g frame frame' hj hk hf hg hjk
    rcases log_snoc.mp hj with hj | ⟨-, rfl⟩
    · rcases log_snoc.mp hk with hk | ⟨-, rfl⟩
      · exact h.once j k f g frame frame' hj hk hf hg hjk
      · exact absurd hg (he frame')
    · exact absurd hf (he frame)

theorem PendingInv.shrink {pending pending' : Fin pendingMax → Pending} (h : PendingInv pending origin log source)
    (hs : Shrinks pending' pending) : PendingInv pending' origin log source := by
  have hact : ∀ i, (pending' i).active = true → (pending i).active = true := by
    intro i hi
    rw [← hs i hi]
    exact hi
  refine ⟨?_, ?_, h.taken, ?_⟩
  · intro i hi
    rw [hs i hi]
    exact h.queued i (hact i hi)
  · intro i j hi hj
    exact h.distinct i j (hact i hi) (hact j hj)
  · intro i hi
    exact h.unused i (hact i hi)

theorem PendingInv.snoc {pending : Fin pendingMax → Pending} {e : Entry} (h : PendingInv pending origin log source)
    (he : ∀ frame, e.outcome ≠ .taken (some frame)) : PendingInv pending origin (log ++ [e]) source := by
  refine ⟨fun i hi => (h.queued i hi).snoc e, h.distinct, h.taken.snoc he, ?_⟩
  intro i hi j f frame hj hf
  rcases log_snoc.mp hj with hold | ⟨-, rfl⟩
  · exact h.unused i hi j f frame hold hf
  · exact absurd hf (he frame)

theorem enqueue_delay (randomValue : UInt32) : ∃ delay, 80 ≤ delay ∧ delay ≤ 200 ∧
      delayMinMs + randomValue % (delayJitterMs + 1) = reading delay := by
  refine ⟨80 + randomValue.toNat % 121, by omega, by omega, ?_⟩
  apply UInt32.toNat_inj.mp
  simp only [delayMinMs, delayJitterMs, reading, UInt32.toNat_add, UInt32.toNat_mod, UInt32.toNat_ofNat']
  rfl

/-- Queueing a frame in a free slot keeps the invariant: its origin is the new entry. -/
theorem PendingInv.enqueue {r : Repeater} (h : PendingInv r.pending origin log source) {i : Fin pendingMax}
    (x : Identity) (time : Nat) (message : Link.Message) (frame : List UInt8) (randomValue : UInt32) :
    PendingInv (enqueue r i x frame (reading time) randomValue).pending
      (update origin i log.length)
      (log ++ [observedEntry time message frame randomValue .queued]) source := by
  have hnot : ∀ f, (observedEntry time message frame randomValue .queued).outcome ≠
      .taken (some f) := by
    intro f hf
    cases hf
  have hother : ∀ j, j ≠ i →
      (LinkRepeater.enqueue r i x frame (reading time) randomValue).pending j = r.pending j := by
    intro j hj
    exact update_of_ne hj _ _
  obtain ⟨delay, hlow, hhigh, hdelay⟩ := enqueue_delay randomValue
  have hself : (LinkRepeater.enqueue r i x frame (reading time) randomValue).pending i =
      { identity := x, frame, dueMs := reading (time + delay), active := true } := by
    simp only [LinkRepeater.enqueue, update_self, hdelay, reading_add]
  refine ⟨?_, ?_, h.taken.snoc hnot, ?_⟩
  · intro j hj
    by_cases hji : j = i
    · subst hji
      rw [hself, update_self]
      exact ⟨_, message, randomValue, delay, log_snoc.mpr (.inr ⟨rfl, rfl⟩), rfl, rfl, hlow, hhigh, rfl⟩
    · rw [hother j hji] at hj ⊢
      rw [update_of_ne hji]
      exact (h.queued j hj).snoc _
  · intro j k hj hk hjk
    by_cases hji : j = i <;> by_cases hki : k = i
    · rw [hji, hki]
    · rw [hother k hki] at hk
      rw [hji, update_self, update_of_ne hki] at hjk
      exact absurd (h.queued k hk).lt (by omega)
    · rw [hother j hji] at hj
      rw [hki, update_self, update_of_ne hji] at hjk
      exact absurd (h.queued j hj).lt (by omega)
    · rw [hother j hji] at hj
      rw [hother k hki] at hk
      rw [update_of_ne hji, update_of_ne hki] at hjk
      exact h.distinct j k hj hk hjk
  · intro j hj k f g hk hg
    rcases log_snoc.mp hk with hold | ⟨-, rfl⟩
    · by_cases hji : j = i
      · subst hji
        rw [update_self]
        have hlt := (h.taken.frame k f g hold hg).1
        have hk := index_lt hold
        omega
      · rw [hother j hji] at hj
        rw [update_of_ne hji]
        exact h.unused j hj k f g hold hg
    · exact absurd hg (hnot g)

/-- Handing out a due relay keeps the invariant: the hand-out comes from its origin. -/
theorem PendingInv.take {r : Repeater} (h : PendingInv r.pending origin log source) {i : Fin pendingMax}
    {time : Nat} (hact : (r.pending i).active = true) (hdue : reached (reading time) (r.pending i).dueMs = true)
    (hclock : ∀ e ∈ log, e.time ≤ time) : PendingInv (update r.pending i { r.pending i with active := false }) origin
      (log ++ [takenEntry time (some (r.pending i).frame)])
      (update source log.length (origin i)) := by
  have hs := shrinks_deactivate r.pending i
  have hold : ∀ j, j < log.length → update source log.length (origin i) j = source j := by
    intro j hj
    exact update_of_ne (by omega) _ _
  have hstill : ∀ j, (update r.pending i { r.pending i with active := false } j).active = true →
      j ≠ i ∧ (r.pending j).active = true := by
    intro j hj
    refine ⟨?_, by rw [← hs j hj]; exact hj⟩
    rintro rfl
    rw [update_self] at hj
    cases hj
  refine ⟨?_, ?_, ⟨?_, ?_⟩, ?_⟩
  · intro j hj
    rw [hs j hj]
    exact (h.queued j (hstill j hj).2).snoc _
  · intro j k hj hk
    exact h.distinct j k (hstill j hj).2 (hstill k hk).2
  · intro j e frame hj he
    rcases log_snoc.mp hj with hj | ⟨rfl, rfl⟩
    · rw [hold j (index_lt hj)]
      obtain ⟨hlt, q, message, randomValue, hq, hrest⟩ := h.taken.frame j e frame hj he
      exact ⟨hlt, q, message, randomValue, log_snoc.mpr (.inl hq), hrest⟩
    · rw [update_self]
      obtain ⟨q, message, randomValue, delay, hq, hcall, hout, hlow, hhigh, hdueMs⟩ := h.queued i hact
      obtain rfl : (r.pending i).frame = frame := Option.some.inj (Outcome.taken.inj he)
      refine ⟨index_lt hq, q, message, randomValue, log_snoc.mpr (.inl hq), hcall, hout, ?_⟩
      have hqt := hclock q (List.mem_of_getElem? hq)
      by_contra hearly
      change ¬ q.time + 80 ≤ time at hearly
      rw [hdueMs, reached_of_lt (by omega) (by omega)] at hdue
      cases hdue
  · intro j k e f frame frame' hj hk he hf hjk
    rcases log_snoc.mp hj with hj | ⟨rfl, rfl⟩ <;> rcases log_snoc.mp hk with hk | ⟨rfl, rfl⟩
    · rw [hold j (index_lt hj), hold k (index_lt hk)] at hjk
      exact h.taken.once j k e f frame frame' hj hk he hf hjk
    · rw [hold j (index_lt hj), update_self] at hjk
      exact absurd hjk (h.unused i hact j e frame hj he)
    · rw [hold k (index_lt hk), update_self] at hjk
      exact absurd hjk.symm (h.unused i hact k f frame' hk hf)
    · rfl
  · intro j hj k e frame hk he
    obtain ⟨hji, hact'⟩ := hstill j hj
    rcases log_snoc.mp hk with hk | ⟨rfl, rfl⟩
    · rw [hold k (index_lt hk)]
      exact h.unused j hact' k e frame hk he
    · rw [update_self]
      intro heq
      exact hji (h.distinct j i hact' hact heq.symm)

end SolarOs.LinkRepeater
