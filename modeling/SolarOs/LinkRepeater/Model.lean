import Mathlib.Data.Finset.Card
import Mathlib.Data.Fintype.Basic
import Mathlib.Data.List.Chain
import Mathlib.Logic.Function.Basic
import SolarOs.Library.Wrapping
import SolarOs.Link.Frame

/-! The one-hop Link repeater, its duplicate cache and its delayed relay queue, and runs of it: the
calls made at absolute times, the 32-bit clock reading each call passes, and the log of their answers. -/
namespace SolarOs.LinkRepeater
open WrapClock Function

def pendingMax : Nat := 4
def cacheMax : Nat := 16
def delayMinMs : UInt32 := 80
def delayJitterMs : UInt32 := 120
def cacheTtlMs : UInt32 := 60000

structure Identity where
  source : UInt32
  destination : UInt32
  sequence : UInt16
  type : UInt8
  deriving DecidableEq, Repr, Inhabited

structure Pending where
  identity : Identity
  frame : List UInt8
  dueMs : UInt32
  active : Bool
  deriving DecidableEq, Repr, Inhabited

structure CacheEntry where
  identity : Identity
  expiresMs : UInt32
  active : Bool
  deriving DecidableEq, Repr, Inhabited

/-- `solar_os_link_repeater_t`. Only `cacheNext % 16` is ever used, so the wrap of
the `size_t` counter does not show. -/
structure Repeater where
  localId : UInt32
  pending : Fin pendingMax → Pending
  cache : Fin cacheMax → CacheEntry
  cacheNext : Nat
  repeated : UInt32
  suppressed : UInt32
  queueDrops : UInt32
  invalidFrames : UInt32

inductive ObserveResult where
  | ignored
  | queued
  | suppressed
  | dropped
  deriving DecidableEq, Repr

def repeaterTimeReached (nowMs deadlineMs : UInt32) : Bool := reached nowMs deadlineMs

def repeaterIdentity (message : Link.Message) : Identity where
  source := message.source
  destination := message.destination
  sequence := message.sequence
  type := message.type.toByte

section
variable (r : Repeater)

def repeaterCachePrune (nowMs : UInt32) : Repeater :=
  { r with
    cache := fun i =>
      if (r.cache i).active && repeaterTimeReached nowMs (r.cache i).expiresMs then
        { r.cache i with active := false }
      else r.cache i }

section
variable (identity : Identity)

def cacheFind : Option (Fin cacheMax) :=
  (List.finRange cacheMax).find? fun i => (r.cache i).active && (r.cache i).identity = identity

def repeaterCacheContains : Bool :=
  (cacheFind r identity).isSome

def cacheFirstFree : Option (Fin cacheMax) :=
  (List.finRange cacheMax).find? fun i => !(r.cache i).active

/-- The slot `repeater_cache_remember` writes: the identity's own, else the first
free one, else the next in rotation. -/
def cacheSelect : Fin cacheMax :=
  ((cacheFind r identity).or (cacheFirstFree r)).getD
    ⟨r.cacheNext % cacheMax, Nat.mod_lt _ (by decide)⟩

def repeaterCacheRemember (nowMs : UInt32) : Repeater :=
  { r with
    cache := update r.cache (cacheSelect r identity)
      { identity, expiresMs := nowMs + cacheTtlMs, active := true }
    cacheNext :=
      if ((cacheFind r identity).or (cacheFirstFree r)).isSome then r.cacheNext
      else r.cacheNext + 1 }

def cancelFirst (condition : Pending → Bool) : Repeater × Bool :=
  match (List.finRange pendingMax).find? fun i => (r.pending i).active && condition (r.pending i) with
  | some i => ({ r with pending := update r.pending i { r.pending i with active := false } }, true)
  | none => (r, false)

def repeaterCancelIdentity : Repeater × Bool :=
  cancelFirst r fun p => p.identity = identity

end

variable (message : Link.Message)

def repeaterCancelAcknowledged : Repeater × Bool :=
  if message.type = .acknowledgement then
    cancelFirst r fun p =>
      (p.identity.type = Link.MessageType.text.toByte ||
        p.identity.type = Link.MessageType.binary.toByte) &&
      p.identity.source = message.destination && p.identity.destination = message.source &&
      p.identity.sequence = message.sequence
  else (r, false)

def reset (localId : UInt32) : Repeater where
  localId
  pending := fun _ => { identity := default, frame := [], dueMs := 0, active := false }
  cache := fun _ => { identity := default, expiresMs := 0, active := false }
  cacheNext := 0
  repeated := 0
  suppressed := 0
  queueDrops := 0
  invalidFrames := 0

def pendingFirstFree : Option (Fin pendingMax) :=
  (List.finRange pendingMax).find? fun i => !(r.pending i).active

/-- Put a relay into a free slot, `delay` milliseconds from now. -/
def enqueue (i : Fin pendingMax) (identity : Identity) (frame : List UInt8)
    (nowMs randomValue : UInt32) : Repeater :=
  { r with
    pending := update r.pending i
      { identity, frame, dueMs := nowMs + (delayMinMs + randomValue % (delayJitterMs + 1)),
        active := true } }

/-- `solar_os_link_repeater_observe` once the acknowledgement check is done. -/
def observeForward (frame : List UInt8)
    (nowMs randomValue : UInt32) : Repeater × ObserveResult :=
  let identity := repeaterIdentity message
  if message.flags &&& Link.flagRelayed ≠ 0 then
    let r := repeaterCacheRemember (repeaterCancelIdentity r identity).1 identity nowMs
    ({ r with suppressed := r.suppressed + 1 }, .suppressed)
  else if repeaterCacheContains r identity then
    ({ r with suppressed := r.suppressed + 1 }, .suppressed)
  else
    match pendingFirstFree r with
    | none => ({ r with queueDrops := r.queueDrops + 1 }, .dropped)
    | some i =>
      (enqueue (repeaterCacheRemember r identity nowMs) i identity frame nowMs randomValue, .queued)

def observe (frame : List UInt8)
    (nowMs randomValue : UInt32) : Repeater × ObserveResult :=
  if frame.length = 0 ∨ Link.frameMax < frame.length then
    (r, .ignored)
  else
    let r := repeaterCachePrune r nowMs
    let (r, cancelled) := repeaterCancelAcknowledged r message
    let r := if cancelled then { r with suppressed := r.suppressed + 1 } else r
    if message.source = 0 ∨ message.source = r.localId ∨
        message.destination = 0 ∨ message.destination = r.localId then
      (r, .ignored)
    else
      observeForward r message frame nowMs randomValue

def takeDue (nowMs : UInt32) : Repeater × Option (List UInt8) :=
  match (List.finRange pendingMax).find? fun i =>
      (r.pending i).active && repeaterTimeReached nowMs (r.pending i).dueMs with
  | some i =>
    ({ r with pending := update r.pending i { r.pending i with active := false } },
      some (r.pending i).frame)
  | none => (r, none)

end

inductive Call where
  | observe (message : Link.Message) (frame : List UInt8) (randomValue : UInt32)
  | takeDue
  deriving DecidableEq

structure TimedCall where
  time : Nat
  call : Call
  deriving DecidableEq

inductive Outcome where
  | observed (result : ObserveResult)
  | taken (frame : Option (List UInt8))
  deriving DecidableEq, Repr

structure Entry extends TimedCall where
  outcome : Outcome
  deriving DecidableEq

abbrev Log := List Entry

def apply (r : Repeater) (c : TimedCall) : Repeater × Outcome :=
  match c.call with
  | .observe message frame randomValue =>
    let (r, result) := observe r message frame (reading c.time) randomValue
    (r, .observed result)
  | .takeDue =>
    let (r, frame) := takeDue r (reading c.time)
    (r, .taken frame)

def advance (s : Repeater × Log) (c : TimedCall) : Repeater × Log :=
  let (r, outcome) := apply s.1 c
  (r, s.2 ++ [{ c with outcome }])

def run (localId : UInt32) (calls : List TimedCall) : Repeater × Log :=
  calls.foldl advance (reset localId, [])

theorem run_append (localId : UInt32) (calls : List TimedCall) (c : TimedCall) :
    run localId (calls ++ [c]) = advance (run localId calls) c := by
  simp [run]

theorem run_calls (localId : UInt32) (calls : List TimedCall) :
    (run localId calls).2.map Entry.toTimedCall = calls := by
  induction calls using List.reverseRecOn with
  | nil => rfl
  | append_singleton calls c ih => simp [run_append, advance, ih]

def TimedCall.identity? (c : TimedCall) : Option Identity :=
  match c.call with
  | .observe message frame _ =>
    if frame.length = 0 ∨ Link.frameMax < frame.length then none else some (repeaterIdentity message)
  | .takeDue => none

variable (calls : List TimedCall)

/-- The distinct identities observed from `start` on, before `stop`. -/
def observedBetween (start stop : Nat) : Finset Identity :=
  ((calls.filter fun c => start ≤ c.time && c.time < stop).filterMap TimedCall.identity?).toFinset

def observedIn (start : Nat) : Finset Identity :=
  observedBetween calls start (start + 60000)

theorem mem_observedBetween {calls : List TimedCall} {start stop : Nat} {x : Identity} :
    x ∈ observedBetween calls start stop ↔
      ∃ c ∈ calls, start ≤ c.time ∧ c.time < stop ∧ c.identity? = some x := by
  simp [observedBetween, and_assoc]

theorem observedBetween_mono {calls : List TimedCall} {start stop start' stop' : Nat}
    (hstart : start' ≤ start) (hstop : stop ≤ stop') :
    observedBetween calls start stop ⊆ observedBetween calls start' stop' := by
  intro x hx
  obtain ⟨c, hc, hlow, hhigh, hid⟩ := mem_observedBetween.mp hx
  exact mem_observedBetween.mpr ⟨c, hc, hstart.trans hlow, hhigh.trans_le hstop, hid⟩

def observeTimes : List Nat :=
  (calls.filter fun c => c.identity?.isSome).map TimedCall.time

def Monotone : Prop := calls.Pairwise fun a b => a.time ≤ b.time

def Near (times : List Nat) : Prop := times.IsChain fun a b => b < a + 2 ^ 31

def FewIdentities : Prop :=
  ∀ start, (observedIn calls start).card ≤ cacheMax

def Entry.Queued (e : Entry) (identity : Identity) : Prop :=
  ∃ message frame randomValue, e.call = .observe message frame randomValue ∧
    repeaterIdentity message = identity ∧ e.outcome = .observed .queued

def QueuedApart (log : Log) : Prop :=
  log.Pairwise fun e f => ∀ identity, e.Queued identity → f.Queued identity → e.time + 60000 ≤ f.time

def QueuedDirect (log : Log) : Prop :=
  ∀ e ∈ log, ∀ message frame randomValue, e.call = .observe message frame randomValue →
    e.outcome = .observed .queued → message.flags &&& Link.flagRelayed = 0

/-- Every frame handed out at position `j` is the frame queued at position
`source j`, at least 80 milliseconds earlier, and no queued frame is handed out
twice. -/
structure TakenFrom (log : Log) (source : Nat → Nat) : Prop where
  frame : ∀ j e frame, log[j]? = some e → e.outcome = .taken (some frame) →
    source j < j ∧ ∃ q message randomValue, log[source j]? = some q ∧
      q.call = .observe message frame randomValue ∧ q.outcome = .observed .queued ∧
      q.time + 80 ≤ e.time
  once : ∀ j k e f frame frame', log[j]? = some e → log[k]? = some f →
    e.outcome = .taken (some frame) → f.outcome = .taken (some frame') → source j = source k → j = k

structure AtMostOnce (log : Log) : Prop where
  apart : QueuedApart log
  direct : QueuedDirect log
  taken : ∃ source, TakenFrom log source

@[simp] theorem cancelFirst_cache (r : Repeater) (condition : Pending → Bool) :
    (cancelFirst r condition).1.cache = r.cache := by
  unfold cancelFirst
  split <;> rfl

@[simp] theorem repeaterCancelAcknowledged_cache (r : Repeater) (message : Link.Message) :
    (repeaterCancelAcknowledged r message).1.cache = r.cache := by
  unfold repeaterCancelAcknowledged
  split_ifs <;> simp

/-- The relays still active in `pending` are those of `old`, unchanged. -/
def Shrinks (pending old : Fin pendingMax → Pending) : Prop :=
  ∀ i, (pending i).active = true → pending i = old i

theorem Shrinks.refl (pending : Fin pendingMax → Pending) : Shrinks pending pending :=
  fun _ _ => rfl

theorem Shrinks.trans {a b c : Fin pendingMax → Pending} (hab : Shrinks a b) (hbc : Shrinks b c) : Shrinks a c := by
  intro i hi
  have h := hab i hi
  rw [h] at hi ⊢
  exact hbc i hi

theorem shrinks_deactivate (pending : Fin pendingMax → Pending) (i : Fin pendingMax) :
    Shrinks (update pending i { pending i with active := false }) pending := by
  intro j hj
  by_cases hji : j = i
  · subst hji
    rw [update_self] at hj
    cases hj
  · rw [update_of_ne hji]

theorem cancelFirst_shrinks (r : Repeater) (condition : Pending → Bool) :
    Shrinks (cancelFirst r condition).1.pending r.pending := by
  unfold cancelFirst
  split
  · exact shrinks_deactivate _ _
  · exact .refl _

theorem repeaterCancelAcknowledged_shrinks (r : Repeater) (message : Link.Message) :
    Shrinks (repeaterCancelAcknowledged r message).1.pending r.pending := by
  unfold repeaterCancelAcknowledged
  split_ifs
  · exact cancelFirst_shrinks _ _
  · exact .refl _

/-- What `observeForward` does to a repeater: it remembers the identity or leaves
the cache, and it queues only a direct frame of an identity it does not hold. -/
inductive Forwarded (p : Repeater) (message : Link.Message) (frame : List UInt8)
    (nowMs randomValue : UInt32) : Repeater × ObserveResult → Prop
  | unchanged {r result} : result ≠ .queued → r.cache = p.cache → Shrinks r.pending p.pending →
      Forwarded p message frame nowMs randomValue (r, result)
  | remembered {r q result} : result ≠ .queued → q.cache = p.cache →
      r.cache = (repeaterCacheRemember q (repeaterIdentity message) nowMs).cache →
      Shrinks r.pending p.pending → Forwarded p message frame nowMs randomValue (r, result)
  | queued {i} : message.flags &&& Link.flagRelayed = 0 →
      repeaterCacheContains p (repeaterIdentity message) = false → (p.pending i).active = false →
      Forwarded p message frame nowMs randomValue
        (enqueue (repeaterCacheRemember p (repeaterIdentity message) nowMs) i
          (repeaterIdentity message) frame nowMs randomValue, .queued)

theorem pendingFirstFree_some {r : Repeater} {i : Fin pendingMax} (h : pendingFirstFree r = some i) :
    (r.pending i).active = false := by
  simpa using List.find?_some h

theorem observeForward_spec (p : Repeater) (message : Link.Message) (frame : List UInt8)
    (nowMs randomValue : UInt32) : Forwarded p message frame nowMs randomValue
      (observeForward p message frame nowMs randomValue) := by
  unfold observeForward
  simp only
  split_ifs with hrelayed hheld
  · exact .remembered (by decide) (cancelFirst_cache p _) rfl (cancelFirst_shrinks p _)
  · exact .unchanged (by decide) rfl (.refl _)
  · cases hfree : pendingFirstFree p with
    | none => exact .unchanged (by decide) rfl (.refl _)
    | some i =>
        exact .queued (Decidable.not_not.mp hrelayed) (by simpa using hheld)
          (pendingFirstFree_some hfree)

variable (r : Repeater)

def observePrepared (message : Link.Message) (nowMs : UInt32) : Repeater :=
  let (p, cancelled) := repeaterCancelAcknowledged (repeaterCachePrune r nowMs) message
  if cancelled then { p with suppressed := p.suppressed + 1 } else p

section
variable (message : Link.Message)
include message

theorem observePrepared_cache (nowMs : UInt32) :
    (observePrepared r message nowMs).cache = (repeaterCachePrune r nowMs).cache := by
  simp only [observePrepared]
  split_ifs <;> simp

theorem observePrepared_shrinks (nowMs : UInt32) : Shrinks (observePrepared r message nowMs).pending r.pending := by
  have h := repeaterCancelAcknowledged_shrinks (repeaterCachePrune r nowMs) message
  simp only [observePrepared]
  split_ifs <;> exact h

theorem observe_invalid {frame : List UInt8}
    (nowMs randomValue : UInt32) (h : frame.length = 0 ∨ Link.frameMax < frame.length) :
    observe r message frame nowMs randomValue = (r, .ignored) := by
  rw [observe, if_pos h]

theorem observe_spec {frame : List UInt8}
    (nowMs randomValue : UInt32) (h : ¬ (frame.length = 0 ∨ Link.frameMax < frame.length)) :
    Forwarded (observePrepared r message nowMs) message frame nowMs randomValue
      (observe r message frame nowMs randomValue) := by
  rw [observe, if_neg h]
  change Forwarded _ _ _ _ _ (if message.source = 0 ∨
    message.source = (observePrepared r message nowMs).localId ∨ message.destination = 0 ∨
    message.destination = (observePrepared r message nowMs).localId then
      (observePrepared r message nowMs, .ignored)
    else observeForward (observePrepared r message nowMs) message frame nowMs randomValue)
  split_ifs
  · exact .unchanged (by decide) rfl (.refl _)
  · exact observeForward_spec _ _ _ _ _

end

theorem takeDue_some {r s : Repeater} {nowMs : UInt32} {frame : List UInt8} (h : takeDue r nowMs = (s, some frame)) :
    ∃ i, (r.pending i).active = true ∧ reached nowMs (r.pending i).dueMs = true ∧
      frame = (r.pending i).frame ∧
      s = { r with pending := update r.pending i { r.pending i with active := false } } := by
  unfold takeDue at h
  split at h
  next i hfind =>
    simp only [Prod.mk.injEq, Option.some.injEq] at h
    have hi := List.find?_some hfind
    simp only [repeaterTimeReached, Bool.and_eq_true] at hi
    exact ⟨i, hi.1, hi.2, h.2.symm, h.1.symm⟩
  next => cases h

theorem takeDue_none {r s : Repeater} {nowMs : UInt32} (h : takeDue r nowMs = (s, none)) : s = r := by
  unfold takeDue at h
  split at h
  · cases h
  · exact ((Prod.mk.injEq _ _ _ _).mp h).1.symm

@[simp] theorem takeDue_cache (nowMs : UInt32) : (takeDue r nowMs).1.cache = r.cache := by
  unfold takeDue
  split <;> rfl

end SolarOs.LinkRepeater
