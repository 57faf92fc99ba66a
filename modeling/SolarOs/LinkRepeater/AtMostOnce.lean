import SolarOs.LinkRepeater.Cache
import SolarOs.LinkRepeater.Pending

/-! The repeater relays each frame at most once. -/
namespace SolarOs.LinkRepeater
open WrapClock List

def lastObserve (log : Log) : Option Nat := (observeTimes (log.map Entry.toTimedCall)).getLast?

def CacheOk (r : Repeater) (log : Log) : Prop :=
  ∃ seen, ∀ last, (∀ t, lastObserve log = some t → t = last) → CacheInv r.cache seen last log

theorem lastObserve_snoc (log : Log) (e : Entry) :
    lastObserve (log ++ [e]) = if e.identity?.isSome then some e.time else lastObserve log := by
  unfold lastObserve observeTimes
  by_cases h : e.identity?.isSome = true <;> simp [filter_append, h]

theorem cacheOk_reset (localId : UInt32) : CacheOk (reset localId) [] := by
  refine ⟨fun _ => 0, fun last _ => ⟨?_, ?_, ?_, ?_⟩⟩
  · intro i hi
    cases hi
  · intro i hi
    cases hi
  · intro i j hi
    cases hi
  · intro e he
    cases he

variable {log : Log} {r : Repeater} {time : Nat} {frame : List UInt8}

theorem CacheOk.prune (h : CacheOk r log) (hle : ∀ t, lastObserve log = some t → t ≤ time)
    (hnear : ∀ t, lastObserve log = some t → time < t + 2 ^ 31) :
    ∃ seen, CacheInv (repeaterCachePrune r (reading time)).cache seen time log := by
  obtain ⟨seen, hinv⟩ := h
  cases hlast : lastObserve log with
  | none =>
      exact ⟨seen, (hinv time (by simp [hlast])).prune le_rfl (by omega)⟩
  | some t =>
      refine ⟨seen, (hinv t ?_).prune (hle t hlast) (hnear t hlast)⟩
      intro t' ht'
      rw [hlast] at ht'
      exact (Option.some.inj ht').symm

theorem CacheOk.of_inv (seen : Fin cacheMax → Nat) {e : Entry} (h : CacheInv r.cache seen e.time (log ++ [e]))
    (he : e.identity?.isSome = true) : CacheOk r (log ++ [e]) := by
  refine ⟨seen, fun last hlast => ?_⟩
  rw [lastObserve_snoc, if_pos he] at hlast
  obtain rfl := hlast e.time rfl
  exact h

theorem CacheOk.silent {r s : Repeater} {e : Entry} (h : CacheOk r log) (hcache : s.cache = r.cache)
    (he : e.identity? = none) (hq : ∀ x, ¬ e.Queued x) : CacheOk s (log ++ [e]) := by
  obtain ⟨seen, hinv⟩ := h
  refine ⟨seen, fun last hlast => ?_⟩
  rw [lastObserve_snoc, he, Option.isSome_none, if_neg (by decide)] at hlast
  rw [hcache]
  exact (hinv last hlast).skip hq

variable {message : Link.Message}

variable {result : ObserveResult} {randomValue : UInt32}

theorem queued_iff {x : Identity} : (observedEntry time message frame randomValue result).Queued x ↔
      result = .queued ∧ repeaterIdentity message = x := by
  constructor
  · rintro ⟨m, f, v, hcall, hid, hout⟩
    obtain ⟨rfl, -, -⟩ := Call.observe.inj hcall
    exact ⟨Outcome.observed.inj hout, hid⟩
  · rintro ⟨rfl, hid⟩
    exact ⟨message, frame, randomValue, rfl, hid, rfl⟩

theorem not_queued_taken {frame : Option (List UInt8)} {x : Identity} : ¬ (takenEntry time frame).Queued x := by
  rintro ⟨m, f, v, hcall, -⟩
  cases hcall

theorem observe_step {s : Repeater}
    (h : CacheOk r log) (hstep : observe r message frame (reading time) randomValue = (s, result))
    (hvalid : ¬ (frame.length = 0 ∨ Link.frameMax < frame.length)) (hle : ∀ t, lastObserve log = some t → t ≤ time)
    (hnear : ∀ t, lastObserve log = some t → time < t + 2 ^ 31)
    (hfew : FewIdentities ((log ++ [observedEntry time message frame randomValue result]).map
      Entry.toTimedCall)) : CacheOk s (log ++ [observedEntry time message frame randomValue result]) ∧
      (result = .queued → message.flags &&& Link.flagRelayed = 0 ∧
        ∀ e ∈ log, e.Queued (repeaterIdentity message) → e.time + 60000 ≤ time) := by
  obtain ⟨seen, hinv⟩ := h.prune hle hnear
  rw [← observePrepared_cache r message] at hinv
  set e := observedEntry time message frame randomValue result with he
  have hid : e.identity? = some (repeaterIdentity message) := if_neg hvalid
  have hsome : e.identity?.isSome = true := by rw [hid]; rfl
  have honly : ∀ x, e.Queued x → x = repeaterIdentity message := by
    intro x hx
    exact (queued_iff.mp hx).2.symm
  have hspec := observe_spec r message (reading time) randomValue hvalid
  rw [hstep] at hspec
  cases hspec with
  | unchanged hres hcache _ =>
      refine ⟨CacheOk.of_inv seen ?_ hsome, fun hq => absurd hq hres⟩
      rw [hcache]
      exact hinv.skip fun x hx => hres (queued_iff.mp hx).1
  | @remembered _ q _ hres hq hcache _ =>
      refine ⟨CacheOk.of_inv (Function.update seen (cacheSelect q (repeaterIdentity message)) time) ?_
        hsome, fun hq => absurd hq hres⟩
      rw [← hq] at hinv
      rw [hcache]
      exact hinv.remember (e := e) hid honly hfew
  | queued hdirect hheld hfree =>
      refine ⟨CacheOk.of_inv _ (hinv.remember (e := e) hid honly hfew) hsome, fun _ => ⟨hdirect, ?_⟩⟩
      intro e' he' hq
      by_contra hlt
      obtain ⟨i, hact, hslot, -⟩ := hinv.kept e' he' _ hq (by omega)
      rw [contains_of_slot hact hslot] at hheld
      cases hheld

theorem QueuedApart.snoc {e : Entry} (h : QueuedApart log)
    (he : ∀ x, e.Queued x → ∀ f ∈ log, f.Queued x → f.time + 60000 ≤ e.time) : QueuedApart (log ++ [e]) := by
  refine pairwise_append.mpr ⟨h, pairwise_singleton _ _, ?_⟩
  intro f hf g hg x hfx hgx
  rw [mem_singleton] at hg
  subst hg
  exact he x hgx f hf hfx

theorem QueuedDirect.snoc {e : Entry} (h : QueuedDirect log)
    (he : ∀ message frame randomValue, e.call = .observe message frame randomValue →
      e.outcome = .observed .queued → message.flags &&& Link.flagRelayed = 0) : QueuedDirect (log ++ [e]) := by
  intro f hf
  rcases mem_append.mp hf with hold | hnew
  · exact h f hold
  · rw [mem_singleton] at hnew
    exact hnew ▸ he

variable {calls : List TimedCall}

theorem FewIdentities.prefix {c : TimedCall} (h : FewIdentities (calls ++ [c])) : FewIdentities calls := by
  intro start
  refine (Finset.card_le_card ?_).trans (h start)
  intro x hx
  obtain ⟨c', hc', hrest⟩ := mem_observedBetween.mp hx
  exact mem_observedBetween.mpr ⟨c', mem_append_left _ hc', hrest⟩

theorem observeTimes_snoc (calls : List TimedCall) (c : TimedCall) : observeTimes (calls ++ [c]) =
      observeTimes calls ++ if c.identity?.isSome then [c.time] else [] := by
  by_cases h : c.identity?.isSome = true <;> simp [observeTimes, h]

theorem Near.prefix {c : TimedCall} (h : Near (observeTimes (calls ++ [c]))) : Near (observeTimes calls) := by
  rw [observeTimes_snoc] at h
  exact (isChain_append.mp h).1

/-- The state and log of a run, with everything its calls preserve. -/
structure RunInv (r : Repeater) (log : Log) : Prop where
  cache : CacheOk r log
  pending : ∃ origin source, PendingInv r.pending origin log source
  apart : QueuedApart log
  direct : QueuedDirect log

theorem runInv_reset (localId : UInt32) : RunInv (reset localId) [] := by
  refine ⟨cacheOk_reset localId, ⟨fun _ => 0, fun _ => 0, ?_, ?_, ⟨?_, ?_⟩, ?_⟩, List.Pairwise.nil, ?_⟩
  · intro i hi
    cases hi
  · intro i j hi
    cases hi
  · intro j e frame hj
    cases hj
  · intro j k e f frame frame' hj
    cases hj
  · intro i hi
    cases hi
  · intro e he
    cases he

theorem RunInv.takeDue (h : RunInv r log) (hclock : ∀ e ∈ log, e.time ≤ time) :
    RunInv (takeDue r (reading time)).1 (log ++ [takenEntry time (takeDue r (reading time)).2]) := by
  obtain ⟨origin, source, hpending⟩ := h.pending
  have hsilent : ∀ frame x, ¬ (takenEntry time frame).Queued x := fun _ _ => not_queued_taken
  refine ⟨h.cache.silent (takeDue_cache r _) rfl (hsilent _), ?_, h.apart.snoc ?_, h.direct.snoc ?_⟩
  · cases hres : LinkRepeater.takeDue r (reading time) with
    | mk s taken =>
        cases taken with
        | none =>
            rw [takeDue_none hres]
            refine ⟨origin, source, hpending.snoc ?_⟩
            intro frame hframe
            cases hframe
        | some frame =>
            obtain ⟨i, hact, hdue, rfl, rfl⟩ := takeDue_some hres
            exact ⟨_, _, hpending.take hact hdue hclock⟩
  · intro x hx
    exact absurd hx (hsilent _ x)
  · intro message frame randomValue hcall
    cases hcall

theorem RunInv.observeInvalid (h : RunInv r log) (time : Nat) (message : Link.Message) (randomValue : UInt32)
    (hinvalid : frame.length = 0 ∨ Link.frameMax < frame.length) :
    RunInv r (log ++ [observedEntry time message frame randomValue .ignored]) := by
  obtain ⟨origin, source, hpending⟩ := h.pending
  have hsilent : ∀ x, ¬ (observedEntry time message frame randomValue .ignored).Queued x := by
    intro x hx
    exact absurd (queued_iff.mp hx).1 (by decide)
  refine ⟨h.cache.silent rfl (if_pos hinvalid) hsilent,
    ⟨origin, source, hpending.snoc ?_⟩, h.apart.snoc ?_, h.direct.snoc ?_⟩
  · intro f hf
    cases hf
  · intro x hx
    exact absurd hx (hsilent x)
  · intro m f v _ hout
    cases hout

theorem RunInv.observe {s : Repeater}
    (h : RunInv r log) (hstep : observe r message frame (reading time) randomValue = (s, result))
    (hvalid : ¬ (frame.length = 0 ∨ Link.frameMax < frame.length)) (hle : ∀ t, lastObserve log = some t → t ≤ time)
    (hnear : ∀ t, lastObserve log = some t → time < t + 2 ^ 31)
    (hfew : FewIdentities ((log ++ [observedEntry time message frame randomValue result]).map
      Entry.toTimedCall)) : RunInv s (log ++ [observedEntry time message frame randomValue result]) := by
  obtain ⟨origin, source, hpending⟩ := h.pending
  obtain ⟨hcache, hqueued⟩ := observe_step h.cache hstep hvalid hle hnear hfew
  have hnot : ∀ f, (observedEntry time message frame randomValue result).outcome ≠
      .taken (some f) := by
    intro f hf
    cases hf
  have hshrink := observePrepared_shrinks r message (reading time)
  have hspec := observe_spec r message (reading time) randomValue hvalid
  rw [hstep] at hspec
  refine ⟨hcache, ?_, h.apart.snoc ?_, h.direct.snoc ?_⟩
  · cases hspec with
    | unchanged _ _ hs => exact ⟨origin, source, (hpending.shrink (hs.trans hshrink)).snoc hnot⟩
    | remembered _ _ _ hs =>
        exact ⟨origin, source, (hpending.shrink (hs.trans hshrink)).snoc hnot⟩
    | queued _ _ _ =>
        have hprepared : PendingInv (repeaterCacheRemember (observePrepared r message (reading time))
            (repeaterIdentity message) (reading time)).pending origin log source :=
          hpending.shrink hshrink
        exact ⟨_, _, hprepared.enqueue _ time message frame randomValue⟩
  · intro x hx f hf hfx
    obtain ⟨hres, rfl⟩ := queued_iff.mp hx
    exact (hqueued hres).2 f hf hfx
  · intro m f v hcall hout
    obtain ⟨rfl, -, -⟩ := Call.observe.inj hcall
    exact (hqueued (Outcome.observed.inj hout)).1

theorem lastObserve_mem {t : Nat} (h : lastObserve log = some t) : ∃ e ∈ log, e.time = t := by
  have hmem := mem_of_getLast? h
  obtain ⟨c, hc, rfl⟩ := mem_map.mp hmem
  obtain ⟨e, he, rfl⟩ := mem_map.mp (mem_filter.mp hc).1
  exact ⟨e, he, rfl⟩

theorem Near.last {c : TimedCall} (h : Near (observeTimes (log.map Entry.toTimedCall ++ [c])))
    (hc : c.identity?.isSome = true) {t : Nat} (ht : lastObserve log = some t) : c.time < t + 2 ^ 31 := by
  rw [observeTimes_snoc, if_pos hc] at h
  exact (isChain_append.mp h).2.2 t ht c.time rfl

theorem run_inv (localId : UInt32) (hclock : Monotone calls)
    (hnear : Near (observeTimes calls)) (hfew : FewIdentities calls) :
    RunInv (run localId calls).1 (run localId calls).2 := by
  induction calls using List.reverseRecOn with
  | nil => exact runInv_reset localId
  | append_singleton calls c ih =>
    have h := ih (pairwise_append.mp hclock).1 hnear.prefix hfew.prefix
    have hcalls := run_calls localId calls
    have hbefore : ∀ e ∈ (run localId calls).2, e.time ≤ c.time := by
      intro e he
      refine (pairwise_append.mp hclock).2.2 e.toTimedCall ?_ c (mem_singleton_self c)
      rw [← hcalls]
      exact mem_map_of_mem he
    rw [run_append]
    obtain ⟨time, call⟩ := c
    cases call with
    | takeDue => exact h.takeDue hbefore
    | observe message frame randomValue =>
      by_cases hvalid : frame.length = 0 ∨ Link.frameMax < frame.length
      · have hstep := observe_invalid (run localId calls).1 message (reading time) randomValue hvalid
        have hinv := h.observeInvalid time message randomValue hvalid
        simpa only [advance, apply, hstep, observedEntry] using hinv
      · have hid : (TimedCall.mk time (.observe message frame randomValue)).identity?.isSome = true :=
          congrArg Option.isSome (if_neg hvalid)
        rw [← hcalls] at hnear hfew
        refine h.observe (Prod.mk.eta).symm hvalid ?_ (fun t ht => hnear.last hid ht) ?_
        · intro t ht
          obtain ⟨e, he, rfl⟩ := lastObserve_mem ht
          exact hbefore e he
        · rw [map_append]
          exact hfew

/-- At most once: the clock does not go back, neighbouring observations lie less
than half its range apart and no window holds more than sixteen identities. -/
theorem repeater_at_most_once (localId : UInt32) (calls : List TimedCall) (hclock : Monotone calls)
    (hnear : Near (observeTimes calls)) (hfew : FewIdentities calls) : AtMostOnce (run localId calls).2 := by
  obtain ⟨-, ⟨origin, source, hpending⟩, hapart, hdirect⟩ := run_inv localId hclock hnear hfew
  exact ⟨hapart, hdirect, source, hpending.taken⟩

/-- A text message to one station. -/
def textTo (source : UInt32) (sequence : UInt16) (flags : UInt8) : Link.Message where
  version := Link.protocolVersion
  flags
  type := .text
  sequence
  source
  destination := 0x20
  payload := []

def heard (time : Nat) (source : UInt32) (sequence : UInt16) (flags : UInt8) : TimedCall :=
  ⟨time, .observe (textTo source sequence flags) [0] 0⟩

theorem repeater_at_most_once_heard : AtMostOnce (run 0x30 [heard 0 0x10 1 0, ⟨80, .takeDue⟩]).2 := by
  refine repeater_at_most_once 0x30 _ ?_ ?_ ?_
  · exact pairwise_pair.mpr (by decide)
  · exact isChain_singleton _
  · intro start
    refine (toFinset_card_le _).trans ((length_filterMap_le _ _).trans ?_)
    exact (length_filter_le _ _).trans (by decide)

def quietEnd : Nat := 90000 + 2 ^ 31

/-- Fifteen relayed copies expire unnoticed while nothing is heard for half the
clock's range, with `takeDue` polled meanwhile; slot 0 alone is free and next. -/
def staleCalls : List TimedCall :=
  heard 0 0x10 100 Link.flagRelayed ::
    ((List.range 15).map fun k => heard 30000 0x10 (UInt16.ofNat k) Link.flagRelayed) ++
    [heard 60000 0x30 0 0, ⟨2 ^ 31, .takeDue⟩, heard quietEnd 0x10 200 0,
      heard (quietEnd + 1) 0x10 201 0, heard (quietEnd + 2) 0x10 200 0]

theorem staleCalls_few : FewIdentities staleCalls := by
  intro start
  have hcard : ∀ low high, low ≤ start → start + 60000 ≤ high →
      (observedBetween staleCalls low high).card ≤ cacheMax →
      (observedIn staleCalls start).card ≤ cacheMax := by
    intro low high hlow hhigh hle
    exact (Finset.card_le_card (observedBetween_mono hlow hhigh)).trans hle
  have hlast : ∀ c ∈ staleCalls, c.time ≤ quietEnd + 2 := by decide
  rcases lt_or_ge 0 start with hpos | hzero
  · rcases lt_or_ge 60000 start with hlate | hearly
    · rcases lt_or_ge (quietEnd + 2) start with hpast | hnow
      · have hnone : observedIn staleCalls start = ∅ := by
          refine Finset.eq_empty_of_forall_notMem fun x hx => ?_
          obtain ⟨c, hc, hlow, -⟩ := mem_observedBetween.mp hx
          have := hlast c hc
          omega
        rw [hnone]
        decide
      · exact hcard 60001 (quietEnd + 60002) hlate (by omega) (by decide)
    · exact hcard 1 120000 hpos (by omega) (by decide)
  · exact hcard 0 60000 (Nat.zero_le _) (by omega) (by decide)

set_option maxRecDepth 10000 in
/-- With calls, but not observations, less than half the clock's range apart, one
identity is queued twice within two milliseconds. -/
theorem staleCalls_queued_twice :
    Monotone staleCalls ∧ Near (staleCalls.map TimedCall.time) ∧ FewIdentities staleCalls ∧
      ¬ QueuedApart (run 0x30 staleCalls).2 := by
  refine ⟨?_, ?_, staleCalls_few, ?_⟩
  · unfold Monotone
    decide
  · unfold Near
    decide
  · intro h
    have hfirst : (run 0x30 staleCalls).2[18]? =
        some (observedEntry quietEnd (textTo 0x10 200 0) [0] 0 .queued) := by decide
    have hsecond : (run 0x30 staleCalls).2[20]? =
        some (observedEntry (quietEnd + 2) (textTo 0x10 200 0) [0] 0 .queued) := by decide
    obtain ⟨hi, hfirst⟩ := List.getElem?_eq_some_iff.mp hfirst
    obtain ⟨hj, hsecond⟩ := List.getElem?_eq_some_iff.mp hsecond
    have hapart := pairwise_iff_getElem.mp h 18 20 hi hj (by decide)
    rw [hfirst, hsecond] at hapart
    have hlate := hapart _ (queued_iff.mpr ⟨rfl, rfl⟩) (queued_iff.mpr ⟨rfl, rfl⟩)
    exact absurd hlate (by decide)

end SolarOs.LinkRepeater
