import SolarOs.LinkRepeater.AtMostOnce

/-! What it takes to push an unexpired identity out of the repeater's cache. -/
namespace SolarOs.LinkRepeater
open WrapClock Function List

def Entry.remembered? (e : Entry) : Option Identity :=
  match e.call, e.outcome with
  | .observe message _ _, .observed .queued => some (repeaterIdentity message)
  | .observe message _ _, .observed .suppressed =>
    if message.flags &&& Link.flagRelayed ≠ 0 then some (repeaterIdentity message) else none
  | _, _ => none

/-- The identities other than `x` remembered in the 60000 milliseconds up to `now`. -/
def othersRemembered (log : Log) (x : Identity) (now : Nat) : Finset Identity :=
  ((log.filter fun e => now < e.time + 60000).filterMap Entry.remembered?).toFinset.erase x

/-- At the call at position `k` sixteen other identities had been remembered within 60000
milliseconds. -/
def Crowded (log : Log) (k : Nat) (x : Identity) : Prop :=
  ∃ e, log[k]? = some e ∧ cacheMax ≤ (othersRemembered (log.take (k + 1)) x e.time).card

variable {log : Log} {x : Identity} {seen : Fin cacheMax → Nat} {r : Repeater} {e : Entry}

theorem mem_othersRemembered {x y : Identity} {now : Nat} : y ∈ othersRemembered log x now ↔
      y ≠ x ∧ ∃ e ∈ log, now < e.time + 60000 ∧ e.remembered? = some y := by
  simp [othersRemembered, and_assoc]

theorem Crowded.snoc {k : Nat} (h : Crowded log k x) (e : Entry) : Crowded (log ++ [e]) k x := by
  obtain ⟨f, hf, hcard⟩ := h
  have hk := index_lt hf
  refine ⟨f, by rw [getElem?_append_left hk]; exact hf, ?_⟩
  rwa [take_append_of_le_length (by omega)]

theorem Crowded.lt {k : Nat} (h : Crowded log k x) : k < log.length := by
  obtain ⟨e, he, -⟩ := h
  exact index_lt he

theorem remember_congr {p q : Repeater} (hcache : q.cache = p.cache) (hnext : q.cacheNext = p.cacheNext)
    (x : Identity) (nowMs : UInt32) :
    (repeaterCacheRemember q x nowMs).cache = (repeaterCacheRemember p x nowMs).cache := by
  have hselect : cacheSelect q x = cacheSelect p x := by
    unfold cacheSelect cacheFind cacheFirstFree
    simp only [hcache, hnext]
  simp only [repeaterCacheRemember, hcache, hselect]

theorem cancelFirst_cacheNext (r : Repeater) (condition : Pending → Bool) :
    (cancelFirst r condition).1.cacheNext = r.cacheNext := by
  unfold cancelFirst
  split <;> rfl

theorem observePrepared_cacheNext (r : Repeater) (message : Link.Message) (nowMs : UInt32) :
    (observePrepared r message nowMs).cacheNext = r.cacheNext := by
  have h : (repeaterCancelAcknowledged (repeaterCachePrune r nowMs) message).1.cacheNext = r.cacheNext := by
    unfold repeaterCancelAcknowledged
    split_ifs
    · exact cancelFirst_cacheNext _ _
    · rfl
  simp only [observePrepared]
  split_ifs <;> exact h

theorem observe_cache (r : Repeater) (message : Link.Message) {frame : List UInt8} (time : Nat)
    (randomValue : UInt32) (hvalid : ¬(frame.length = 0 ∨ Link.frameMax < frame.length)) :
    (observe r message frame (reading time) randomValue).1.cache =
      match (observedEntry time message frame randomValue
        (observe r message frame (reading time) randomValue).2).remembered? with
      | some x => (repeaterCacheRemember (repeaterCachePrune r (reading time)) x (reading time)).cache
      | none => (repeaterCachePrune r (reading time)).cache := by
  have hcache := observePrepared_cache r message (reading time)
  have hnext := observePrepared_cacheNext r message (reading time)
  rw [observe, if_neg hvalid]
  change (if message.source = 0 ∨ message.source = (observePrepared r message (reading time)).localId ∨
      message.destination = 0 ∨ message.destination = (observePrepared r message (reading time)).localId then
        (observePrepared r message (reading time), ObserveResult.ignored)
      else observeForward (observePrepared r message (reading time)) message frame (reading time)
        randomValue).1.cache = match (observedEntry time message frame randomValue
      (if message.source = 0 ∨ message.source = (observePrepared r message (reading time)).localId ∨
        message.destination = 0 ∨ message.destination = (observePrepared r message (reading time)).localId then
          (observePrepared r message (reading time), ObserveResult.ignored)
        else observeForward (observePrepared r message (reading time)) message frame (reading time)
          randomValue).2).remembered? with
      | some x => (repeaterCacheRemember (repeaterCachePrune r (reading time)) x (reading time)).cache
      | none => (repeaterCachePrune r (reading time)).cache
  generalize observePrepared r message (reading time) = p at hcache hnext
  split_ifs with hlocal
  · exact hcache
  · unfold observeForward
    simp only
    split_ifs with hrelayed hheld
    · have hremembered : (observedEntry time message frame randomValue .suppressed).remembered? =
          some (repeaterIdentity message) := if_pos hrelayed
      rw [hremembered]
      exact remember_congr ((cancelFirst_cache p _).trans hcache) ((cancelFirst_cacheNext p _).trans hnext) _ _
    · have hremembered : (observedEntry time message frame randomValue .suppressed).remembered? = none :=
        if_neg hrelayed
      rw [hremembered]
      exact hcache
    · cases hfree : pendingFirstFree p with
      | none => exact hcache
      | some i => exact remember_congr hcache hnext _ _

/-- The slots, with where in the log they come from: what was remembered within the last
60000 milliseconds still has its slot, or made way in a crowd. -/
structure CacheAge (cache : Cache) (seen : Fin cacheMax → Nat) (last : Nat) (log : Log) : Prop
    extends Slots cache seen last where
  heard : ∀ i, (cache i).active = true → ∃ e ∈ log, e.time = seen i ∧ e.remembered? = some (cache i).identity
  kept : ∀ k e x, log[k]? = some e → e.remembered? = some x → last < e.time + 60000 →
    (∃ i, (cache i).active = true ∧ (cache i).identity = x ∧ e.time ≤ seen i) ∨ ∃ j, k < j ∧ Crowded log j x

theorem CacheAge.prune {last time : Nat} (h : CacheAge r.cache seen last log) (hle : last ≤ time)
    (hnear : time < last + 2 ^ 31) : CacheAge (repeaterCachePrune r (reading time)).cache seen time log := by
  refine ⟨h.toSlots.prune hle hnear, fun i hi => ?_, fun k e x hk hx hlt => ?_⟩
  · obtain ⟨heq, hact, -⟩ := prune_active hi
    rw [heq]
    exact h.heard i hact
  · rcases h.kept k e x hk hx (by omega) with ⟨i, hact, hid, hseen⟩ | hcrowd
    · have hkeep := prune_keeps hact ((h.toSlots.fresh hle hnear i hact).mpr (by omega))
      exact .inl ⟨i, by rw [hkeep, hact], by rw [hkeep, hid], hseen⟩
    · exact .inr hcrowd

theorem CacheAge.heard_snoc {cache : Cache} {last : Nat} (h : CacheAge cache seen last log) (e : Entry)
    (i : Fin cacheMax) (hi : (cache i).active = true) :
    ∃ f ∈ log ++ [e], f.time = seen i ∧ f.remembered? = some (cache i).identity := by
  obtain ⟨f, hf, hrest⟩ := h.heard i hi
  exact ⟨f, mem_append_left _ hf, hrest⟩

theorem CacheAge.skip {cache : Cache} {last : Nat} (h : CacheAge cache seen last log) (hnone : e.remembered? = none) :
    CacheAge cache seen last (log ++ [e]) := by
  refine ⟨h.toSlots, h.heard_snoc e, fun k f x hk hx hlt => ?_⟩
  rcases log_snoc.mp hk with hold | ⟨-, rfl⟩
  · rcases h.kept k f x hold hx hlt with hslot | ⟨j, hj, hcrowd⟩
    · exact .inl hslot
    · exact .inr ⟨j, hj, hcrowd.snoc e⟩
  · rw [hnone] at hx
    exact nomatch hx

theorem CacheAge.crowded {cache : Cache} (h : CacheAge cache seen e.time log) (hx : e.remembered? = some x)
    (hfull : ∀ i, (cache i).active = true ∧ (cache i).identity ≠ x) (i : Fin cacheMax) :
    Crowded (log ++ [e]) log.length (cache i).identity := by
  let ids : Finset Identity := Finset.univ.image fun i => (cache i).identity
  have hcard : ids.card = cacheMax := by
    rw [Finset.card_image_of_injective, Finset.card_univ, Fintype.card_fin]
    intro i j hij
    exact h.single i j (hfull i).1 (hfull j).1 hij
  have hmem : (cache i).identity ∈ ids := Finset.mem_image_of_mem _ (Finset.mem_univ i)
  have hnew : x ∉ ids.erase (cache i).identity := by
    intro hx
    obtain ⟨j, -, hj⟩ := Finset.mem_image.mp (Finset.mem_of_mem_erase hx)
    exact (hfull j).2 hj
  have hsub : insert x (ids.erase (cache i).identity) ⊆ othersRemembered (log ++ [e]) (cache i).identity e.time := by
    intro y hy
    rw [mem_othersRemembered]
    rcases Finset.mem_insert.mp hy with rfl | hy
    · exact ⟨(hfull i).2.symm, e, by simp, by omega, hx⟩
    · obtain ⟨hne, hy⟩ := Finset.mem_erase.mp hy
      obtain ⟨j, -, rfl⟩ := Finset.mem_image.mp hy
      obtain ⟨f, hf, htime, hremembered⟩ := h.heard_snoc e j (hfull j).1
      exact ⟨hne, f, hf, htime ▸ (h.live j (hfull j).1).2.2, hremembered⟩
  refine ⟨e, by simp, ?_⟩
  have hwhole : (log ++ [e]).take (log.length + 1) = log ++ [e] := take_of_length_le (by simp)
  have hle := Finset.card_le_card hsub
  rw [Finset.card_insert_of_notMem hnew, Finset.card_erase_of_mem hmem, hcard] at hle
  rwa [hwhole]

theorem CacheAge.remember (h : CacheAge r.cache seen e.time log) (hx : e.remembered? = some x) :
    CacheAge (repeaterCacheRemember r x (reading e.time)).cache
      (update seen (cacheSelect r x) e.time) e.time (log ++ [e]) := by
  refine ⟨h.toSlots.remember x, fun j hj => ?_, fun k f y hk hy hlt => ?_⟩
  · by_cases hji : j = cacheSelect r x
    · subst hji
      rw [remember_self, update_self]
      exact ⟨e, by simp, rfl, hx⟩
    · rw [remember_of_ne r x e.time hji] at hj ⊢
      rw [update_of_ne hji]
      exact h.heard_snoc e j hj
  · rcases log_snoc.mp hk with hold | ⟨-, rfl⟩
    · rcases h.kept k f y hold hy hlt with ⟨j, hact, hid, hseen⟩ | ⟨j, hj, hcrowd⟩
      · exact (h.toSlots.keep x hact hid hseen).imp_right fun hfull =>
          ⟨log.length, index_lt hold, hid ▸ h.crowded hx hfull j⟩
      · exact .inr ⟨j, hj, hcrowd.snoc e⟩
    · obtain rfl := Option.some.inj (hx.symm.trans hy)
      exact .inl ⟨cacheSelect r x, by rw [remember_self], by rw [remember_self], by rw [update_self]⟩

theorem CacheAge.dropped {x y : Identity} (h : CacheAge r.cache seen e.time log) (hx : e.remembered? = some x)
    (hheld : repeaterCacheContains r y = true)
    (hgone : repeaterCacheContains ({ r with cache := (repeaterCacheRemember r x (reading e.time)).cache }) y = false) :
    Crowded (log ++ [e]) log.length y ∧
      (r.cache ⟨r.cacheNext % cacheMax, Nat.mod_lt _ (by decide)⟩).identity = y := by
  obtain ⟨i, hfind⟩ := Option.isSome_iff_exists.mp hheld
  obtain ⟨hact, rfl⟩ := cacheFind_some hfind
  have hselected : i = cacheSelect r x := by
    by_contra hne
    have hkeep := remember_of_ne r x e.time hne
    rw [contains_of_slot (i := i) (by rw [hkeep, hact]) (by rw [hkeep])] at hgone
    exact nomatch hgone
  rcases cacheSelect_cases r x with ⟨-, hownid⟩ | ⟨hfree, -⟩ | hfull
  · have hself := remember_self r x e.time
    rw [← hselected] at hself hownid
    rw [contains_of_slot (i := i) (by rw [hself]) (by rw [hself, hownid])] at hgone
    exact nomatch hgone
  · rw [← hselected, hact] at hfree
    exact nomatch hfree
  · refine ⟨h.crowded hx hfull i, ?_⟩
    have hnone : cacheFind r x = none := by
      cases hfind : cacheFind r x with
      | none => rfl
      | some j => exact absurd (cacheFind_some hfind).2 (hfull j).2
    have hfree : cacheFirstFree r = none := by
      cases hfree : cacheFirstFree r with
      | none => rfl
      | some j => exact nomatch (hfull j).1.symm.trans (cacheFirstFree_some hfree)
    have hcursor : cacheSelect r x = ⟨r.cacheNext % cacheMax, Nat.mod_lt _ (by decide)⟩ := by
      unfold cacheSelect
      rw [hnone, hfree]
      rfl
    rw [← hcursor, ← hselected]

def AgeOk (r : Repeater) (log : Log) : Prop :=
  ∃ seen, ∀ last, (∀ t, lastObserve log = some t → t = last) → CacheAge r.cache seen last log

variable (localId : UInt32)

theorem ageOk_reset : AgeOk (reset localId) [] := by
  refine ⟨fun _ => 0, fun last _ => ⟨⟨?_, ?_⟩, ?_, ?_⟩⟩
  · intro i hi
    cases hi
  · intro i j hi
    cases hi
  · intro i hi
    cases hi
  · intro k e x hk
    cases hk

theorem AgeOk.prune {time : Nat} (h : AgeOk r log) (hle : ∀ t, lastObserve log = some t → t ≤ time)
    (hnear : ∀ t, lastObserve log = some t → time < t + 2 ^ 31) :
    ∃ seen, CacheAge (repeaterCachePrune r (reading time)).cache seen time log := by
  obtain ⟨seen, hage⟩ := h
  cases hlast : lastObserve log with
  | none => exact ⟨seen, (hage time (by simp [hlast])).prune le_rfl (by omega)⟩
  | some t =>
      refine ⟨seen, (hage t ?_).prune (hle t hlast) (hnear t hlast)⟩
      intro t' ht'
      rw [hlast] at ht'
      exact (Option.some.inj ht').symm

theorem AgeOk.of_age (seen : Fin cacheMax → Nat) (h : CacheAge r.cache seen e.time (log ++ [e]))
    (he : e.identity?.isSome = true) : AgeOk r (log ++ [e]) := by
  refine ⟨seen, fun last hlast => ?_⟩
  rw [lastObserve_snoc, if_pos he] at hlast
  obtain rfl := hlast e.time rfl
  exact h

theorem AgeOk.silent {r s : Repeater} (h : AgeOk r log) (hcache : s.cache = r.cache) (he : e.identity? = none)
    (hnone : e.remembered? = none) : AgeOk s (log ++ [e]) := by
  obtain ⟨seen, hage⟩ := h
  refine ⟨seen, fun last hlast => ?_⟩
  rw [lastObserve_snoc, he, Option.isSome_none, if_neg (by decide)] at hlast
  rw [hcache]
  exact (hage last hlast).skip hnone

theorem prune_identity (r : Repeater) (nowMs : UInt32) (i : Fin cacheMax) :
    ((repeaterCachePrune r nowMs).cache i).identity = (r.cache i).identity := by
  rw [prune_cache]
  split_ifs <;> rfl

theorem remembered_of_queued (h : e.Queued x) : e.remembered? = some x := by
  obtain ⟨message, frame, randomValue, hcall, hid, houtcome⟩ := h
  unfold Entry.remembered?
  rw [hcall, houtcome]
  exact congrArg some hid

theorem contains_congr {r s : Repeater} (h : s.cache = r.cache) (x : Identity) :
    repeaterCacheContains s x = repeaterCacheContains r x := by
  unfold repeaterCacheContains cacheFind
  rw [h]

/-- What one more call does to the age of the slots, to an unexpired identity that is
dropped, and to an identity that is queued again. -/
structure InTurn (r s : Repeater) (log : Log) (e : Entry) : Prop where
  age : AgeOk s (log ++ [e])
  dropped : ∀ x, repeaterCacheContains (repeaterCachePrune r (reading e.time)) x = true →
    repeaterCacheContains s x = false → Crowded (log ++ [e]) log.length x ∧
      (r.cache ⟨r.cacheNext % cacheMax, Nat.mod_lt _ (by decide)⟩).identity = x
  queued : ∀ k f x, log[k]? = some f → f.Queued x → e.Queued x → e.time < f.time + 60000 →
    ∃ j, k < j ∧ j < log.length ∧ Crowded log j x

theorem InTurn.silent {r s : Repeater} (h : AgeOk r log) (hcache : s.cache = r.cache) (he : e.identity? = none)
    (hnone : e.remembered? = none) : InTurn r s log e := by
  refine ⟨h.silent hcache he hnone, fun x hheld hgone => ?_, fun k f x _ _ hx => ?_⟩
  · obtain ⟨i, hfind⟩ := Option.isSome_iff_exists.mp hheld
    obtain ⟨hact, hid⟩ := cacheFind_some hfind
    obtain ⟨heq, hold, -⟩ := prune_active hact
    rw [contains_congr hcache, contains_of_slot hold (heq ▸ hid)] at hgone
    exact nomatch hgone
  · rw [remembered_of_queued hx] at hnone
    exact nomatch hnone

theorem InTurn.observe (h : AgeOk r log) (message : Link.Message) {frame : List UInt8} (time : Nat)
    (randomValue : UInt32) (hvalid : ¬(frame.length = 0 ∨ Link.frameMax < frame.length))
    (hle : ∀ t, lastObserve log = some t → t ≤ time) (hnear : ∀ t, lastObserve log = some t → time < t + 2 ^ 31) :
    InTurn r (observe r message frame (reading time) randomValue).1 log
      (observedEntry time message frame randomValue
        (LinkRepeater.observe r message frame (reading time) randomValue).2) := by
  obtain ⟨seen, hage⟩ := h.prune hle hnear
  have hcache := observe_cache r message time randomValue hvalid
  have hspec := observe_spec r message (reading time) randomValue hvalid
  have hpruned := observePrepared_cache r message (reading time)
  generalize LinkRepeater.observe r message frame (reading time) randomValue = result at hcache hspec
  have hsome : (observedEntry time message frame randomValue result.2).identity?.isSome = true :=
    congrArg Option.isSome (if_neg hvalid)
  generalize he : observedEntry time message frame randomValue result.2 = e at hcache hsome
  have htime : e.time = time := he ▸ rfl
  rw [← htime] at hage hcache
  refine ⟨?_, fun x hheld hgone => ?_, fun k f x hk hf hx hlt => ?_⟩
  · cases hremembered : e.remembered? with
    | none =>
        rw [hremembered] at hcache
        exact .of_age seen (hcache ▸ hage.skip hremembered) hsome
    | some x =>
        rw [hremembered] at hcache
        refine .of_age (update seen (cacheSelect (repeaterCachePrune r (reading e.time)) x) e.time) ?_ hsome
        rw [hcache]
        exact hage.remember hremembered
  · cases hremembered : e.remembered? with
    | none =>
        rw [hremembered] at hcache
        rw [contains_congr hcache, hheld] at hgone
        exact nomatch hgone
    | some y =>
        rw [hremembered] at hcache
        obtain ⟨hcrowd, hcursor⟩ := hage.dropped hremembered hheld ((contains_congr hcache x).symm.trans hgone)
        exact ⟨hcrowd, (prune_identity r _ _).symm.trans hcursor⟩
  · subst he
    obtain ⟨hresult, rfl⟩ := queued_iff.mp hx
    have hheld : repeaterCacheContains (repeaterCachePrune r (reading time)) (repeaterIdentity message) = false := by
      rw [← contains_congr hpruned]
      cases hspec with
      | unchanged hres _ _ => exact absurd hresult hres
      | remembered hres _ _ _ => exact absurd hresult hres
      | queued _ hheld _ => exact hheld
    rcases hage.kept k f _ hk (remembered_of_queued hf) hlt with ⟨i, hact, hid, -⟩ | ⟨j, hj, hcrowd⟩
    · exact nomatch (contains_of_slot hact hid).symm.trans hheld
    · exact ⟨j, hj, hcrowd.lt, hcrowd⟩

variable (calls : List TimedCall)

/-- In a run an unexpired identity leaves the cache only from under the cursor and in a
crowd, and nothing is queued twice within 60000 milliseconds but for such a crowd. -/
structure ReplacedInTurn : Prop where
  dropped : ∀ k c x, calls[k]? = some c →
    repeaterCacheContains (repeaterCachePrune (run localId (calls.take k)).1 (reading c.time)) x = true →
    repeaterCacheContains (run localId (calls.take (k + 1))).1 x = false →
    Crowded (run localId calls).2 k x ∧ ((run localId (calls.take k)).1.cache
      ⟨(run localId (calls.take k)).1.cacheNext % cacheMax, Nat.mod_lt _ (by decide)⟩).identity = x
  queued : ∀ i j e f x, i < j → (run localId calls).2[i]? = some e → (run localId calls).2[j]? = some f →
    e.Queued x → f.Queued x → f.time < e.time + 60000 → ∃ k, i < k ∧ k < j ∧ Crowded (run localId calls).2 k x

theorem run_length : (run localId calls).2.length = calls.length := by
  have h := congrArg List.length (run_calls localId calls)
  rwa [length_map] at h

def lastEntry (c : TimedCall) : Entry :=
  { c with outcome := (apply (run localId calls).1 c).2 }

theorem ReplacedInTurn.snoc {localId : UInt32} {calls : List TimedCall} {c : TimedCall}
    (h : ReplacedInTurn localId calls)
    (hstep : InTurn (run localId calls).1 (run localId (calls ++ [c])).1 (run localId calls).2
      (lastEntry localId calls c)) : ReplacedInTurn localId (calls ++ [c]) := by
  have hlog : (run localId (calls ++ [c])).2 = (run localId calls).2 ++ [lastEntry localId calls c] := by
    rw [run_append]
    rfl
  have hlength := run_length localId calls
  refine ⟨fun k d x hk hheld hgone => ?_, fun i j e f x hij hi hj he hf hlt => ?_⟩
  · by_cases hold : k < calls.length
    · rw [getElem?_append_left hold] at hk
      rw [take_append_of_le_length (by omega)] at hheld hgone ⊢
      obtain ⟨hcrowd, hcursor⟩ := h.dropped k d x hk hheld hgone
      exact ⟨hlog ▸ hcrowd.snoc _, hcursor⟩
    · have hin : k < (calls ++ [c]).length := (List.getElem?_eq_some_iff.mp hk).1
      rw [length_append, length_singleton] at hin
      obtain rfl : k = calls.length := by omega
      have hd : c = d := by simpa using hk
      subst hd
      rw [take_of_length_le (by simp)] at hgone
      rw [take_left] at hheld ⊢
      obtain ⟨hcrowd, hcursor⟩ := hstep.dropped x hheld hgone
      rw [hlog, ← hlength]
      exact ⟨hcrowd, hcursor⟩
  · rw [hlog] at hi hj ⊢
    rcases log_snoc.mp hj with hj | ⟨rfl, rfl⟩
    · rcases log_snoc.mp hi with hi | ⟨rfl, -⟩
      · obtain ⟨k, hik, hkj, hcrowd⟩ := h.queued i j e f x hij hi hj he hf hlt
        exact ⟨k, hik, hkj, hcrowd.snoc _⟩
      · exact absurd (index_lt hj) (by omega)
    · rcases log_snoc.mp hi with hi | ⟨rfl, -⟩
      · obtain ⟨k, hik, hkj, hcrowd⟩ := hstep.queued i e x hi he hf hlt
        exact ⟨k, hik, hkj, hcrowd.snoc _⟩
      · exact absurd hij (by omega)

theorem replacedInTurn (hclock : Monotone calls) (hnear : Near (observeTimes calls)) :
    AgeOk (run localId calls).1 (run localId calls).2 ∧ ReplacedInTurn localId calls := by
  induction calls using List.reverseRecOn with
  | nil => exact ⟨ageOk_reset localId, ⟨fun k c x hk => (nomatch hk), fun i j e f x _ hi => (nomatch hi)⟩⟩
  | append_singleton calls c ih =>
    obtain ⟨hage, hreplaced⟩ := ih (pairwise_append.mp hclock).1 hnear.prefix
    have hcalls := run_calls localId calls
    have hle : ∀ t, lastObserve (run localId calls).2 = some t → t ≤ c.time := by
      intro t ht
      obtain ⟨e, he, rfl⟩ := lastObserve_mem ht
      refine (pairwise_append.mp hclock).2.2 e.toTimedCall ?_ c (mem_singleton_self c)
      rw [← hcalls]
      exact mem_map_of_mem he
    have hstep : InTurn (run localId calls).1 (run localId (calls ++ [c])).1 (run localId calls).2
        (lastEntry localId calls c) := by
      rw [run_append]
      obtain ⟨time, call⟩ := c
      cases call with
      | takeDue => exact .silent hage (takeDue_cache _ _) rfl rfl
      | observe message frame randomValue =>
        by_cases hvalid : frame.length = 0 ∨ Link.frameMax < frame.length
        · have hignored := observe_invalid (run localId calls).1 message (reading time) randomValue hvalid
          refine .silent hage ?_ (if_pos hvalid) ?_
          · exact congrArg (fun result => result.1.cache) hignored
          · simp only [lastEntry, apply, hignored, Entry.remembered?]
        · have hid : (TimedCall.mk time (.observe message frame randomValue)).identity?.isSome = true :=
            congrArg Option.isSome (if_neg hvalid)
          rw [← hcalls] at hnear
          exact .observe hage message time randomValue hvalid hle fun t ht => hnear.last hid ht
    have hlog : (run localId (calls ++ [c])).2 = (run localId calls).2 ++ [lastEntry localId calls c] := by
      rw [run_append]
      rfl
    exact ⟨hlog ▸ hstep.age, hreplaced.snoc hstep⟩

/-- With a clock that does not go back and observations less than half its range apart, an
unexpired identity is dropped only in its turn and in a crowd. -/
theorem cache_replaces_in_turn (hclock : Monotone calls)
    (hnear : Near (observeTimes calls)) : ReplacedInTurn localId calls :=
  (replacedInTurn localId calls hclock hnear).2

/-- One slot expires while the fifteen others stay; two identities are queued then, and the
first of them once more. -/
def youngVictimCalls : List TimedCall :=
  heard 0 0x10 0 Link.flagRelayed ::
    ((List.range 15).map fun k => heard 1 0x10 (UInt16.ofNat (k + 1)) Link.flagRelayed) ++
    [heard 60000 0x10 16 0, heard 60000 0x10 17 0, heard 60000 0x10 16 0]

/-- The identity of a frame that `heard` carries. -/
def heardIdentity (sequence : UInt16) : Identity := repeaterIdentity (textTo 0x10 sequence 0)

theorem youngVictimCalls_clock : Monotone youngVictimCalls ∧ Near (observeTimes youngVictimCalls) := by
  unfold Monotone Near
  decide

theorem cache_replaces_in_turn_youngVictim : ReplacedInTurn 0x30 youngVictimCalls :=
  cache_replaces_in_turn 0x30 youngVictimCalls youngVictimCalls_clock.1 youngVictimCalls_clock.2

set_option maxRecDepth 10000 in
/-- The first of the two is dropped right after it was remembered, when one other identity
has been remembered since, and is queued again while its frame is still pending. -/
theorem youngVictim_dropped : Monotone youngVictimCalls ∧ Near (observeTimes youngVictimCalls) ∧
      (run 0x30 (youngVictimCalls.take 17)).2[16]? =
        some (observedEntry 60000 (textTo 0x10 16 0) [0] 0 .queued) ∧
      repeaterCacheContains (repeaterCachePrune (run 0x30 (youngVictimCalls.take 17)).1 (reading 60000))
        (heardIdentity 16) = true ∧
      repeaterCacheContains (run 0x30 (youngVictimCalls.take 18)).1 (heardIdentity 16) = false ∧
      (((run 0x30 (youngVictimCalls.take 18)).1.pending ⟨0, by decide⟩).active = true ∧
        ((run 0x30 (youngVictimCalls.take 18)).1.pending ⟨0, by decide⟩).identity = heardIdentity 16) ∧
      (run 0x30 youngVictimCalls).2[18]? = some (observedEntry 60000 (textTo 0x10 16 0) [0] 0 .queued) := by
  refine ⟨youngVictimCalls_clock.1, youngVictimCalls_clock.2, ?_, ?_, ?_, ?_, ?_⟩ <;> decide

end SolarOs.LinkRepeater
