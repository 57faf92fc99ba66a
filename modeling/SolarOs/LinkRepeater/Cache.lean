import Mathlib.Data.Fintype.Card
import Mathlib.Data.Finset.Image
import SolarOs.LinkRepeater.Model

/-! What the duplicate cache remembers: the invariant that ties its slots to the
log, and that pruning and remembering keep it. -/
namespace SolarOs.LinkRepeater
open WrapClock Function List

abbrev Cache := Fin cacheMax → CacheEntry

variable {r : Repeater} {i : Fin cacheMax} {x : Identity} {seen : Fin cacheMax → Nat}

theorem cacheFind_some (h : cacheFind r x = some i) : (r.cache i).active = true ∧ (r.cache i).identity = x := by
  simpa using find?_some h

theorem cacheFind_none (h : cacheFind r x = none) (i : Fin cacheMax) (hi : (r.cache i).active = true) :
    (r.cache i).identity ≠ x := by
  have := find?_eq_none.mp h i (mem_finRange i)
  simpa [hi] using this

theorem contains_of_slot (hi : (r.cache i).active = true) (hx : (r.cache i).identity = x) :
    repeaterCacheContains r x = true := by
  cases h : cacheFind r x with
  | some j => simp [repeaterCacheContains, h]
  | none => exact absurd hx (cacheFind_none h i hi)

theorem cacheFirstFree_some (h : cacheFirstFree r = some i) : (r.cache i).active = false := by
  simpa using find?_some h

theorem cacheFirstFree_none (h : cacheFirstFree r = none) (i : Fin cacheMax) : (r.cache i).active = true := by
  simpa using find?_eq_none.mp h i (mem_finRange i)

theorem cacheSelect_cases (r : Repeater) (x : Identity) :
    ((r.cache (cacheSelect r x)).active = true ∧ (r.cache (cacheSelect r x)).identity = x) ∨
    ((r.cache (cacheSelect r x)).active = false ∧
      ∀ i, (r.cache i).active = true → (r.cache i).identity ≠ x) ∨
    (∀ i, (r.cache i).active = true ∧ (r.cache i).identity ≠ x) := by
  cases hx : cacheFind r x with
  | some i =>
      left
      simpa [cacheSelect, hx] using cacheFind_some hx
  | none =>
      right
      cases hf : cacheFirstFree r with
      | some i =>
          left
          refine ⟨?_, cacheFind_none hx⟩
          simpa [cacheSelect, hx, hf] using cacheFirstFree_some hf
      | none =>
          right
          intro i
          have hi := cacheFirstFree_none hf i
          exact ⟨hi, cacheFind_none hx i hi⟩

/-- Every active slot was last remembered at `seen`, has not expired at `last`, and no
identity has two slots. -/
structure Slots (cache : Cache) (seen : Fin cacheMax → Nat) (last : Nat) : Prop where
  live : ∀ i, (cache i).active = true → (cache i).expiresMs = reading (seen i + 60000) ∧
    seen i ≤ last ∧ last < seen i + 60000
  single : ∀ i j, (cache i).active = true → (cache j).active = true →
    (cache i).identity = (cache j).identity → i = j

/-- Every active slot was last heard at `seen`, has not expired at `last`, and no
identity has two slots; every identity queued within the last 60000 milliseconds
still has its slot. -/
structure CacheInv (cache : Cache) (seen : Fin cacheMax → Nat) (last : Nat) (log : Log) : Prop where
  live : ∀ i, (cache i).active = true → (cache i).expiresMs = reading (seen i + 60000) ∧
    seen i ≤ last ∧ last < seen i + 60000
  heard : ∀ i, (cache i).active = true → ∃ c ∈ log.map Entry.toTimedCall, c.time = seen i ∧
    c.identity? = some (cache i).identity
  single : ∀ i j, (cache i).active = true → (cache j).active = true →
    (cache i).identity = (cache j).identity → i = j
  kept : ∀ e ∈ log, ∀ x, e.Queued x → last < e.time + 60000 →
    ∃ i, (cache i).active = true ∧ (cache i).identity = x ∧ e.time ≤ seen i

theorem prune_cache (r : Repeater) (nowMs : UInt32) (i : Fin cacheMax) : (repeaterCachePrune r nowMs).cache i =
      if ((r.cache i).active && reached nowMs (r.cache i).expiresMs) = true then
        { r.cache i with active := false }
      else r.cache i := rfl

theorem prune_active {nowMs : UInt32} (h : ((repeaterCachePrune r nowMs).cache i).active = true) :
    (repeaterCachePrune r nowMs).cache i = r.cache i ∧ (r.cache i).active = true ∧
      reached nowMs (r.cache i).expiresMs = false := by
  by_cases hp : ((r.cache i).active && reached nowMs (r.cache i).expiresMs) = true
  · rw [prune_cache, if_pos hp] at h
    cases h
  · have heq := prune_cache r nowMs i
    rw [if_neg hp] at heq
    rw [heq] at h
    simp only [h, Bool.true_and, Bool.not_eq_true] at hp
    exact ⟨heq, h, hp⟩

theorem prune_keeps {nowMs : UInt32} (h : (r.cache i).active = true)
    (hr : reached nowMs (r.cache i).expiresMs = false) : (repeaterCachePrune r nowMs).cache i = r.cache i := by
  simp [repeaterCachePrune, repeaterTimeReached, h, hr]

variable {cache : Cache}

theorem Slots.fresh {last time : Nat} (h : Slots cache seen last) (hle : last ≤ time)
    (hnear : time < last + 2 ^ 31) (i : Fin cacheMax) (hi : (cache i).active = true) :
    reached (reading time) (cache i).expiresMs = false ↔ time < seen i + 60000 := by
  obtain ⟨hexp, hseen, hlast⟩ := h.live i hi
  rw [hexp]
  constructor
  · intro hr
    by_contra hlt
    rw [reached_of_le (by omega) (by omega)] at hr
    exact absurd hr (by decide)
  · intro hlt
    exact reached_of_lt hlt (by omega)

theorem Slots.prune {last time : Nat} (h : Slots r.cache seen last) (hle : last ≤ time)
    (hnear : time < last + 2 ^ 31) : Slots (repeaterCachePrune r (reading time)).cache seen time := by
  constructor
  · intro i hi
    obtain ⟨heq, hact, hr⟩ := prune_active hi
    obtain ⟨hexp, hseen, -⟩ := h.live i hact
    exact ⟨heq ▸ hexp, hseen.trans hle, (h.fresh hle hnear i hact).mp hr⟩
  · intro i j hi hj hid
    obtain ⟨hei, hai, -⟩ := prune_active hi
    obtain ⟨hej, haj, -⟩ := prune_active hj
    rw [hei, hej] at hid
    exact h.single i j hai haj hid

theorem Slots.others {last : Nat} (h : Slots r.cache seen last) (x : Identity) (j : Fin cacheMax)
    (hj : j ≠ cacheSelect r x) (hact : (r.cache j).active = true) : (r.cache j).identity ≠ x := by
  intro hid
  rcases cacheSelect_cases r x with ⟨hown, hownid⟩ | ⟨-, hnone⟩ | hfull
  · exact hj (h.single j _ hact hown (hid.trans hownid.symm))
  · exact hnone j hact hid
  · exact (hfull j).2 hid

theorem remember_self (r : Repeater) (x : Identity) (time : Nat) :
    (repeaterCacheRemember r x (reading time)).cache (cacheSelect r x) =
      { identity := x, expiresMs := reading (time + 60000), active := true } := by
  simp only [repeaterCacheRemember, update_self, CacheEntry.mk.injEq, and_true, true_and]
  exact reading_add time 60000

theorem remember_of_ne (r : Repeater) (x : Identity) (time : Nat) {j : Fin cacheMax} (hj : j ≠ cacheSelect r x) :
    (repeaterCacheRemember r x (reading time)).cache j = r.cache j := by
  simp [repeaterCacheRemember, update_of_ne hj]

theorem Slots.remember {time : Nat} (h : Slots r.cache seen time) (x : Identity) :
    Slots (repeaterCacheRemember r x (reading time)).cache (update seen (cacheSelect r x) time) time := by
  constructor
  · intro j hj
    by_cases hji : j = cacheSelect r x
    · subst hji
      rw [remember_self, update_self]
      exact ⟨rfl, le_rfl, by omega⟩
    · rw [remember_of_ne r x time hji] at hj ⊢
      rw [update_of_ne hji]
      exact h.live j hj
  · intro j k hj hk hjk
    by_cases hji : j = cacheSelect r x <;> by_cases hki : k = cacheSelect r x
    · rw [hji, hki]
    · rw [remember_of_ne r x time hki] at hk hjk
      rw [hji, remember_self] at hjk
      exact absurd hjk.symm (h.others x k hki hk)
    · rw [remember_of_ne r x time hji] at hj hjk
      rw [hki, remember_self] at hjk
      exact absurd hjk (h.others x j hji hj)
    · rw [remember_of_ne r x time hji] at hj hjk
      rw [remember_of_ne r x time hki] at hk hjk
      exact h.single j k hj hk hjk

variable {log : Log}

theorem CacheInv.slots {last : Nat} (h : CacheInv cache seen last log) : Slots cache seen last := ⟨h.live, h.single⟩

theorem CacheInv.prune {last time : Nat} (h : CacheInv r.cache seen last log) (hle : last ≤ time)
    (hnear : time < last + 2 ^ 31) : CacheInv (repeaterCachePrune r (reading time)).cache seen time log := by
  have hslots := h.slots.prune hle hnear
  refine ⟨hslots.live, ?_, hslots.single, ?_⟩
  · intro i hi
    obtain ⟨heq, hact, -⟩ := prune_active hi
    rw [heq]
    exact h.heard i hact
  · intro e he x hq hlt
    obtain ⟨i, hact, hid, hseen⟩ := h.kept e he x hq (by omega)
    have hkeep := prune_keeps hact ((h.slots.fresh hle hnear i hact).mpr (by omega))
    exact ⟨i, by rw [hkeep, hact], by rw [hkeep, hid], hseen⟩

theorem CacheInv.skip {last : Nat} {e : Entry} (h : CacheInv cache seen last log)
    (hq : ∀ x, ¬ e.Queued x) : CacheInv cache seen last (log ++ [e]) := by
  refine ⟨h.live, ?_, h.single, ?_⟩
  · intro i hi
    obtain ⟨c, hc, hcall⟩ := h.heard i hi
    exact ⟨c, by rw [map_append]; exact mem_append_left _ hc, hcall⟩
  · intro e' he' x hx hlt
    rcases mem_append.mp he' with hold | hnew
    · exact h.kept e' hold x hx hlt
    · rw [mem_singleton] at hnew
      exact absurd hx (hnew ▸ hq x)

theorem CacheInv.not_full {e : Entry} (h : CacheInv cache seen e.time log)
    (hx : e.identity? = some x) (hfew : FewIdentities ((log ++ [e]).map Entry.toTimedCall)) :
    ¬ ∀ i, (cache i).active = true ∧ (cache i).identity ≠ x := by
  intro hfull
  let start := e.time - 59999
  let ids : Finset Identity := Finset.univ.image fun i => (cache i).identity
  have hcard : ids.card = cacheMax := by
    rw [Finset.card_image_of_injective, Finset.card_univ, Fintype.card_fin]
    intro i j hij
    exact h.single i j (hfull i).1 (hfull j).1 hij
  have hnew : x ∉ ids := by
    intro hmem
    obtain ⟨i, -, hi⟩ := Finset.mem_image.mp hmem
    exact (hfull i).2 hi
  have hsub : insert x ids ⊆ observedIn ((log ++ [e]).map Entry.toTimedCall) start := by
    intro y hy
    rcases Finset.mem_insert.mp hy with rfl | hy
    · exact mem_observedBetween.mpr ⟨e.toTimedCall, by simp, by omega, by omega, hx⟩
    · obtain ⟨i, -, rfl⟩ := Finset.mem_image.mp hy
      obtain ⟨-, hseen, hlast⟩ := h.live i (hfull i).1
      obtain ⟨c, hc, htime, hid⟩ := h.heard i (hfull i).1
      refine mem_observedBetween.mpr ⟨c, ?_, by omega, by omega, hid⟩
      rw [map_append]
      exact mem_append_left _ hc
  have hle := (Finset.card_le_card hsub).trans (hfew start)
  rw [Finset.card_insert_of_notMem hnew, hcard] at hle
  omega

theorem Slots.keep {time t : Nat} {y : Identity} (h : Slots r.cache seen time) (x : Identity) {j : Fin cacheMax}
    (hact : (r.cache j).active = true) (hid : (r.cache j).identity = y) (hseen : t ≤ seen j) :
    (∃ i, ((repeaterCacheRemember r x (reading time)).cache i).active = true ∧
      ((repeaterCacheRemember r x (reading time)).cache i).identity = y ∧ t ≤ update seen (cacheSelect r x) time i) ∨
      ∀ i, (r.cache i).active = true ∧ (r.cache i).identity ≠ x := by
  by_cases hji : j = cacheSelect r x
  · rcases cacheSelect_cases r x with ⟨-, hownid⟩ | ⟨hfree, -⟩ | hfull
    · refine .inl ⟨cacheSelect r x, by rw [remember_self], ?_, ?_⟩
      · rw [remember_self, ← hid, hji, hownid]
      · rw [update_self]
        exact hseen.trans (h.live j hact).2.1
    · rw [hji, hfree] at hact
      cases hact
    · exact .inr hfull
  · exact .inl ⟨j, by rw [remember_of_ne r x time hji, hact], by rw [remember_of_ne r x time hji, hid],
      by rw [update_of_ne hji]; exact hseen⟩

theorem CacheInv.remember {e : Entry} (h : CacheInv r.cache seen e.time log) (hx : e.identity? = some x)
    (hq : ∀ y, e.Queued y → y = x) (hfew : FewIdentities ((log ++ [e]).map Entry.toTimedCall)) :
    CacheInv (repeaterCacheRemember r x (reading e.time)).cache
      (update seen (cacheSelect r x) e.time) e.time (log ++ [e]) := by
  have hslots := h.slots.remember x
  refine ⟨hslots.live, ?_, hslots.single, ?_⟩
  · intro j hj
    by_cases hji : j = cacheSelect r x
    · subst hji
      rw [remember_self, update_self]
      exact ⟨e.toTimedCall, by simp, rfl, hx⟩
    · rw [remember_of_ne r x e.time hji] at hj ⊢
      rw [update_of_ne hji]
      obtain ⟨c, hc, hcall⟩ := h.heard j hj
      exact ⟨c, by rw [map_append]; exact mem_append_left _ hc, hcall⟩
  · intro e' he' y hy hlt
    rcases mem_append.mp he' with hold | hnew
    · obtain ⟨j, hact, hid, hseen⟩ := h.kept e' hold y hy hlt
      exact (h.slots.keep x hact hid hseen).resolve_right (h.not_full hx hfew)
    · rw [mem_singleton] at hnew
      subst hnew
      exact ⟨cacheSelect r x, by rw [remember_self], by rw [remember_self, hq y hy], by rw [update_self]⟩

end SolarOs.LinkRepeater
