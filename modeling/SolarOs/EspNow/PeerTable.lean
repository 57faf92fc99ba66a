import SolarOs.EspNow.Peers

/-! What one section does to the table of peers: link ids and MAC addresses stay distinct,
and learning a peer leaves the configured ones alone. -/
namespace SolarOs.EspNow.Peers
open Option Slots

variable {t t' : Table}

def Change.Valid : Change → Prop
  | .set linkId mac => linkIdValid linkId = true ∧ macValid mac = true
  | .remove _ => True
  | .learn linkId mac _ _ => linkIdValid linkId = true ∧ macValid mac = true

def SameConfigured (t t' : Table) : Prop :=
  ∀ i, ((t i).filter Peer.configured).map (fun p => (p.linkId, p.mac)) =
    ((t' i).filter Peer.configured).map fun p => (p.linkId, p.mac)

theorem SameConfigured.refl (t : Table) : SameConfigured t t := fun _ => rfl

theorem SameConfigured.symm (h : SameConfigured t t') : SameConfigured t' t := fun i => (h i).symm

theorem SameConfigured.records (h : SameConfigured t t') : configuredRecords t = configuredRecords t' := by
  unfold configuredRecords
  congr 1
  funext i
  exact h i

theorem SameConfigured.missing (h : SameConfigured t t') : missing t t' = [] := by
  rw [Peers.missing, List.filter_eq_nil_iff]
  intro p hp
  obtain ⟨i, -, hi⟩ := List.mem_filterMap.mp hp
  cases configured : p.configured with
  | false => simp
  | true =>
    have same := h i
    rw [hi, filter_some, if_pos configured, map_some] at same
    obtain ⟨q, hq, keys⟩ := map_eq_some_iff.mp same.symm
    obtain ⟨there, also⟩ := filter_eq_some_iff.mp hq
    have found : (List.finRange peerMax).any (fun i => (t' i).any fun q =>
        q.configured && q.linkId = p.linkId && q.mac = p.mac) = true := by
      refine List.any_eq_true.mpr ⟨i, List.mem_finRange i, ?_⟩
      rw [there]
      simp only [Prod.mk.injEq] at keys
      simp [also, keys.1, keys.2]
    simp [found]

variable {i : Fin peerMax} {linkId : UInt32} {mac : Mac}

variable {p : Peer}

theorem Table.Sound.put (h : t.Sound) (ids : ∀ j q, j ≠ i → t j = some q → q.linkId ≠ p.linkId)
    (macs : ∀ j q, j ≠ i → t j = some q → q.mac ≠ p.mac)
    (valid : linkIdValid p.linkId = true ∧ macValid p.mac = true) : Table.Sound (t.put i p) where
  ids := h.ids.replace ids
  macs := h.macs.replace macs
  valid := by
    intro j q hj
    rw [put_apply] at hj
    split at hj
    · cases hj
      exact valid
    · exact h.valid j q hj

theorem Table.Sound.clear (h : t.Sound) (i : Fin peerMax) : Table.Sound (t.clear i) where
  ids := h.ids.of_keys fun _ p hj => ⟨p, (clear_some.mp hj).2, rfl⟩
  macs := h.macs.of_keys fun _ p hj => ⟨p, (clear_some.mp hj).2, rfl⟩
  valid := fun j p hj => h.valid j p (clear_some.mp hj).2

theorem indexById_some (h : indexById t linkId = some i) : ∃ p, t i = some p ∧ p.linkId = linkId := by
  obtain ⟨p, hp, same⟩ := find_some h
  exact ⟨p, hp, of_decide_eq_true same⟩

theorem indexByMac_some (h : indexByMac t mac = some i) : ∃ p, t i = some p ∧ p.mac = mac := by
  obtain ⟨p, hp, same⟩ := find_some h
  exact ⟨p, hp, of_decide_eq_true same⟩

theorem indexById_none (h : indexById t linkId = none) (hi : t i = some p) :
    p.linkId ≠ linkId := of_decide_eq_false (find_none h hi)

theorem indexByMac_none (h : indexByMac t mac = none) (hi : t i = some p) :
    p.mac ≠ mac := of_decide_eq_false (find_none h hi)

theorem Table.Sound.byId (h : t.Sound) (hi : t i = some p) (same : p.linkId = linkId) :
    indexById t linkId = some i := by
  obtain ⟨j, found⟩ := find_isSome (fun q : Peer => decide (q.linkId = linkId)) hi (by simp [same])
  rw [h.ids.find_eq found hi same]
  exact found

theorem Table.Sound.byMac (h : t.Sound) (hi : t i = some p) (same : p.mac = mac) : indexByMac t mac = some i := by
  obtain ⟨j, found⟩ := find_isSome (fun q : Peer => decide (q.mac = mac)) hi (by simp [same])
  rw [h.macs.find_eq found hi same]
  exact found

theorem oldestLearned_some (h : oldestLearned t = some i) : ∃ p, t i = some p ∧ p.configured = false := by
  refine List.foldlRecOn (motive := fun oldest : UInt32 × Option (Fin peerMax) =>
    ∀ i, oldest.2 = some i → ∃ p, t i = some p ∧ p.configured = false) _ _ ?_ ?_ i h
  · intro i none
    cases none
  · intro oldest known j _ i hi
    cases hj : t j with
    | none =>
      simp only [hj] at hi
      exact known i hi
    | some p =>
      simp only [hj] at hi
      split at hi
      · rename_i learned
        cases hi
        exact ⟨p, hj, by simpa using learned.1⟩
      · exact known i hi

theorem otherByMac_some {k : Fin peerMax} (h : otherByMac t linkId mac = some k) :
    indexByMac t mac = some k ∧ indexById t linkId ≠ some k := by
  unfold otherByMac at h
  split at h
  · cases h
  · rename_i differ
    exact ⟨h, fun same => differ (h.trans same.symm)⟩

theorem otherByMac_none (h : otherByMac t linkId mac = none) {k : Fin peerMax} (byMac : indexByMac t mac = some k) :
    indexById t linkId = some k := by
  unfold otherByMac at h
  split at h
  · rename_i same
    exact same.symm.trans byMac
  · rw [byMac] at h
    cases h

section
variable (h : t.Sound)
include h

theorem Table.Sound.indexById_clear {k : Fin peerMax} (apart : indexById t linkId ≠ some k) :
    indexById (t.clear k) linkId = indexById t linkId := by
  cases found : indexById t linkId with
  | some i =>
    obtain ⟨p, hp, same⟩ := indexById_some found
    have away : i ≠ k := by
      rintro rfl
      exact apart found
    exact (h.clear k).byId (clear_some.mpr ⟨away, hp⟩) same
  | none =>
    cases after : indexById (t.clear k) linkId with
    | none => rfl
    | some j =>
      obtain ⟨p, hp, same⟩ := indexById_some after
      exact absurd same (indexById_none found (clear_some.mp hp).2)

theorem Table.Sound.cleared (linkId : UInt32) (mac : Mac) : Table.Sound ((otherByMac t linkId mac).elim t t.clear) ∧
      indexById ((otherByMac t linkId mac).elim t t.clear) linkId = indexById t linkId ∧
        ∀ j q, indexById t linkId ≠ some j →
          (otherByMac t linkId mac).elim t t.clear j = some q → q.mac ≠ mac := by
  cases other : otherByMac t linkId mac with
  | none =>
    refine ⟨h, rfl, fun j q away hj same => away ?_⟩
    exact otherByMac_none other (h.byMac hj same)
  | some k =>
    obtain ⟨byMac, apart⟩ := otherByMac_some other
    refine ⟨h.clear k, h.indexById_clear apart, fun j q _ hj same => ?_⟩
    obtain ⟨away, there⟩ := clear_some.mp hj
    have here := h.byMac there same
    rw [byMac] at here
    exact away (Option.some.inj here).symm

theorem setPeer_sound (valid : linkIdValid linkId = true ∧ macValid mac = true) :
    Table.Sound (setPeer t linkId mac).1 := by
  obtain ⟨sound, byId, others⟩ := h.cleared linkId mac
  simp only [setPeer]
  split
  · exact h
  · generalize (otherByMac t linkId mac).elim t t.clear = cleared at sound byId others ⊢
    cases found : indexById t linkId with
    | some i =>
      refine sound.put ?_ ?_ valid
      · intro j q away hj same
        have here := sound.byId hj same
        rw [byId, found] at here
        exact away (Option.some.inj here).symm
      · intro j q away hj
        exact others j q (by rw [found]; exact fun here => away (Option.some.inj here).symm) hj
    | none =>
      cases free : cleared.free with
      | none => exact sound
      | some i =>
        refine sound.put ?_ ?_ valid
        · intro j q _ hj
          exact indexById_none (byId.trans found) hj
        · intro j q _ hj
          exact others j q (by rw [found]; nofun) hj

/-- Where a peer is learned there is no other with its link id or its MAC address, and no
configured peer but itself. -/
theorem learned_place (agrees : ¬((indexById t linkId).any (fun i => (t i).any fun p => p.mac ≠ mac) ∨
      (indexByMac t mac).any fun i => (t i).any fun p => p.linkId ≠ linkId))
    (place : ((indexById t linkId).or (indexByMac t mac)).or (t.free.or (oldestLearned t)) = some i) :
    (∀ j q, j ≠ i → t j = some q → q.linkId ≠ linkId ∧ q.mac ≠ mac) ∧
      ∀ p, t i = some p → p.configured = true → p.linkId = linkId ∧ p.mac = mac := by
  have known : ∀ k p, t k = some p → p.linkId = linkId ∨ p.mac = mac → p.linkId = linkId ∧ p.mac = mac := by
    intro k p hp either
    rcases either with id | mac'
    · refine ⟨id, ?_⟩
      by_contra differ
      refine agrees (.inl ?_)
      rw [h.byId hp id]
      simp [hp, differ]
    · refine ⟨?_, mac'⟩
      by_contra differ
      refine agrees (.inr ?_)
      rw [h.byMac hp mac']
      simp [hp, differ]
  cases byId : indexById t linkId with
  | some k =>
    rw [byId] at place
    cases place
    obtain ⟨p, hp, id⟩ := indexById_some byId
    obtain ⟨-, mac'⟩ := known i p hp (.inl id)
    refine ⟨fun j q away hj => ⟨fun same => ?_, fun same => ?_⟩, fun q hq _ => ?_⟩
    · have := byId.symm.trans (h.byId hj same)
      exact away (Option.some.inj this).symm
    · have := (h.byMac hp mac').symm.trans (h.byMac hj same)
      exact away (Option.some.inj this).symm
    · rw [hp] at hq
      cases hq
      exact ⟨id, mac'⟩
  | none =>
    cases byMac : indexByMac t mac with
    | some k =>
      obtain ⟨p, hp, mac'⟩ := indexByMac_some byMac
      exact absurd (known k p hp (.inr mac')).1 (indexById_none byId hp)
    | none =>
      rw [byId, byMac] at place
      refine ⟨fun j q _ hj => ⟨indexById_none byId hj, indexByMac_none byMac hj⟩, fun p hp configured => ?_⟩
      cases free : t.free with
      | some k =>
        rw [free] at place
        cases place
        rw [free_some free] at hp
        cases hp
      | none =>
        rw [free] at place
        obtain ⟨q, hq, learned⟩ := oldestLearned_some place
        rw [hp] at hq
        cases hq
        rw [configured] at learned
        cases learned

theorem learnPeer_sound {rssi : Int} {nowMs : UInt32} (valid : linkIdValid linkId = true ∧ macValid mac = true) :
    Table.Sound (learnPeer t linkId mac rssi nowMs).1 := by
  simp only [learnPeer]
  split
  · exact h
  · rename_i agrees
    split
    · rename_i i place
      obtain ⟨others, -⟩ := learned_place h agrees place
      exact h.put (fun j q away hj => (others j q away hj).1) (fun j q away hj => (others j q away hj).2) valid
    · exact h

theorem learnPeer_configured (linkId : UInt32) (mac : Mac) (rssi : Int) (nowMs : UInt32) :
    SameConfigured t (learnPeer t linkId mac rssi nowMs).1 := by
  simp only [learnPeer]
  split
  · exact .refl t
  · rename_i agrees
    split
    · rename_i i place
      obtain ⟨-, itself⟩ := learned_place h agrees place
      intro j
      simp only [put_apply]
      split
      · rename_i here
        subst here
        cases hj : t j with
        | none => rfl
        | some p =>
          cases configured : p.configured with
          | false => simp [filter_some, configured]
          | true =>
            obtain ⟨id, mac'⟩ := itself p hj configured
            simp [filter_some, configured, id, mac']
      · rfl
    · exact .refl t

end

theorem removePeer_configured (learned : (Change.remove linkId).saves t = false) :
    SameConfigured t (removePeer t linkId).1 := by
  unfold removePeer
  cases found : indexById t linkId with
  | none => exact .refl t
  | some i =>
    simp only [Change.saves, found, any_some] at learned
    intro j
    simp only [clear_apply]
    split
    · rename_i here
      subst here
      cases hj : t j with
      | none => rfl
      | some p =>
        rw [hj] at learned
        simp [show p.configured = false from learned]
    · rfl

theorem Change.apply_sound (h : t.Sound) {c : Change} (valid : c.Valid) : Table.Sound (c.apply t).1 := by
  cases c with
  | set linkId mac => exact setPeer_sound h valid
  | remove linkId =>
    simp only [Change.apply, removePeer]
    split
    · exact h.clear _
    · exact h
  | learn linkId mac rssi nowMs => exact learnPeer_sound h valid

theorem Change.apply_configured (h : t.Sound) {c : Change} (unsaved : c.saves t = false) :
    SameConfigured t (c.apply t).1 := by
  cases c with
  | set linkId mac => cases unsaved
  | remove linkId => exact removePeer_configured unsaved
  | learn linkId mac rssi nowMs => exact learnPeer_configured h linkId mac rssi nowMs

theorem Change.apply_refused {c : Change} (refused : (c.apply t).2 ≠ .ok) : (c.apply t).1 = t := by
  cases c with
  | set linkId mac =>
    simp only [Change.apply, setPeer] at refused ⊢
    split
    · rfl
    · rename_i allowed
      rw [if_neg allowed] at refused
      cases other : otherByMac t linkId mac with
      | none =>
        simp only [other, elim_none] at refused ⊢
        split
        · rename_i i place
          rw [place] at refused
          exact absurd rfl refused
        · rfl
      | some k =>
        -- the slot that was cleared is free
        simp only [other, elim_some] at refused
        cases free : (t.clear k).free with
        | none =>
          obtain ⟨p, hp⟩ := free_none free k
          simp at hp
        | some i =>
          rw [free] at refused
          cases byId : indexById t linkId with
          | none | some j =>
            rw [byId] at refused
            exact absurd rfl refused
  | remove linkId =>
    simp only [Change.apply, removePeer] at refused ⊢
    split
    · rename_i i found
      rw [found] at refused
      exact absurd rfl refused
    · rfl
  | learn linkId mac rssi nowMs =>
    simp only [Change.apply, learnPeer] at refused ⊢
    split
    · rfl
    · rename_i agrees
      rw [if_neg agrees] at refused
      split
      · rename_i i place
        rw [place] at refused
        exact absurd rfl refused
      · rfl

end SolarOs.EspNow.Peers
