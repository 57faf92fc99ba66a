import SolarOs.Contacts.Calls
import SolarOs.Contacts.Eviction
import Mathlib.Data.Fintype.EquivFin
import Mathlib.Logic.Function.Iterate

/-! A call that fails leaves the contacts and the endpoints as they were: once there is room
there is also an id. -/
namespace SolarOs.Contacts

variable {s : State}

structure Numbered (s : State) : Prop where
  contact : s.nextContactId ≤ uint32Max
  endpoint : s.nextEndpointId ≤ uint32Max

theorem initial_numbered : Numbered initial := ⟨by decide, by decide⟩

theorem nextId_le {id : Nat} (h : id ≤ uint32Max) : nextId id ≤ uint32Max := by
  unfold nextId
  split
  · decide
  · omega

variable {inUse : Nat → Bool}

theorem allocate_le {attempts next : Nat} (h : next ≤ uint32Max) : (allocate inUse attempts next).2 ≤ uint32Max := by
  induction attempts generalizing next with
  | zero => exact h
  | succ attempts ih =>
    simp only [allocate]
    split
    · exact nextId_le h
    · exact ih (nextId_le h)

theorem roomForContact_counters : (roomForContact s).1.nextContactId = s.nextContactId ∧
    (roomForContact s).1.nextEndpointId = s.nextEndpointId := by
  have evicted : (evictOldest s).1.nextContactId = s.nextContactId ∧
      (evictOldest s).1.nextEndpointId = s.nextEndpointId := by
    unfold evictOldest
    split
    · exact ⟨rfl, rfl⟩
    · exact (removeContact_counters _).2
  unfold roomForContact
  split
  · exact ⟨rfl, rfl⟩
  · split
    · exact evicted
    · exact ⟨rfl, rfl⟩

theorem Numbered.discover (h : Numbered s) (request : Discovery) (address metadata : List UInt8)
    (now : Nat) : Numbered (discover s request address metadata now).1 := by
  obtain ⟨contact, endpoint⟩ := roomForContact_counters (s := s)
  have room : Numbered (roomForContact s).1 := ⟨contact ▸ h.contact, endpoint ▸ h.endpoint⟩
  simp only [Contacts.discover]
  split
  · split
    · exact ⟨allocate_le room.contact, allocate_le room.endpoint⟩
    · exact ⟨allocate_le room.contact, allocate_le room.endpoint⟩
  · exact room

theorem Numbered.call (h : Numbered s) (c : Call) (now : Nat) : Numbered (call s c now) := by
  cases c with
  | upsertDiscovered request =>
    simp only [Contacts.call, upsertDiscovered]
    split
    · exact h
    · split
      · split
        · unfold refresh
          split <;> exact ⟨h.contact, h.endpoint⟩
        · exact h
      · exact h.discover _ _ _ _
  | rename id displayName =>
    simp only [Contacts.call, rename]
    split
    · exact h
    · split
      · exact h
      · split
        · exact ⟨h.contact, h.endpoint⟩
        · exact h
  | setTrust contactId endpointId trust =>
    simp only [Contacts.call, setTrust]
    split
    · exact h
    · split
      · exact h
      · split
        · exact h
        · split
          · exact h
          · exact ⟨h.contact, h.endpoint⟩
  | remove id =>
    simp only [Contacts.call, remove]
    split
    · exact h
    · split
      · obtain ⟨-, contact, endpoint⟩ := removeContact_counters (s := s) id
        exact ⟨contact.le.trans h.contact, endpoint.le.trans h.endpoint⟩
      · exact h
  | link targetId sourceId =>
    simp only [Contacts.call, link]
    split
    · exact h
    · split
      · exact ⟨h.contact, h.endpoint⟩
      · exact h

theorem allocate_none {attempts next : Nat} (nonzero : next ≠ 0) (h : (allocate inUse attempts next).1 = 0) :
    ∀ k < attempts, inUse (nextId^[k] next) = true := by
  induction attempts generalizing next with
  | zero => nofun
  | succ attempts ih =>
    simp only [allocate] at h
    split at h
    · exact absurd h nonzero
    · rename_i taken
      intro k hk
      cases k with
      | zero => simpa [nonzero] using taken
      | succ k =>
        rw [Function.iterate_succ_apply]
        exact ih (nextId_ne_zero next) h k (by omega)

theorem iterate_nextId {next : Nat} (bounded : next ≤ uint32Max) {k : Nat} (few : k < uint32Max) :
    nextId^[k] next = if next + k ≤ uint32Max then next + k else next + k - uint32Max := by
  induction k with
  | zero => simp [bounded]
  | succ k ih =>
    rw [Function.iterate_succ_apply', ih (by omega)]
    unfold nextId uint32Max at *
    split <;> split <;> split <;> omega

theorem allocate_succeeds {n : Nat} {α : Type} {slots : Slots n α} {id : α → Nat}
    {next : Nat} (nonzero : next ≠ 0) (bounded : next ≤ uint32Max) (few : n < uint32Max)
    (held : ∀ k, inUse k = true → ∃ i a, slots i = some a ∧ id a = k) : (allocate inUse (n + 1) next).1 ≠ 0 := by
  intro none
  have taken : ∀ k : Fin (n + 1), ∃ i a, slots i = some a ∧ id a = nextId^[k.val] next :=
    fun k => held _ (allocate_none nonzero none k.val k.isLt)
  choose place record hplace hrecord using taken
  have injective : Function.Injective place := by
    intro j k same
    have records : record j = record k := by
      have := hplace j
      rw [same, hplace k] at this
      exact (Option.some.inj this).symm
    have ids := (hrecord j).symm.trans ((congrArg id records).trans (hrecord k))
    rw [iterate_nextId bounded (by omega), iterate_nextId bounded (by omega)] at ids
    unfold uint32Max at *
    ext
    split at ids <;> split at ids <;> omega
  have := Fintype.card_le_of_injective place injective
  rw [Fintype.card_fin, Fintype.card_fin] at this
  omega

theorem findContact_isSome {k : Nat} (h : (findContact s k).isSome = true) :
    ∃ i c, s.contacts i = some c ∧ c.id = k := by
  obtain ⟨i, found⟩ := Option.isSome_iff_exists.mp h
  obtain ⟨c, hc, same, -⟩ := findContact_some found
  exact ⟨i, c, hc, same⟩

theorem findEndpointId_isSome {k : Nat} (h : (findEndpointId s k).isSome = true) :
    ∃ j e, s.endpoints j = some e ∧ e.id = k := by
  obtain ⟨j, found⟩ := Option.isSome_iff_exists.mp h
  unfold findEndpointId at found
  split at found
  · cases found
  · obtain ⟨e, he, same⟩ := Slots.find_some found
    exact ⟨j, e, he, of_decide_eq_true same⟩

theorem Consistent.evicted_room (h : Consistent s) (evicted : (Contacts.evictOldest s).2 = true) :
    (∃ i, (Contacts.evictOldest s).1.contacts.free = some i) ∧
      ∃ j, (Contacts.evictOldest s).1.endpoints.free = some j := by
  unfold Contacts.evictOldest at evicted ⊢
  cases oldest : oldestEvictable s with
  | none => simp [oldest] at evicted
  | some o =>
    obtain ⟨i, hc, -⟩ := oldestEvictable_some oldest
    obtain ⟨j, e, he, home⟩ := h.reached i o.1 hc
    show (∃ k, (Contacts.removeContact s o.1.id).contacts.free = some k) ∧
      ∃ k, (Contacts.removeContact s o.1.id).endpoints.free = some k
    unfold Contacts.removeContact
    rw [h.findContact_eq hc]
    constructor
    · cases full : (s.contacts.clear i).free with
      | some k => exact ⟨k, rfl⟩
      | none =>
        obtain ⟨c, held⟩ := Slots.free_none full i
        simp at held
    · cases full : (s.endpoints.drop fun e => decide (e.contactId = o.1.id)).free with
      | some k => exact ⟨k, rfl⟩
      | none =>
        obtain ⟨f, hf⟩ := Slots.free_none full j
        obtain ⟨same, kept⟩ := Slots.drop_some.mp hf
        rw [he] at same
        cases same
        simp [home] at kept

theorem Consistent.roomForContact_full (h : Consistent s) (full : (Contacts.roomForContact s).2 = none ∨
      (Contacts.roomForContact s).1.endpoints.free = none) : (Contacts.roomForContact s).1 = s := by
  unfold Contacts.roomForContact at full ⊢
  split
  · rfl
  · rename_i noSlot
    rw [noSlot] at full
    split
    · rename_i evicted
      obtain ⟨⟨i, hi⟩, j, hj⟩ := h.evicted_room evicted
      simp [evicted, hi, hj] at full
    · rfl

variable {request : Discovery}

theorem Consistent.discover_refused (h : Consistent s) (storable : Storable s) (numbered : Numbered s)
    {address metadata : List UInt8} {now : Nat} {error : EspErr}
    (refused : (Contacts.discover s request address metadata now).2 = .error error) :
    (Contacts.discover s request address metadata now).1 = s := by
  have room := storable.roomForContact
  obtain ⟨contactNext, endpointNext⟩ := roomForContact_counters (s := s)
  have contactId : (allocateId (Contacts.roomForContact s).1).2 ≠ 0 :=
    allocate_succeeds room.nextContactId (contactNext ▸ numbered.contact) (by decide)
      fun k => findContact_isSome
  have endpointId : (allocateEndpointId (allocateId (Contacts.roomForContact s).1).1).2 ≠ 0 :=
    allocate_succeeds room.nextEndpointId (endpointNext ▸ numbered.endpoint) (by decide)
      fun k => findEndpointId_isSome
  have full := h.roomForContact_full
  simp only [Contacts.discover] at refused ⊢
  cases hi : (Contacts.roomForContact s).2 with
  | none =>
    exact full (.inl hi)
  | some i =>
    cases hj : (Contacts.roomForContact s).1.endpoints.free with
    | none => exact full (.inr hj)
    | some j =>
      simp only [hi, hj, contactId, endpointId, or_self, if_false] at refused
      cases refused

theorem refresh_ok {metadata : List UInt8} {now : Nat} {j : Fin endpointCapacity} {e : Endpoint} :
    ∃ ids, (refresh s request metadata now j e).2 = .ok ids := by
  unfold refresh
  split <;> exact ⟨_, rfl⟩

theorem Consistent.upsert_refused (h : Consistent s) (storable : Storable s) (numbered : Numbered s)
    {now : Nat} {r : State × Except EspErr (Nat × Nat)}
    (made : Contacts.upsertDiscovered s request now = r) : (∃ ids, r.2 = .ok ids) ∨ r.1 = s := by
  unfold Contacts.upsertDiscovered at made
  split at made
  · subst made
    exact .inr rfl
  · split at made
    · split at made
      · subst made
        exact .inl refresh_ok
      · subst made
        exact .inr rfl
    · subst made
      rename_i address metadata _ _ _
      cases result : (Contacts.discover s request address metadata now).2 with
      | ok ids => exact .inl ⟨ids, rfl⟩
      | error error => exact .inr (h.discover_refused storable numbered result)

variable {r : State × EspErr}

theorem rename_refused {id now : Nat} {displayName : Option CString} (made : rename s id displayName now = r) :
    r.2 = .ok ∨ r.1 = s := by
  unfold rename at made
  split at made
  · subst made
    exact .inr rfl
  · split at made
    · subst made
      exact .inr rfl
    · split at made
      · subst made
        exact .inl rfl
      · subst made
        exact .inr rfl

theorem setTrust_refused {contactId endpointId now : Nat} {trust : Option Trust}
    (made : setTrust s contactId endpointId trust now = r) : r.2 = .ok ∨ r.1 = s := by
  unfold setTrust at made
  split at made
  · subst made
    exact .inr rfl
  · split at made
    · subst made
      exact .inr rfl
    · split at made
      · subst made
        exact .inr rfl
      · simp only at made
        split at made
        · subst made
          exact .inr rfl
        · subst made
          exact .inl rfl

theorem remove_refused {id : Nat} (made : remove s id = r) : r.2 = .ok ∨ r.1 = s := by
  unfold remove at made
  split at made
  · subst made
    exact .inr rfl
  · split at made
    · subst made
      exact .inl rfl
    · subst made
      exact .inr rfl

theorem link_refused {targetId sourceId now : Nat} (made : link s targetId sourceId now = r) : r.2 = .ok ∨ r.1 = s := by
  unfold link at made
  split at made
  · subst made
    exact .inr rfl
  · split at made
    · subst made
      exact .inl rfl
    · subst made
      exact .inr rfl

theorem Consistent.call_refused (h : Consistent s) (storable : Storable s) (numbered : Numbered s)
    (c : Call) (now : Nat) (refused : callResult s c now ≠ .ok) : Contacts.call s c now = s := by
  cases c with
  | upsertDiscovered request =>
    rcases h.upsert_refused storable numbered (Eq.refl (Contacts.upsertDiscovered s request now)) with ⟨ids, ok⟩ | same
    · exact absurd (by simp only [callResult, ok]) refused
    · exact same
  | rename id displayName => exact (rename_refused rfl).resolve_left refused
  | setTrust contactId endpointId trust => exact (setTrust_refused rfl).resolve_left refused
  | remove id => exact (remove_refused rfl).resolve_left refused
  | link targetId sourceId => exact (link_refused rfl).resolve_left refused

end SolarOs.Contacts
