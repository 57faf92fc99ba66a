import SolarOs.Contacts.Consistent

/-! What the tables hold fits their record on disk, and comes back from it unchanged. -/
namespace SolarOs.Contacts
open Slots

variable {s : State}

structure Storable (s : State) : Prop where
  generation : s.generation ≠ 0
  nextContactId : s.nextContactId ≠ 0
  nextEndpointId : s.nextEndpointId ≠ 0
  names : ∀ i c, s.contacts i = some c → c.displayName.strlen ≤ nameMax
  endpoints : ∀ j e, s.endpoints j = some e → providerValid e.provider = true ∧
    e.address.length ≠ 0 ∧ e.address.length ≤ addressMax ∧
    e.providerMetadata.length ≤ providerMetadataMax

theorem initial_storable : Storable initial where
  generation := by decide
  nextContactId := by decide
  nextEndpointId := by decide
  names := nofun
  endpoints := nofun

theorem nextGeneration_ne_zero (generation : Nat) : nextGeneration generation ≠ 0 := by
  unfold nextGeneration
  split
  · assumption
  · decide

theorem strlcpy_fits (name : CString) : (name.strlcpy (nameMax + 1)).strlen ≤ nameMax := by
  simp only [CString.strlcpy, CString.strlen, List.length_take]
  omega

theorem contactName_fits (request : Discovery) (address : List UInt8) :
    (contactName request address).strlen ≤ nameMax := by
  unfold contactName
  split
  · split
    · exact strlcpy_fits _
    · exact strlcpy_fits _
  · exact strlcpy_fits _

theorem nextId_ne_zero (id : Nat) : nextId id ≠ 0 := by
  unfold nextId
  split
  · decide
  · exact Nat.succ_ne_zero id

theorem allocate_next {inUse : Nat → Bool} {attempts next : Nat} (h : next ≠ 0) :
    (allocate inUse attempts next).2 ≠ 0 := by
  induction attempts generalizing next with
  | zero => exact h
  | succ attempts ih =>
    simp only [allocate]
    split
    · exact nextId_ne_zero next
    · exact ih (nextId_ne_zero next)

theorem Storable.of_tables (h : Storable s) {t : State} (generation : t.generation ≠ 0)
    (nextContactId : t.nextContactId ≠ 0) (nextEndpointId : t.nextEndpointId ≠ 0)
    (contacts : ∀ i c, t.contacts i = some c →
      c.displayName.strlen ≤ nameMax ∨ ∃ k d, s.contacts k = some d ∧ d.displayName = c.displayName)
    (endpoints : ∀ j e, t.endpoints j = some e →
      (providerValid e.provider = true ∧ e.address.length ≠ 0 ∧ e.address.length ≤ addressMax ∧
        e.providerMetadata.length ≤ providerMetadataMax) ∨
      ∃ k f, s.endpoints k = some f ∧ f.provider = e.provider ∧ f.address = e.address ∧
        f.providerMetadata = e.providerMetadata) : Storable t where
  generation := generation
  nextContactId := nextContactId
  nextEndpointId := nextEndpointId
  names := by
    intro i c hc
    rcases contacts i c hc with fits | ⟨k, d, hd, same⟩
    · exact fits
    · exact same ▸ h.names k d hd
  endpoints := by
    intro j e he
    rcases endpoints j e he with valid | ⟨k, f, hf, provider, address, metadata⟩
    · exact valid
    · rw [← provider, ← address, ← metadata]
      exact h.endpoints k f hf

theorem removeContact_contacts {id : Nat} {i : Fin contactCapacity} {c : Contact}
    (h : (removeContact s id).contacts i = some c) : s.contacts i = some c := by
  unfold removeContact at h
  split at h
  · exact h
  · exact (clear_some.mp h).2

theorem removeContact_endpoints {id : Nat} {j : Fin endpointCapacity} {e : Endpoint}
    (h : (removeContact s id).endpoints j = some e) : s.endpoints j = some e := by
  unfold removeContact at h
  split at h
  · exact h
  · exact (drop_some.mp h).1

theorem removeContact_counters (id : Nat) : (removeContact s id).generation = s.generation ∧
    (removeContact s id).nextContactId = s.nextContactId ∧ (removeContact s id).nextEndpointId = s.nextEndpointId := by
  unfold removeContact
  split <;> exact ⟨rfl, rfl, rfl⟩

theorem Storable.removeContact (h : Storable s) (id : Nat) : Storable (removeContact s id) := by
  obtain ⟨generation, nextContactId, nextEndpointId⟩ := removeContact_counters (s := s) id
  exact h.of_tables (generation ▸ h.generation) (nextContactId ▸ h.nextContactId)
    (nextEndpointId ▸ h.nextEndpointId)
    (fun i c hc => .inr ⟨i, c, removeContact_contacts hc, rfl⟩)
    (fun j e he => .inr ⟨j, e, removeContact_endpoints he, rfl, rfl, rfl⟩)

theorem Storable.roomForContact (h : Storable s) : Storable (roomForContact s).1 := by
  have evicted : Storable (evictOldest s).1 := by
    unfold evictOldest
    split
    · exact h
    · rename_i contact _ _
      have gone := h.removeContact contact.id
      exact ⟨gone.generation, gone.nextContactId, gone.nextEndpointId, gone.names, gone.endpoints⟩
  unfold Contacts.roomForContact
  split
  · exact h
  · split
    · exact evicted
    · exact h

theorem Storable.allocateId (h : Storable s) : Storable (allocateId s).1 :=
  ⟨h.generation, allocate_next h.nextContactId, h.nextEndpointId, h.names, h.endpoints⟩

theorem Storable.allocateEndpointId (h : Storable s) : Storable (allocateEndpointId s).1 :=
  ⟨h.generation, h.nextContactId, allocate_next h.nextEndpointId, h.names, h.endpoints⟩

variable {address metadata : List UInt8}

variable {request : Discovery}

theorem discoveryValid_some (h : discoveryValid request = some (address, metadata)) :
    providerValid request.provider = true ∧ address.length ≠ 0 ∧ address.length ≤ addressMax ∧
      metadata.length ≤ providerMetadataMax := by
  unfold discoveryValid at h
  split at h
  · split at h
    · rename_i valid
      cases h
      exact valid
    · cases h
  · split at h
    · rename_i valid
      cases h
      exact ⟨valid.1, valid.2.1, valid.2.2.1, Nat.zero_le _⟩
    · cases h
  · cases h

theorem Storable.discover (h : Storable s) (now : Nat) (valid : discoveryValid request = some (address, metadata)) :
    Storable (discover s request address metadata now).1 := by
  have room := h.roomForContact
  simp only [Contacts.discover]
  split
  · rename_i i j _ _
    have next := room.allocateId.allocateEndpointId
    split
    · exact next
    · refine next.of_tables (nextGeneration_ne_zero _) next.nextContactId next.nextEndpointId ?_ ?_
      · intro k c hc
        simp only [insertContact, changed, put_apply] at hc
        split at hc
        · cases hc
          exact .inl (contactName_fits request address)
        · exact .inr ⟨k, c, hc, rfl⟩
      · intro k e he
        simp only [insertContact, changed, put_apply] at he
        split at he
        · cases he
          exact .inl (discoveryValid_some valid)
        · exact .inr ⟨k, e, he, rfl, rfl, rfl⟩
  · exact room

theorem Storable.refresh (h : Storable s) (now : Nat)
    (valid : discoveryValid request = some (address, metadata)) {j : Fin endpointCapacity} {e : Endpoint}
    (he : s.endpoints j = some e) : Storable (refresh s request metadata now j e).1 := by
  have endpoints : ∀ f : Endpoint, f.provider = e.provider → f.address = e.address →
      f.providerMetadata = metadata → ∀ k g, s.endpoints.put j f k = some g →
      (providerValid g.provider = true ∧ g.address.length ≠ 0 ∧ g.address.length ≤ addressMax ∧
        g.providerMetadata.length ≤ providerMetadataMax) ∨
      ∃ k f, s.endpoints k = some f ∧ f.provider = g.provider ∧ f.address = g.address ∧
        f.providerMetadata = g.providerMetadata := by
    intro f provider address metadata k g hg
    rw [put_apply] at hg
    split at hg
    · cases hg
      obtain ⟨hprovider, nonempty, fits, -⟩ := h.endpoints j e he
      rw [provider, address, metadata]
      exact .inl ⟨hprovider, nonempty, fits, (discoveryValid_some valid).2.2.2⟩
    · exact .inr ⟨k, g, hg, rfl, rfl, rfl⟩
  unfold Contacts.refresh
  split
  · refine h.of_tables (nextGeneration_ne_zero _) h.nextContactId h.nextEndpointId ?_ (endpoints _ rfl rfl rfl)
    intro k c hc
    simp only [changed, modify_apply] at hc
    split at hc
    · obtain ⟨d, hd, made⟩ := Option.map_eq_some_iff.mp hc
      exact .inr ⟨k, d, hd, by rw [← made]⟩
    · exact .inr ⟨k, c, hc, rfl⟩
  · exact h.of_tables (nextGeneration_ne_zero _) h.nextContactId h.nextEndpointId
      (fun k c hc => .inr ⟨k, c, hc, rfl⟩) (endpoints _ rfl rfl rfl)

theorem modify_names (h : Storable s) (i : Fin contactCapacity) {f : Contact → Contact}
    (keep : ∀ c, c.displayName.strlen ≤ nameMax → (f c).displayName.strlen ≤ nameMax)
    {k : Fin contactCapacity} {c : Contact} (hc : s.contacts.modify i f k = some c) :
    c.displayName.strlen ≤ nameMax := by
  rw [modify_apply] at hc
  split at hc
  · obtain ⟨d, hd, made⟩ := Option.map_eq_some_iff.mp hc
    exact made ▸ keep d (h.names k d hd)
  · exact h.names k c hc

theorem Storable.call (h : Storable s) (c : Call) (now : Nat) : Storable (call s c now) := by
  have same : ∀ j e, s.endpoints j = some e → ∃ k f, s.endpoints k = some f ∧
      f.provider = e.provider ∧ f.address = e.address ∧ f.providerMetadata = e.providerMetadata :=
    fun j e he => ⟨j, e, he, rfl, rfl, rfl⟩
  cases c with
  | upsertDiscovered request =>
    simp only [Contacts.call, upsertDiscovered]
    split
    · exact h
    · rename_i address metadata valid
      split
      · split
        · rename_i he
          exact h.refresh now valid he
        · exact h
      · exact h.discover now valid
  | rename id displayName =>
    simp only [Contacts.call, rename]
    split
    · exact h
    · split
      · exact h
      · split
        · exact h.of_tables (nextGeneration_ne_zero _) h.nextContactId h.nextEndpointId
            (fun _ _ hc => .inl (modify_names h _ (fun _ _ => strlcpy_fits _) hc))
            fun j e he => .inr (same j e he)
        · exact h
  | setTrust contactId endpointId trust =>
    simp only [Contacts.call, setTrust]
    split
    · exact h
    · split
      · exact h
      · split
        · exact h
        · split
          · exact h
          · refine h.of_tables (nextGeneration_ne_zero _) h.nextContactId h.nextEndpointId
              (fun _ _ hc => .inl ?_) fun j e he => .inr ?_
            · refine modify_names h _ ?_ hc
              exact fun _ fits => fits
            · obtain ⟨f, hf, made⟩ := change_some.mp he
              refine ⟨j, f, hf, ?_⟩
              subst made
              split <;> exact ⟨rfl, rfl, rfl⟩
  | remove id =>
    simp only [Contacts.call, remove]
    split
    · exact h
    · split
      · have gone := h.removeContact id
        exact ⟨nextGeneration_ne_zero _, gone.nextContactId, gone.nextEndpointId, gone.names, gone.endpoints⟩
      · exact h
  | link targetId sourceId =>
    simp only [Contacts.call, link]
    split
    · exact h
    · split
      · refine h.of_tables (nextGeneration_ne_zero _) h.nextContactId h.nextEndpointId
          (fun k c hc => .inl ?_) fun j e he => .inr ?_
        · refine modify_names h _ ?_ (clear_some.mp hc).2
          exact fun _ fits => fits
        · obtain ⟨f, hf, made⟩ := change_some.mp he
          refine ⟨j, f, hf, ?_⟩
          subst made
          split <;> exact ⟨rfl, rfl, rfl⟩
      · exact h

theorem Contact.toDisk_eq {c : Contact} (fits : c.displayName.strlen ≤ nameMax) : c.toDisk = c := by
  unfold Contact.toDisk
  rw [CString.strlcpy_of_lt (by omega)]

theorem Endpoint.toDisk_eq {e : Endpoint} (valid : providerValid e.provider = true) : e.toDisk = e := by
  simp only [providerValid, Bool.and_eq_true, decide_eq_true_eq] at valid
  unfold Endpoint.toDisk
  rw [Nat.mod_eq_of_lt (lt_of_le_of_lt valid.2 (by decide))]

theorem map_slots_eq {n : Nat} {α : Type} {s : Slots n α} {f : α → α}
    (same : ∀ i a, s i = some a → f a = a) : (fun i => (s i).map f) = s := by
  funext i
  cases hi : s i with
  | none => rfl
  | some a => exact congrArg some (same i a hi)

theorem Slots.count_le_capacity {n : Nat} {α : Type} (s : Slots n α) : s.count ≤ n := by
  have := Finset.card_le_univ (Finset.univ.filter fun i => (s i).any fun _ => true)
  rwa [Fintype.card_fin] at this

theorem diskToRuntime_runtimeToDisk (storable : Storable s) (consistent : Consistent s) :
    diskToRuntime (runtimeToDisk s) = s := by
  have contacts : (fun i => (s.contacts i).map Contact.toDisk) = s.contacts :=
    map_slots_eq fun i c hc => Contact.toDisk_eq (storable.names i c hc)
  have endpoints : (fun j => (s.endpoints j).map Endpoint.toDisk) = s.endpoints :=
    map_slots_eq fun j e he => Endpoint.toDisk_eq (storable.endpoints j e he).1
  have contactCount : s.contactCount % 65536 = s.contactCount := by
    have := Slots.count_le_capacity s.contacts
    rw [consistent.contactCount]
    exact Nat.mod_eq_of_lt (lt_of_le_of_lt this (by decide))
  have endpointCount : s.endpointCount % 65536 = s.endpointCount := by
    have := Slots.count_le_capacity s.endpoints
    rw [consistent.endpointCount]
    exact Nat.mod_eq_of_lt (lt_of_le_of_lt this (by decide))
  simp only [diskToRuntime, runtimeToDisk, contacts, endpoints, contactCount, endpointCount]

theorem storeDataValid_runtimeToDisk (storable : Storable s) (consistent : Consistent s) :
    storeDataValid (runtimeToDisk s) = true := by
  have contacts : (fun i => (s.contacts i).map Contact.toDisk) = s.contacts :=
    map_slots_eq fun i c hc => Contact.toDisk_eq (storable.names i c hc)
  have endpoints : (fun j => (s.endpoints j).map Endpoint.toDisk) = s.endpoints :=
    map_slots_eq fun j e he => Endpoint.toDisk_eq (storable.endpoints j e he).1
  have contactRoom := Slots.count_le_capacity s.contacts
  have endpointRoom := Slots.count_le_capacity s.endpoints
  have contactCount : s.contacts.count % 65536 = s.contacts.count :=
    Nat.mod_eq_of_lt (lt_of_le_of_lt contactRoom (by decide))
  have endpointCount : s.endpoints.count % 65536 = s.endpoints.count :=
    Nat.mod_eq_of_lt (lt_of_le_of_lt endpointRoom (by decide))
  have validContacts : (s.contacts.find fun c => !diskContactValid c) = none := by
    cases found : s.contacts.find fun c => !diskContactValid c with
    | none => rfl
    | some i =>
      obtain ⟨c, hc, bad⟩ := find_some found
      simp [diskContactValid, consistent.contactNumbered i c hc, storable.names i c hc] at bad
  have validEndpoints : (s.endpoints.find fun e => !diskEndpointValid (runtimeToDisk s) e) = none := by
    cases found : s.endpoints.find fun e => !diskEndpointValid (runtimeToDisk s) e with
    | none => rfl
    | some j =>
      obtain ⟨e, he, bad⟩ := find_some found
      obtain ⟨provider, nonempty, address, metadata⟩ := storable.endpoints j e he
      obtain ⟨i, c, hc, home⟩ := consistent.homed j e he
      have known : diskHasContact (runtimeToDisk s) e.contactId = true := by
        obtain ⟨k, hk⟩ := find_isSome (fun c => decide (c.id = e.contactId)) hc (by simp [home])
        simp only [diskHasContact, runtimeToDisk, contacts, hk, Option.isSome_some]
      simp [diskEndpointValid, consistent.endpointNumbered j e he, known, provider,
        List.length_eq_zero_iff.not.mp nonempty, address, metadata] at bad
  simp only [storeDataValid, runtimeToDisk, contacts, endpoints, consistent.contactCount,
    consistent.endpointCount, contactCount, endpointCount] at validEndpoints ⊢
  simp [storable.generation, storable.nextContactId, storable.nextEndpointId, contactRoom,
    endpointRoom, validContacts, validEndpoints]

end SolarOs.Contacts
