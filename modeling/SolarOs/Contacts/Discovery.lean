import Mathlib.Data.Fintype.EquivFin
import SolarOs.Contacts.Eviction

/-! When an address that is not known finds room in the two tables. -/
namespace SolarOs.Contacts
open Function List Option

variable {s t : State} {request : Discovery} {address metadata : List UInt8} {now : Nat}

/-- A contact that is stored and may be evicted: not pinned, all endpoints only discovered. -/
structure Evictable (s : State) (contact : Contact) : Prop where
  held : s.contacts.Holds contact
  unpinned : contact.pinned = false
  discovered : ∀ j e, s.endpoints j = some e → e.contactId = contact.id → e.trust = .discovered

/-- Contacts go one after another: each because a table is full, each the oldest of those
that may go. -/
inductive Evictions : State → List Contact → State → Prop where
  | none {s : State} : Evictions s [] s
  | evict {s t : State} {contact : Contact} {others : List Contact}
      (full : s.contacts.free = none ∨ s.endpoints.free = none)
      (evictable : Evictable s contact) (oldest : ∀ c, Evictable s c → contact.updatedMs ≤ c.updatedMs)
      (rest : Evictions { removeContact s contact.id with evicted := (s.evicted + 1) % 4294967296 } others t) :
      Evictions s (contact :: others) t

/-- A contact and its endpoint are in slots that were free, under ids that were not in use. -/
structure Created (s t : State) (request : Discovery) (address metadata : List UInt8) (now contactId endpointId : Nat) :
    Prop where
  numbered : contactId ≠ 0 ∧ endpointId ≠ 0
  contactFresh : ∀ i c, s.contacts i = some c → c.id ≠ contactId
  endpointFresh : ∀ j e, s.endpoints j = some e → e.id ≠ endpointId
  contact : ∃ i, s.contacts i = none ∧
    t.contacts = s.contacts.put i ⟨contactId, 0, seenAt request now, seenAt request now, contactName request address⟩
  endpoint : ∃ j, s.endpoints j = none ∧ t.endpoints = s.endpoints.put j
    ⟨endpointId, contactId, request.provider, .discovered, request.capabilities, seenAt request now, address, metadata⟩
  counts : t.contactCount = s.contactCount + 1 ∧ t.endpointCount = s.endpointCount + 1

/-- The contact and the endpoint are created after no more evictions than needed, or there
is no memory and nothing to evict. -/
def Discovers (s : State) (request : Discovery) (address metadata : List UInt8) (now : Nat) : Prop :=
  ((upsertDiscovered s request now).2 = .error .noMem → ∀ c, ¬Evictable s c) ∧
    ((upsertDiscovered s request now).2 ≠ .error .noMem →
      ∃ evicted u contactId endpointId, Evictions s evicted u ∧
        (upsertDiscovered s request now).2 = .ok (contactId, endpointId) ∧
        Created u (upsertDiscovered s request now).1 request address metadata now contactId endpointId)

theorem nextId_iterate (next : Nat) {k : Nat} (small : k ≤ 1000) :
    nextId^[k] next = if next ≤ uint32Max ∧ uint32Max < next + k then next + k - uint32Max else next + k := by
  induction k with
  | zero =>
    rw [iterate_zero, id, if_neg (by omega), add_zero]
  | succ k ih =>
    rw [iterate_succ_apply', ih (by omega)]
    unfold nextId
    have wide : uint32Max = 4294967295 := rfl
    split <;> split <;> split <;> omega

theorem allocate_zero {inUse : Nat → Bool} {attempts next : Nat} (none : (allocate inUse attempts next).1 = 0)
    {k : Nat} (tried : k < attempts) (nonzero : nextId^[k] next ≠ 0) : inUse (nextId^[k] next) = true := by
  induction attempts generalizing next k with
  | zero => exact absurd tried (Nat.not_lt_zero k)
  | succ attempts ih =>
    rw [allocate] at none
    split at none
    · rename_i free
      rw [Bool.and_eq_true] at free
      exact absurd none (of_decide_eq_true free.1)
    · rename_i taken
      cases k with
      | zero => simpa [show next ≠ 0 from nonzero] using taken
      | succ k =>
        rw [iterate_succ_apply] at nonzero ⊢
        exact ih none (Nat.lt_of_succ_lt_succ tried) nonzero

theorem allocate_some {α : Type} {n : Nat} {table : Slots n α} {key : α → Nat} {i : Fin n} (free : table i = none)
    (small : n ≤ 999) {inUse : Nat → Bool} (honest : ∀ id, id ≠ 0 → inUse id = true → ∃ j a, table j = some a ∧ key a = id)
    (next : Nat) : (allocate inUse (n + 1) next).1 ≠ 0 := by
  intro none
  have positive : nextId next ≠ 0 := by unfold nextId; split <;> omega
  have used : ∀ k : Fin n, ∃ j a, table j = some a ∧ key a = nextId^[k.val] (nextId next) := by
    intro k
    have nonzero : nextId^[k.val] (nextId next) ≠ 0 := by
      rw [nextId_iterate _ (by omega)]
      split <;> omega
    refine honest _ nonzero ?_
    rw [← iterate_succ_apply] at nonzero ⊢
    exact allocate_zero none (Nat.succ_lt_succ k.isLt) nonzero
  choose slot record there named using used
  have injective : Function.Injective slot := by
    intro k l same
    have equal : nextId^[k.val] (nextId next) = nextId^[l.val] (nextId next) := by
      rw [← named k, ← named l]
      refine congrArg key (Option.some.inj ?_)
      rw [← there k, ← there l, same]
    have wide : uint32Max = 4294967295 := rfl
    rw [nextId_iterate _ (by omega), nextId_iterate _ (by omega)] at equal
    apply Fin.ext
    split at equal <;> split at equal <;> omega
  obtain ⟨k, here⟩ := Finite.surjective_of_injective injective i
  have taken := there k
  rw [here, free] at taken
  cases taken

variable {i : Fin contactCapacity} {j : Fin endpointCapacity}

theorem allocateId_nonzero (free : s.contacts i = none) : (allocateId s).2 ≠ 0 := by
  refine @allocate_some Contact contactCapacity s.contacts Contact.id i free (by decide) _ ?_ s.nextContactId
  intro id _ used
  obtain ⟨j, found⟩ := isSome_iff_exists.mp used
  obtain ⟨c, hc, same, -⟩ := findContact_some found
  exact ⟨j, c, hc, same⟩

theorem allocateEndpointId_nonzero (free : s.endpoints j = none) : (allocateEndpointId s).2 ≠ 0 := by
  refine @allocate_some Endpoint endpointCapacity s.endpoints Endpoint.id j free (by decide) _ ?_ s.nextEndpointId
  intro id nonzero used
  obtain ⟨k, found⟩ := isSome_iff_exists.mp used
  rw [findEndpointId, if_neg nonzero] at found
  obtain ⟨e, he, same⟩ := Slots.find_some found
  exact ⟨k, e, he, of_decide_eq_true same⟩

theorem Consistent.contactIsEvictable_iff (h : Consistent s) {contact : Contact} (hc : s.contacts i = some contact) :
    contactIsEvictable s contact.id = true ↔ Evictable s contact := by
  constructor
  · intro evictable
    obtain ⟨unpinned, discovered⟩ := h.evictable hc evictable
    exact ⟨⟨i, hc⟩, unpinned, discovered⟩
  · rintro ⟨-, unpinned, discovered⟩
    simp only [contactIsEvictable, h.findContact_eq hc, bind_some, hc, unpinned, Bool.not_false, Bool.true_and]
    cases found : s.endpoints.find fun e => e.contactId = contact.id ∧ e.trust ≠ .discovered with
    | none => rfl
    | some j =>
      obtain ⟨e, he, known⟩ := Slots.find_some found
      obtain ⟨mine, trusted⟩ := of_decide_eq_true known
      exact absurd (discovered j e he mine) trusted

/-- What has been found of the contacts in the slots that were looked at. -/
structure Oldest (s : State) (seen : List (Fin contactCapacity)) (found : Option (Contact × Nat)) : Prop where
  none : found = none → ∀ i ∈ seen, ∀ c, s.contacts i = some c → contactIsEvictable s c.id = false
  some : ∀ o, found = some o → (∃ i, s.contacts i = some o.1 ∧ contactIsEvictable s o.1.id = true) ∧ o.2 = o.1.updatedMs ∧
    ∀ i ∈ seen, ∀ c, s.contacts i = some c → contactIsEvictable s c.id = true → o.2 ≤ c.updatedMs

theorem oldestEvictable_oldest : Oldest s (List.finRange contactCapacity) (oldestEvictable s) := by
  unfold oldestEvictable
  induction List.finRange contactCapacity using List.reverseRecOn with
  | nil => exact ⟨nofun, nofun⟩
  | append_singleton seen i ih =>
    rw [foldl_append, foldl_cons, foldl_nil]
    generalize seen.foldl _ _ = found at ih ⊢
    obtain ⟨noneSeen, oldest⟩ := ih
    cases hc : s.contacts i with
    | none =>
      refine ⟨fun is j there c hj => ?_, fun o is => ⟨(oldest o is).1, (oldest o is).2.1, fun j there c hj => ?_⟩⟩
      all_goals
        rcases mem_append.mp there with before | last
        · first
          | exact noneSeen is j before c hj
          | exact (oldest o is).2.2 j before c hj
        · rw [mem_singleton.mp last, hc] at hj
          cases hj
    | some contact =>
      dsimp only
      split
      · rename_i better
        obtain ⟨evictable, older⟩ := Bool.and_eq_true_iff.mp better
        refine ⟨nofun, fun o is => ?_⟩
        cases is
        refine ⟨⟨i, hc, evictable⟩, rfl, fun j there c hj may => ?_⟩
        rcases mem_append.mp there with before | last
        · cases found with
          | none => exact absurd may (by rw [noneSeen rfl j before c hj]; decide)
          | some o =>
            have less : contact.updatedMs < o.2 := by simpa using older
            exact le_trans (le_of_lt less) ((oldest o rfl).2.2 j before c hj may)
        · rw [mem_singleton.mp last, hc] at hj
          cases hj
          exact le_rfl
      · rename_i worse
        rw [Bool.and_eq_true, not_and] at worse
        refine ⟨fun is j there c hj => ?_, fun o is => ⟨(oldest o is).1, (oldest o is).2.1, fun j there c hj may => ?_⟩⟩
        · rcases mem_append.mp there with before | last
          · exact noneSeen is j before c hj
          · rw [mem_singleton.mp last, hc] at hj
            cases hj
            by_contra may
            exact worse (Bool.eq_true_of_not_eq_false may) (by rw [is]; rfl)
        · rcases mem_append.mp there with before | last
          · exact (oldest o is).2.2 j before c hj may
          · rw [mem_singleton.mp last, hc] at hj
            cases hj
            have newer := worse may
            rw [is] at newer
            simpa using newer

theorem Consistent.oldestEvictable_none (h : Consistent s) (none : oldestEvictable s = none) (c : Contact) :
    ¬Evictable s c := by
  intro evictable
  obtain ⟨i, hc⟩ := evictable.held
  have not := oldestEvictable_oldest.none none i (mem_finRange i) c hc
  rw [(h.contactIsEvictable_iff hc).mpr evictable] at not
  cases not

theorem Consistent.oldestEvictable_evicts (h : Consistent s) {oldest : Contact × Nat}
    (found : oldestEvictable s = some oldest) :
    Evictable s oldest.1 ∧ ∀ c, Evictable s c → oldest.1.updatedMs ≤ c.updatedMs := by
  obtain ⟨⟨i, hc, may⟩, time, least⟩ := oldestEvictable_oldest.some oldest found
  refine ⟨(h.contactIsEvictable_iff hc).mp may, fun c evictable => ?_⟩
  obtain ⟨j, hj⟩ := evictable.held
  rw [← time]
  exact least j (mem_finRange j) c hj ((h.contactIsEvictable_iff hj).mpr evictable)

theorem Consistent.removeContact_frees (h : Consistent s) {c : Contact} (hc : s.contacts i = some c) :
    (Contacts.removeContact s c.id).contacts i = none ∧ ∃ j, (Contacts.removeContact s c.id).endpoints j = none := by
  obtain ⟨j, e, he, home⟩ := h.reached i c hc
  unfold Contacts.removeContact
  rw [h.findContact_eq hc]
  refine ⟨Slots.clear_same i, j, ?_⟩
  show (s.endpoints j).filter _ = none
  rw [he, filter_some, if_neg]
  simpa using home

theorem free_isSome {α : Type} {n : Nat} {table : Slots n α} {i : Fin n} (hole : table i = none) :
    ∃ j, table.free = some j := by
  cases found : table.free with
  | some j => exact ⟨j, rfl⟩
  | none =>
    obtain ⟨a, taken⟩ := Slots.free_none found i
    rw [hole] at taken
    cases taken

theorem insert_created (contactFree : s.contacts i = none) (endpointFree : s.endpoints j = none)
    (request : Discovery) (address metadata : List UInt8) (now : Nat) :
    let numbered := allocateEndpointId (allocateId s).1
    (allocateId s).2 ≠ 0 ∧ numbered.2 ≠ 0 ∧
      Created s (insertContact numbered.1 request address metadata now i j (allocateId s).2 numbered.2) request address
        metadata now (allocateId s).2 numbered.2 := by
  have contactNonzero := allocateId_nonzero contactFree
  have endpointNonzero : (allocateEndpointId (allocateId s).1).2 ≠ 0 := @allocateEndpointId_nonzero (allocateId s).1 j endpointFree
  refine ⟨contactNonzero, endpointNonzero, ⟨contactNonzero, endpointNonzero⟩, ?_, ?_, ⟨i, contactFree, rfl⟩,
    ⟨j, endpointFree, rfl⟩, rfl, rfl⟩
  · intro k c hc
    exact allocateId_fresh contactNonzero hc
  · intro k e he
    exact allocateEndpointId_fresh (s := (allocateId s).1) endpointNonzero he

theorem upsertDiscovered_unknown (valid : discoveryValid request = some (address, metadata))
    (unknown : findEndpointAddress s request.provider address = none) :
    upsertDiscovered s request now = discover s request address metadata now := by
  rw [upsertDiscovered, valid]
  dsimp only
  rw [unknown]

theorem discovers_created {u : State} {evicted : List Contact}
    (valid : discoveryValid request = some (address, metadata))
    (unknown : findEndpointAddress s request.provider address = none) (evictions : Evictions s evicted u)
    (room : roomForContact s = (u, some i)) (endpoint : u.endpoints.free = some j) :
    Discovers s request address metadata now := by
  have contactFree : u.contacts i = none := by
    have free := @roomForContact_free s i (by rw [room])
    rwa [room] at free
  obtain ⟨contactNonzero, endpointNonzero, created⟩ := insert_created contactFree (Slots.free_some endpoint) request address
    metadata now
  have made : upsertDiscovered s request now = (insertContact (allocateEndpointId (allocateId u).1).1 request address metadata
      now i j (allocateId u).2 (allocateEndpointId (allocateId u).1).2,
      .ok ((allocateId u).2, (allocateEndpointId (allocateId u).1).2)) := by
    rw [upsertDiscovered_unknown valid unknown, discover, room]
    dsimp only
    rw [endpoint]
    exact if_neg (not_or.mpr ⟨contactNonzero, endpointNonzero⟩)
  unfold Discovers
  rw [made]
  refine ⟨by simp, fun _ => ?_⟩
  exact ⟨evicted, u, _, _, evictions, rfl, created⟩

/-- An unknown address is refused only when nothing can be evicted, or else stored after no
more evictions than needed, unless a contact slot is free and the endpoints are full: then
nothing is evicted. -/
theorem discovers_iff (h : Consistent s) (valid : discoveryValid request = some (address, metadata))
    (unknown : findEndpointAddress s request.provider address = none) (now : Nat) :
    Discovers s request address metadata now ↔
      s.endpoints.free ≠ none ∨ s.contacts.free = none ∨ ∀ c, ¬Evictable s c := by
  cases contact : s.contacts.free with
  | some i =>
    have room : roomForContact s = (s, some i) := by rw [roomForContact, contact]
    cases endpoint : s.endpoints.free with
    | some j =>
      refine iff_of_true (discovers_created valid unknown .none room endpoint) (.inl ?_)
      exact some_ne_none j
    | none =>
      have refused : upsertDiscovered s request now = (s, .error .noMem) := by
        rw [upsertDiscovered_unknown valid unknown, discover, room]
        dsimp only
        rw [endpoint]
      unfold Discovers
      rw [refused]
      constructor
      · intro claimed
        exact .inr (.inr (claimed.1 rfl))
      · rintro (free | full | nobody)
        · exact absurd rfl free
        · cases full
        · exact ⟨fun _ => nobody, fun stored => absurd rfl stored⟩
  | none =>
    refine iff_of_true ?_ (.inr (.inl rfl))
    cases found : oldestEvictable s with
    | none =>
      have refused : upsertDiscovered s request now = (s, .error .noMem) := by
        rw [upsertDiscovered_unknown valid unknown, discover, roomForContact, contact]
        simp only [evictOldest, found]
        rfl
      unfold Discovers
      rw [refused]
      exact ⟨fun _ => h.oldestEvictable_none found, fun stored => absurd rfl stored⟩
    | some oldest =>
      obtain ⟨evictable, least⟩ := h.oldestEvictable_evicts found
      obtain ⟨k, hk⟩ := evictable.held
      obtain ⟨contactHole, j, endpointHole⟩ := h.removeContact_frees hk
      obtain ⟨i, contactFree⟩ := free_isSome contactHole
      obtain ⟨j, endpointFree⟩ := free_isSome endpointHole
      have evicts : evictOldest s = ({ removeContact s oldest.1.id with evicted := (s.evicted + 1) % 4294967296 }, true) := by
        rw [evictOldest, found]
      have room : roomForContact s =
          ({ removeContact s oldest.1.id with evicted := (s.evicted + 1) % 4294967296 }, some i) := by
        rw [roomForContact, contact, evicts]
        exact congrArg (Prod.mk _) contactFree
      exact discovers_created valid unknown (.evict (.inl contact) evictable least .none) room endpointFree

/-- A contact that was discovered under one address and linked to all others. -/
def crowded : State where
  generation := 1
  nextContactId := 81
  nextEndpointId := 81
  evicted := 0
  contactCount := 1
  endpointCount := 80
  contacts := fun i => if i.val = 0 then some ⟨1, 0, 1, 1, CString.ofBytes [0x61]⟩ else none
  endpoints := fun j => some ⟨j + 1, 1, 3, .discovered, 0, 1, [UInt8.ofNat j], []⟩

def stranger : Discovery := ⟨3, .bytes [80], none, 0, 1, .null 0⟩

theorem crowded_contact {c : Contact} (hc : crowded.contacts i = some c) :
    i.val = 0 ∧ c = ⟨1, 0, 1, 1, CString.ofBytes [0x61]⟩ := by
  have shape : (if i.val = 0 then some (⟨1, 0, 1, 1, CString.ofBytes [0x61]⟩ : Contact) else none) = some c := hc
  split at shape
  · rename_i first
    exact ⟨first, (Option.some.inj shape).symm⟩
  · cases shape

theorem crowded_endpoint {e : Endpoint} (he : crowded.endpoints j = some e) :
    e = ⟨j + 1, 1, 3, .discovered, 0, 1, [UInt8.ofNat j], []⟩ := (Option.some.inj he).symm

theorem crowded_consistent : Consistent crowded where
  homed := by
    intro j e he
    rw [crowded_endpoint he]
    exact ⟨⟨0, by decide⟩, _, rfl, rfl⟩
  reached := by
    intro i c hc
    rw [(crowded_contact hc).2]
    exact ⟨⟨0, by decide⟩, _, rfl, rfl⟩
  addresses := by
    intro j k e f he hf same
    rw [crowded_endpoint he, crowded_endpoint hf] at same
    have bytes : UInt8.ofNat j = UInt8.ofNat k := head_eq_of_cons_eq (Prod.mk.inj same).2
    have numbers := congrArg UInt8.toNat bytes
    rw [UInt8.toNat_ofNat', UInt8.toNat_ofNat'] at numbers
    have capacity : endpointCapacity = 80 := rfl
    exact Fin.ext (by omega)
  contactIds := by
    intro i k c d hc hd _
    exact Fin.ext ((crowded_contact hc).1.trans (crowded_contact hd).1.symm)
  endpointIds := by
    intro j k e f he hf same
    rw [crowded_endpoint he, crowded_endpoint hf] at same
    exact Fin.ext (Nat.succ.inj same)
  contactNumbered := by
    intro i c hc
    rw [(crowded_contact hc).2]
    decide
  endpointNumbered := by
    intro j e he
    rw [crowded_endpoint he]
    exact Nat.succ_ne_zero _
  contactCount := by decide
  endpointCount := by decide

theorem stranger_refused : ¬∀ (s : State) (request : Discovery) (address metadata : List UInt8) (now : Nat), Consistent s →
    discoveryValid request = some (address, metadata) → findEndpointAddress s request.provider address = none →
    Discovers s request address metadata now := by
  intro claimed
  have full : crowded.endpoints.free = none := by decide
  have discovers := claimed crowded stranger [80] [] 1 crowded_consistent (by decide) (by decide)
  have refused : (upsertDiscovered crowded stranger 1).2 = .error .noMem := by
    have valid : discoveryValid stranger = some ([80], []) := by decide
    have unknown : findEndpointAddress crowded stranger.provider [80] = none := by decide
    rw [upsertDiscovered_unknown valid unknown, discover]
    have room : roomForContact crowded = (crowded, some ⟨1, by decide⟩) := rfl
    rw [room]
    dsimp only
    rw [full]
  refine discovers.1 refused ⟨1, 0, 1, 1, CString.ofBytes [0x61]⟩ ⟨⟨⟨0, by decide⟩, rfl⟩, by decide, ?_⟩
  intro j e he _
  rw [crowded_endpoint he]

theorem discovers_iff_first : discoveryValid stranger = some ([80], []) ∧ (Discovers initial stranger [80] [] 1 ↔
      initial.endpoints.free ≠ none ∨ initial.contacts.free = none ∨ ∀ c, ¬Evictable initial c) :=
  ⟨by decide, discovers_iff initial_consistent (by decide) (by decide) 1⟩

end SolarOs.Contacts
