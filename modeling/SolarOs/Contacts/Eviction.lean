import SolarOs.Contacts.Storable

/-! Whom an eviction may take, and the tables after any sequence of calls. -/
namespace SolarOs.Contacts
open Option Machine

variable {s : State}

/-- The contact that a call evicts to make room. -/
def evictee (s : State) : Call → Option Contact
  | .upsertDiscovered request =>
    match discoveryValid request with
    | some (address, _) =>
      if (findEndpointAddress s request.provider address).isNone ∧ s.contacts.free.isNone then
        (oldestEvictable s).map Prod.fst
      else none
    | none => none
  | _ => none

def About (s : State) (contact : Contact) : Call → Prop
  | .upsertDiscovered request => ∃ address metadata, discoveryValid request = some (address, metadata) ∧
      ∃ j e, s.endpoints j = some e ∧ e.contactId = contact.id ∧ e.provider = request.provider ∧
        e.address = address
  | _ => False

/-- A contact that may be evicted: not pinned, never trusted or blocked, not the one the
call is about. -/
structure Spare (s : State) (c : Call) (contact : Contact) : Prop where
  unpinned : contact.pinned = false
  untrusted : ∀ j e, s.endpoints j = some e → e.contactId = contact.id → e.trust = .discovered
  unrelated : ¬About s contact c

def Gone (s : State) (i : Fin contactCapacity) (contact : Contact) : Prop :=
  ∀ c, s.contacts i = some c → c.id ≠ contact.id

theorem oldestEvictable_some {oldest : Contact × Nat} (h : oldestEvictable s = some oldest) :
    ∃ i, s.contacts i = some oldest.1 ∧ contactIsEvictable s oldest.1.id = true := by
  refine run_always (s := none) (P := fun sofar : Option (Contact × Nat) => ∀ o, sofar = some o →
    ∃ i, s.contacts i = some o.1 ∧ contactIsEvictable s o.1.id = true) ?_ nofun _ oldest h
  intro sofar i sound o ho
  cases hc : s.contacts i with
  | none =>
    simp only [hc] at ho
    exact sound o ho
  | some contact =>
    simp only [hc] at ho
    split at ho
    · rename_i better
      cases ho
      exact ⟨i, hc, (Bool.and_eq_true_iff.mp better).1⟩
    · exact sound o ho

variable {i : Fin contactCapacity} {contact : Contact}

theorem Consistent.evictable (h : Consistent s) (hc : s.contacts i = some contact)
    (evictable : contactIsEvictable s contact.id = true) : contact.pinned = false ∧
      ∀ j e, s.endpoints j = some e → e.contactId = contact.id → e.trust = .discovered := by
  simp only [contactIsEvictable, h.findContact_eq hc, bind_some, hc] at evictable
  obtain ⟨unpinned, harmless⟩ := Bool.and_eq_true_iff.mp evictable
  refine ⟨by simpa using unpinned, ?_⟩
  intro j e he mine
  have discovered := Slots.find_none (isNone_iff_eq_none.mp harmless) he
  by_contra known
  exact absurd (decide_eq_true (p := e.contactId = contact.id ∧ e.trust ≠ .discovered)
    ⟨mine, known⟩) (by simpa using discovered)

theorem Consistent.evictee_spare (h : Consistent s) {c : Call} (evicted : evictee s c = some contact) :
    Spare s c contact := by
  cases c with
  | upsertDiscovered request =>
    simp only [evictee] at evicted
    split at evicted
    · rename_i address metadata valid
      split at evicted
      · rename_i needed
        obtain ⟨oldest, found, same⟩ := map_eq_some_iff.mp evicted
        subst same
        obtain ⟨i, hc, evictable⟩ := oldestEvictable_some found
        obtain ⟨unpinned, untrusted⟩ := h.evictable hc evictable
        refine ⟨unpinned, untrusted, ?_⟩
        rintro ⟨address', metadata', valid', j, e, he, -, provider, address_eq⟩
        rw [valid] at valid'
        cases valid'
        have unknown := Slots.find_none (isNone_iff_eq_none.mp needed.1) he
        exact of_decide_eq_false unknown (Prod.ext provider address_eq)
      · cases evicted
    · cases evicted
  | _ => cases evicted

theorem not_gone {t : State} (hc : s.contacts i = some contact)
    (same : (t.contacts i).map Contact.id = (s.contacts i).map Contact.id) : ¬Gone t i contact := by
  intro gone
  rw [hc] at same
  obtain ⟨c, ht, sameId⟩ := map_eq_some_iff.mp same
  exact gone c ht sameId

theorem removeContact_gone {id : Nat} (hc : s.contacts i = some contact)
    (gone : Gone (removeContact s id) i contact) : contact.id = id := by
  unfold removeContact at gone
  split at gone
  · exact absurd rfl (gone contact hc)
  · rename_i k found
    obtain ⟨c, hk, same, -⟩ := findContact_some found
    by_cases here : i = k
    · rw [here, hk] at hc
      cases hc
      exact same
    · exact absurd rfl (gone contact (Slots.clear_some.mpr ⟨here, hc⟩))

theorem Consistent.discover_gone (h : Consistent s) {request : Discovery} {address metadata : List UInt8}
    {now : Nat} (hc : s.contacts i = some contact)
    (gone : Gone (Contacts.discover s request address metadata now).1 i contact) :
    s.contacts.free = none ∧ (oldestEvictable s).map Prod.fst = some contact := by
  have kept : (Contacts.roomForContact s).1.contacts i = some contact → False := by
    intro room
    simp only [Contacts.discover] at gone
    split at gone
    · rename_i k j hk hj
      split at gone
      · exact gone contact room rfl
      · refine gone contact ?_ rfl
        have away : i ≠ k := by
          rintro rfl
          rw [roomForContact_free hk] at room
          cases room
        exact (Slots.put_of_ne away _).trans room
    · exact gone contact room rfl
  unfold Contacts.roomForContact Contacts.evictOldest at kept
  cases full : s.contacts.free with
  | some k => exact absurd hc (by simpa [full] using kept)
  | none =>
    refine ⟨rfl, ?_⟩
    cases oldest : oldestEvictable s with
    | none => exact absurd hc (by simpa [full, oldest] using kept)
    | some o =>
      simp only [full, oldest, if_true] at kept
      obtain ⟨k, hk, -⟩ := oldestEvictable_some oldest
      by_cases here : i = k
      · rw [here, hk] at hc
        exact hc
      · refine absurd ?_ kept
        unfold Contacts.removeContact
        rw [h.findContact_eq hk]
        exact Slots.clear_some.mpr ⟨here, hc⟩

theorem Consistent.call_gone (h : Consistent s) {c : Call} {now : Nat} (hc : s.contacts i = some contact)
    (gone : Gone (Contacts.call s c now) i contact) :
    evictee s c = some contact ∨ c = .remove contact.id ∨ ∃ targetId, c = .link targetId contact.id := by
  cases c with
  | upsertDiscovered request =>
    left
    simp only [Contacts.call, Contacts.upsertDiscovered] at gone
    simp only [evictee]
    split at gone
    · exact absurd gone (not_gone hc rfl)
    · split at gone
      · refine absurd gone ?_
        split
        · unfold Contacts.refresh
          split
          · exact not_gone hc (modify_ids _ (by intro c; rfl) i)
          · exact not_gone hc rfl
        · exact not_gone hc rfl
      · rename_i unknown
        obtain ⟨full, oldest⟩ := h.discover_gone hc gone
        rename_i valid _
        simp only [valid, unknown, full, isNone_none, and_self, if_true]
        exact oldest
  | rename id displayName =>
    refine absurd gone ?_
    simp only [Contacts.call, Contacts.rename]
    split
    · exact not_gone hc rfl
    · split
      · exact not_gone hc rfl
      · split
        · exact not_gone hc (modify_ids _ (by intro c; rfl) i)
        · exact not_gone hc rfl
  | setTrust contactId endpointId trust =>
    refine absurd gone ?_
    simp only [Contacts.call, Contacts.setTrust]
    split
    · exact not_gone hc rfl
    · split
      · exact not_gone hc rfl
      · split
        · exact not_gone hc rfl
        · split
          · exact not_gone hc rfl
          · exact not_gone hc (modify_ids _ (by intro c; rfl) i)
  | remove id =>
    right; left
    simp only [Contacts.call, Contacts.remove] at gone
    split at gone
    · exact absurd gone (not_gone hc rfl)
    · split at gone
      · exact congrArg Call.remove (removeContact_gone hc gone).symm
      · exact absurd gone (not_gone hc rfl)
  | link targetId sourceId =>
    right; right
    simp only [Contacts.call, Contacts.link] at gone
    split at gone
    · exact absurd gone (not_gone hc rfl)
    · split at gone
      · rename_i target source _ hlost
        obtain ⟨d, hd, isSource, -⟩ := findContact_some hlost
        by_cases here : i = source
        · rw [here, hd] at hc
          cases hc
          exact ⟨targetId, by rw [isSource]⟩
        · refine absurd gone (not_gone hc ?_)
          show (((s.contacts.modify target _).clear source) i).map Contact.id = _
          rw [Slots.clear_of_ne here]
          exact modify_ids _ (by intro c; rfl) i
      · exact absurd gone (not_gone hc rfl)

/-- What happens to the tables: a call at a time, or a restart that finds them stored. -/
inductive Event where
  | call (c : Call) (now : Nat)
  | restart

def happen (s : State) : Event → State
  | .call c now => call s c now
  | .restart => diskToRuntime (runtimeToDisk s)

theorem run_sound (events : List Event) :
    Consistent (run happen initial events) ∧ Storable (run happen initial events) := by
  refine run_always (P := fun s => Consistent s ∧ Storable s) ?_ ⟨initial_consistent, initial_storable⟩ events
  rintro s e ⟨consistent, storable⟩
  cases e with
  | call c now => exact ⟨consistent.call c now, storable.call c now⟩
  | restart =>
    rw [happen, diskToRuntime_runtimeToDisk storable consistent]
    exact ⟨consistent, storable⟩

/-- After any sequence of calls the tables are consistent, the next call evicts only a
contact that is spare, and it removes no other contact but one it names. -/
theorem tables_sound (events : List Event) : Consistent (run happen initial events) ∧
      (∀ (c : Call) (contact : Contact), evictee (run happen initial events) c = some contact →
        Spare (run happen initial events) c contact) ∧
      ∀ (c : Call) (now : Nat) (i : Fin contactCapacity) (contact : Contact),
        (run happen initial events).contacts i = some contact →
        Gone (call (run happen initial events) c now) i contact →
          evictee (run happen initial events) c = some contact ∨ c = .remove contact.id ∨
            ∃ targetId, c = .link targetId contact.id := by
  obtain ⟨consistent, -⟩ := run_sound events
  exact ⟨consistent, fun c contact => consistent.evictee_spare,
    fun c now i contact hc gone => consistent.call_gone hc gone⟩

end SolarOs.Contacts
