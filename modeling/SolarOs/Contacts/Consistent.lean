import SolarOs.Contacts.Model
import SolarOs.Library.Machine

/-! The two tables stay consistent: contacts and endpoints refer to each other, ids and
addresses are distinct, and the counters are exact. -/
namespace SolarOs.Contacts
open Option Slots

variable {s t : State}

structure Consistent (s : State) : Prop where
  /-- Every endpoint has its contact. -/
  homed : ∀ j e, s.endpoints j = some e → ∃ i c, s.contacts i = some c ∧ c.id = e.contactId
  /-- Every contact has an endpoint. -/
  reached : ∀ i c, s.contacts i = some c → ∃ j e, s.endpoints j = some e ∧ e.contactId = c.id
  addresses : s.endpoints.Distinct fun e => (e.provider, e.address)
  contactIds : s.contacts.Distinct Contact.id
  endpointIds : s.endpoints.Distinct Endpoint.id
  contactNumbered : ∀ i c, s.contacts i = some c → c.id ≠ 0
  endpointNumbered : ∀ j e, s.endpoints j = some e → e.id ≠ 0
  contactCount : s.contactCount = s.contacts.count
  endpointCount : s.endpointCount = s.endpoints.count

def Endpoint.tie (e : Endpoint) : Nat × Nat × ProviderId × List UInt8 :=
  (e.id, e.contactId, e.provider, e.address)

theorem initial_consistent : Consistent initial where
  homed := nofun
  reached := nofun
  addresses := nofun
  contactIds := nofun
  endpointIds := nofun
  contactNumbered := nofun
  endpointNumbered := nofun
  contactCount := by simp [initial, count, tally, empty]
  endpointCount := by simp [initial, count, tally, empty]

variable {i : Fin contactCapacity} {j : Fin endpointCapacity} {e : Endpoint}

theorem findContact_some {id : Nat} (h : findContact s id = some i) :
    ∃ c, s.contacts i = some c ∧ c.id = id ∧ id ≠ 0 := by
  unfold findContact at h
  split at h
  · cases h
  · rename_i nonzero
    obtain ⟨c, hc, same⟩ := find_some h
    exact ⟨c, hc, of_decide_eq_true same, nonzero⟩

theorem findContact_none {id : Nat} (h : findContact s id = none) (nonzero : id ≠ 0) {c : Contact}
    (hc : s.contacts i = some c) : c.id ≠ id := by
  rw [findContact, if_neg nonzero] at h
  exact of_decide_eq_false (find_none h hc)

theorem findEndpointId_none {id : Nat} (h : findEndpointId s id = none) (nonzero : id ≠ 0)
    (he : s.endpoints j = some e) : e.id ≠ id := by
  rw [findEndpointId, if_neg nonzero] at h
  exact of_decide_eq_false (find_none h he)

theorem Consistent.findContact_eq (h : Consistent s) {c : Contact} (hc : s.contacts i = some c) :
    findContact s c.id = some i := by
  rw [findContact, if_neg (h.contactNumbered i c hc)]
  obtain ⟨j, hj⟩ := find_isSome (fun b => b.id = c.id) hc (by simp)
  rw [hj, h.contactIds.find_eq hj hc rfl]

theorem allocate_free {inUse : Nat → Bool} {attempts next : Nat}
    (h : (allocate inUse attempts next).1 ≠ 0) : inUse (allocate inUse attempts next).1 = false := by
  induction attempts generalizing next with
  | zero => exact absurd rfl h
  | succ attempts ih =>
    simp only [allocate] at h ⊢
    split
    · rename_i free
      simp only [Bool.and_eq_true, Bool.not_eq_true'] at free
      exact free.2
    · rename_i taken
      rw [if_neg taken] at h
      exact ih h

theorem Consistent.touch (h : Consistent s)
    (contacts : ∀ i, (t.contacts i).map Contact.id = (s.contacts i).map Contact.id)
    (endpoints : ∀ j, (t.endpoints j).map Endpoint.tie = (s.endpoints j).map Endpoint.tie)
    (contactCount : t.contactCount = s.contactCount)
    (endpointCount : t.endpointCount = s.endpointCount) : Consistent t := by
  have contact : ∀ i c, t.contacts i = some c → ∃ d, s.contacts i = some d ∧ d.id = c.id := by
    intro i c hc
    have := contacts i
    rw [hc] at this
    exact map_eq_some_iff.mp this.symm
  have endpoint : ∀ j e, t.endpoints j = some e → ∃ f, s.endpoints j = some f ∧ f.tie = e.tie := by
    intro j e he
    have := endpoints j
    rw [he] at this
    exact map_eq_some_iff.mp this.symm
  constructor
  case homed =>
    intro j e he
    obtain ⟨f, hf, tie⟩ := endpoint j e he
    obtain ⟨i, c, hc, home⟩ := h.homed j f hf
    have := contacts i
    rw [hc] at this
    obtain ⟨d, hd, same⟩ := map_eq_some_iff.mp this
    exact ⟨i, d, hd, same.trans (home.trans (congrArg (·.2.1) tie))⟩
  case reached =>
    intro i c hc
    obtain ⟨d, hd, same⟩ := contact i c hc
    obtain ⟨j, e, he, home⟩ := h.reached i d hd
    have := endpoints j
    rw [he] at this
    obtain ⟨f, hf, tie⟩ := map_eq_some_iff.mp this
    exact ⟨j, f, hf, (congrArg (·.2.1) tie).trans (home.trans same)⟩
  case addresses =>
    refine h.addresses.of_keys fun j e he => ?_
    obtain ⟨f, hf, tie⟩ := endpoint j e he
    exact ⟨f, hf, congrArg (·.2.2) tie⟩
  case contactIds => exact h.contactIds.of_keys contact
  case endpointIds =>
    refine h.endpointIds.of_keys fun j e he => ?_
    obtain ⟨f, hf, tie⟩ := endpoint j e he
    exact ⟨f, hf, congrArg (·.1) tie⟩
  case contactNumbered =>
    intro i c hc
    obtain ⟨d, hd, same⟩ := contact i c hc
    exact same ▸ h.contactNumbered i d hd
  case endpointNumbered =>
    intro j e he
    obtain ⟨f, hf, tie⟩ := endpoint j e he
    have same : f.id = e.id := congrArg (·.1) tie
    exact same ▸ h.endpointNumbered j f hf
  case contactCount =>
    rw [contactCount, h.contactCount]
    refine (count_congr fun i => ?_).symm
    simpa using congrArg Option.isSome (contacts i)
  case endpointCount =>
    rw [endpointCount, h.endpointCount]
    refine (count_congr fun j => ?_).symm
    simpa using congrArg Option.isSome (endpoints j)

theorem modify_ids (i : Fin contactCapacity) {f : Contact → Contact} (keep : ∀ c, (f c).id = c.id)
    (j : Fin contactCapacity) : (s.contacts.modify i f j).map Contact.id = (s.contacts j).map Contact.id := by
  rw [modify_apply]
  split
  · rw [map_map]
    congr 1
    funext c
    exact keep c
  · rfl

theorem Consistent.removeContact (h : Consistent s) (id : Nat) : Consistent (removeContact s id) := by
  unfold Contacts.removeContact
  cases found : findContact s id with
  | none => exact h
  | some i =>
    obtain ⟨c, hc, same, nonzero⟩ := findContact_some found
    constructor
    case homed =>
      intro j e he
      obtain ⟨old, other⟩ := drop_some.mp he
      obtain ⟨k, d, hd, home⟩ := h.homed j e old
      refine ⟨k, d, clear_some.mpr ⟨?_, hd⟩, home⟩
      intro here
      rw [here, hc] at hd
      cases hd
      exact of_decide_eq_false other (home.symm.trans same)
    case reached =>
      intro k d hd
      obtain ⟨away, old⟩ := clear_some.mp hd
      obtain ⟨j, e, he, home⟩ := h.reached k d old
      refine ⟨j, e, drop_some.mpr ⟨he, decide_eq_false fun mine => ?_⟩, home⟩
      exact away (h.contactIds k i d c old hc (home.symm.trans (mine.trans same.symm)))
    case addresses => exact h.addresses.of_keys fun j e he => ⟨e, (drop_some.mp he).1, rfl⟩
    case contactIds => exact h.contactIds.of_keys fun k d hd => ⟨d, (clear_some.mp hd).2, rfl⟩
    case endpointIds => exact h.endpointIds.of_keys fun j e he => ⟨e, (drop_some.mp he).1, rfl⟩
    case contactNumbered => exact fun k d hd => h.contactNumbered k d (clear_some.mp hd).2
    case endpointNumbered => exact fun j e he => h.endpointNumbered j e (drop_some.mp he).1
    case contactCount =>
      have := count_clear hc
      have := h.contactCount
      show s.contactCount - 1 = (s.contacts.clear i).count
      omega
    case endpointCount =>
      have := count_drop (s := s.endpoints) fun e => decide (e.contactId = id)
      have := h.endpointCount
      show s.endpointCount - (s.endpoints.tally fun e => decide (e.contactId = id)) =
        (s.endpoints.drop fun e => decide (e.contactId = id)).count
      omega

theorem Consistent.evictOldest (h : Consistent s) : Consistent (evictOldest s).1 := by
  unfold Contacts.evictOldest
  cases oldestEvictable s with
  | none => exact h
  | some oldest =>
    obtain ⟨homed, reached, addresses, contactIds, endpointIds, contactNumbered, endpointNumbered,
      contactCount, endpointCount⟩ := h.removeContact oldest.1.id
    exact ⟨homed, reached, addresses, contactIds, endpointIds, contactNumbered, endpointNumbered,
      contactCount, endpointCount⟩

theorem Consistent.roomForContact (h : Consistent s) : Consistent (roomForContact s).1 := by
  unfold Contacts.roomForContact
  split
  · exact h
  · split
    · exact h.evictOldest
    · exact h

theorem roomForContact_free (h : (roomForContact s).2 = some i) : (roomForContact s).1.contacts i = none := by
  unfold roomForContact at h ⊢
  split at h
  · rename_i room
    cases h
    exact free_some room
  · split at h
    · rename_i evicted
      rw [if_pos evicted]
      exact free_some h
    · cases h

variable {request : Discovery}

theorem Consistent.insertContact (h : Consistent s) {address metadata : List UInt8}
    {now contactId endpointId : Nat} (contactFree : s.contacts i = none) (endpointFree : s.endpoints j = none)
    (contactNonzero : contactId ≠ 0) (endpointNonzero : endpointId ≠ 0)
    (contactFresh : ∀ k c, s.contacts k = some c → c.id ≠ contactId)
    (endpointFresh : ∀ k e, s.endpoints k = some e → e.id ≠ endpointId)
    (addressFresh : ∀ k e, s.endpoints k = some e → (e.provider, e.address) ≠ (request.provider, address)) :
    Consistent (insertContact s request address metadata now i j contactId endpointId) := by
  constructor
  case homed =>
    intro k e he
    simp only [Contacts.insertContact, changed, put_apply] at he ⊢
    split at he
    · cases he
      exact ⟨i, _, if_pos rfl, rfl⟩
    · obtain ⟨m, c, hc, home⟩ := h.homed k e he
      refine ⟨m, c, ?_, home⟩
      rw [if_neg ?_]
      · exact hc
      · rintro rfl
        rw [contactFree] at hc
        cases hc
  case reached =>
    intro k c hc
    simp only [Contacts.insertContact, changed, put_apply] at hc ⊢
    split at hc
    · cases hc
      exact ⟨j, _, if_pos rfl, rfl⟩
    · obtain ⟨m, e, he, home⟩ := h.reached k c hc
      refine ⟨m, e, ?_, home⟩
      rw [if_neg ?_]
      · exact he
      · rintro rfl
        rw [endpointFree] at he
        cases he
  case addresses => exact h.addresses.put addressFresh
  case contactIds => exact h.contactIds.put contactFresh
  case endpointIds => exact h.endpointIds.put endpointFresh
  case contactNumbered =>
    intro k c hc
    simp only [Contacts.insertContact, changed, put_apply] at hc
    split at hc
    · cases hc
      exact contactNonzero
    · exact h.contactNumbered k c hc
  case endpointNumbered =>
    intro k e he
    simp only [Contacts.insertContact, changed, put_apply] at he
    split at he
    · cases he
      exact endpointNonzero
    · exact h.endpointNumbered k e he
  case contactCount =>
    exact (congrArg (· + 1) h.contactCount).trans (count_put contactFree _).symm
  case endpointCount =>
    exact (congrArg (· + 1) h.endpointCount).trans (count_put endpointFree _).symm

theorem evictOldest_endpoints (he : (evictOldest s).1.endpoints j = some e) : s.endpoints j = some e := by
  unfold evictOldest at he
  split at he
  · exact he
  · simp only [removeContact] at he
    split at he
    · exact he
    · exact (drop_some.mp he).1

theorem roomForContact_endpoints (he : (roomForContact s).1.endpoints j = some e) : s.endpoints j = some e := by
  unfold roomForContact at he
  split at he
  · exact he
  · split at he
    · exact evictOldest_endpoints he
    · exact he

theorem Consistent.allocated (h : Consistent s) (nextContactId nextEndpointId : Nat) :
    Consistent { s with nextContactId, nextEndpointId } :=
  ⟨h.homed, h.reached, h.addresses, h.contactIds, h.endpointIds, h.contactNumbered,
    h.endpointNumbered, h.contactCount, h.endpointCount⟩

theorem allocateId_fresh (nonzero : (allocateId s).2 ≠ 0) {c : Contact} (hc : s.contacts i = some c) :
    c.id ≠ (allocateId s).2 := by
  have free := allocate_free nonzero
  exact findContact_none (isSome_eq_false_iff.mp free |> isNone_iff_eq_none.mp) nonzero hc

theorem allocateEndpointId_fresh (nonzero : (allocateEndpointId s).2 ≠ 0) (he : s.endpoints j = some e) :
    e.id ≠ (allocateEndpointId s).2 := by
  have free := allocate_free nonzero
  exact findEndpointId_none (isSome_eq_false_iff.mp free |> isNone_iff_eq_none.mp) nonzero he

theorem Consistent.discover (h : Consistent s) {address : List UInt8} (metadata : List UInt8) (now : Nat)
    (unknown : findEndpointAddress s request.provider address = none) :
    Consistent (discover s request address metadata now).1 := by
  have room := h.roomForContact
  simp only [Contacts.discover]
  split
  · rename_i i j hi hj
    split
    · exact room.allocated _ _
    · rename_i nonzero
      simp only [not_or] at nonzero
      refine (room.allocated _ _).insertContact (roomForContact_free hi) (free_some hj)
        nonzero.1 nonzero.2 (fun k c hc => allocateId_fresh nonzero.1 hc)
        (fun k e he => allocateEndpointId_fresh nonzero.2 he) ?_
      intro k e he
      exact of_decide_eq_false (find_none unknown (roomForContact_endpoints he))
  · exact room

theorem Consistent.refresh (h : Consistent s) {metadata : List UInt8} {now : Nat}
    (he : s.endpoints j = some e) : Consistent (refresh s request metadata now j e).1 := by
  have endpoints : ∀ f : Endpoint, f.tie = e.tie → ∀ k,
      (s.endpoints.put j f k).map Endpoint.tie = (s.endpoints k).map Endpoint.tie := by
    intro f tie k
    rw [put_apply]
    split
    · rename_i same
      rw [same, he, map_some, map_some, tie]
    · rfl
  unfold Contacts.refresh
  split
  · exact h.touch (modify_ids _ fun _ => rfl) (endpoints _ rfl) rfl rfl
  · exact h.touch (fun _ => rfl) (endpoints _ rfl) rfl rfl

theorem Consistent.upsertDiscovered (h : Consistent s) (request : Discovery) (now : Nat) :
    Consistent (upsertDiscovered s request now).1 := by
  unfold Contacts.upsertDiscovered
  split
  · exact h
  · split
    · rename_i j hj
      split
      · rename_i e he
        exact h.refresh he
      · exact h
    · rename_i unknown
      exact h.discover _ now unknown

theorem Consistent.rename (h : Consistent s) (id : Nat) (displayName : Option CString) (now : Nat) :
    Consistent (rename s id displayName now).1 := by
  unfold Contacts.rename
  split
  · exact h
  · split
    · exact h
    · split
      · exact h.touch (modify_ids _ fun _ => rfl) (fun _ => rfl) rfl rfl
      · exact h

theorem change_ties (want : Endpoint → Bool) {f : Endpoint → Endpoint} (keep : ∀ e, (f e).tie = e.tie)
    (j : Fin endpointCapacity) : (s.endpoints.change want f j).map Endpoint.tie = (s.endpoints j).map Endpoint.tie := by
  rw [change, map_map]
  congr 1
  funext e
  simp only [Function.comp]
  split
  · exact keep e
  · rfl

theorem Consistent.setTrust (h : Consistent s) (contactId endpointId : Nat) (trust : Option Trust)
    (now : Nat) : Consistent (setTrust s contactId endpointId trust now).1 := by
  unfold Contacts.setTrust
  split
  · exact h
  · split
    · exact h
    · split
      · exact h
      · simp only
        split
        · exact h
        · exact h.touch (modify_ids _ fun _ => rfl) (change_ties _ fun _ => rfl) rfl rfl

theorem Consistent.remove (h : Consistent s) (id : Nat) : Consistent (remove s id).1 := by
  unfold Contacts.remove
  split
  · exact h
  · split
    · have gone := h.removeContact id
      exact gone.touch (fun _ => rfl) (fun _ => rfl) rfl rfl
    · exact h

theorem Consistent.link (h : Consistent s) (targetId sourceId now : Nat) :
    Consistent (link s targetId sourceId now).1 := by
  unfold Contacts.link
  split
  · exact h
  · rename_i args
    simp only [not_or] at args
    split
    · rename_i target source hfound hlost
      obtain ⟨c, hc, isTarget, -⟩ := findContact_some hfound
      obtain ⟨d, hd, isSource, -⟩ := findContact_some hlost
      have contact : ∀ i b, ((s.contacts.modify target fun c => { c with updatedMs := now }).clear
          source) i = some b → i ≠ source ∧ ∃ a, s.contacts i = some a ∧ a.id = b.id := by
        intro i b hb
        obtain ⟨away, old⟩ := clear_some.mp hb
        refine ⟨away, ?_⟩
        have ids := modify_ids (s := s) target (f := fun c => { c with updatedMs := now }) (fun _ => rfl) i
        rw [old] at ids
        exact map_eq_some_iff.mp ids.symm
      have kept : ∀ i a, s.contacts i = some a → i ≠ source →
          ∃ b, ((s.contacts.modify target fun c => { c with updatedMs := now }).clear source) i =
            some b ∧ b.id = a.id := by
        intro i a ha away
        rw [clear_of_ne away]
        have ids := modify_ids (s := s) target (f := fun c => { c with updatedMs := now }) (fun _ => rfl) i
        rw [ha] at ids
        exact map_eq_some_iff.mp ids
      have apart : target ≠ source := by
        rintro rfl
        rw [hc] at hd
        cases hd
        exact args.2.2 (isTarget.symm.trans isSource)
      constructor
      case homed =>
        intro j e he
        obtain ⟨f, hf, moved⟩ := change_some.mp he
        obtain ⟨i, a, ha, home⟩ := h.homed j f hf
        split at moved
        · subst moved
          obtain ⟨b, hb, same⟩ := kept target c hc apart
          exact ⟨target, b, hb, same.trans isTarget⟩
        · rename_i stays
          subst moved
          obtain ⟨b, hb, same⟩ := kept i a ha (by
            rintro rfl
            rw [ha] at hd
            cases hd
            exact stays (by simp [← home, isSource]))
          exact ⟨i, b, hb, same.trans home⟩
      case reached =>
        intro i b hb
        obtain ⟨away, a, ha, same⟩ := contact i b hb
        obtain ⟨j, e, he, home⟩ := h.reached i a ha
        refine ⟨j, e, change_some.mpr ⟨e, he, if_neg ?_⟩, home.trans same⟩
        intro mine
        have other : e.contactId = sourceId := of_decide_eq_true mine
        exact away (h.contactIds i source a d ha hd (home.symm.trans (other.trans isSource.symm)))
      case addresses =>
        refine h.addresses.of_keys fun j e he => ?_
        obtain ⟨f, hf, moved⟩ := change_some.mp he
        refine ⟨f, hf, ?_⟩
        subst moved
        split <;> rfl
      case contactIds => exact h.contactIds.of_keys fun i b hb => (contact i b hb).2
      case endpointIds =>
        refine h.endpointIds.of_keys fun j e he => ?_
        obtain ⟨f, hf, moved⟩ := change_some.mp he
        refine ⟨f, hf, ?_⟩
        subst moved
        split <;> rfl
      case contactNumbered =>
        intro i b hb
        obtain ⟨-, a, ha, same⟩ := contact i b hb
        exact same ▸ h.contactNumbered i a ha
      case endpointNumbered =>
        intro j e he
        obtain ⟨f, hf, moved⟩ := change_some.mp he
        have := h.endpointNumbered j f hf
        subst moved
        split <;> exact this
      case contactCount =>
        obtain ⟨b, hb⟩ : ∃ b, (s.contacts.modify target fun c => { c with updatedMs := now }) source =
            some b := by
          rw [modify_apply, if_neg (Ne.symm apart)]
          exact ⟨d, hd⟩
        have gone := count_clear hb
        have same : (s.contacts.modify target fun c => { c with updatedMs := now }).count =
            s.contacts.count :=
          count_congr fun i => by
            have := modify_ids (s := s) target (f := fun c => { c with updatedMs := now }) (fun _ => rfl) i
            simpa using congrArg Option.isSome this
        have := h.contactCount
        show s.contactCount - 1 = ((s.contacts.modify target fun c => { c with updatedMs := now }).clear source).count
        omega
      case endpointCount =>
        refine h.endpointCount.trans (count_congr fun j => ?_).symm
        simp [changed, change]
    · exact h

theorem Consistent.call (h : Consistent s) (c : Call) (now : Nat) : Consistent (call s c now) := by
  cases c with
  | upsertDiscovered request => exact h.upsertDiscovered request now
  | rename id displayName => exact h.rename id displayName now
  | setTrust contactId endpointId trust => exact h.setTrust contactId endpointId trust now
  | remove id => exact h.remove id
  | link targetId sourceId => exact h.link targetId sourceId now

end SolarOs.Contacts
