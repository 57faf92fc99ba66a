import SolarOs.Streams.Registry
import SolarOs.Library.Rights

/-! Every open and every close, and every open that fails, counts its handle once, on the
registration of the slot that the handle is of. -/
namespace SolarOs.Streams
open Program Function Multiset Slots

variable {w w' : World} {h : Handle} {i : Fin streamMax} {entry entry' : Entry}

/-- The handles of opens in progress, and of closes. -/
abbrev Rights := Multiset Handle × Multiset Handle

/-- What the operations take and give. -/
inductive Deals : {β : Type} → Op β → Deal Rights β → Prop
  | register (driver : Driver) : Deals (.register driver) ⟨0, fun _ => 0, fun _ => True⟩
  | unregister (id : Text) : Deals (.unregister id) ⟨0, fun _ => 0, fun _ => True⟩
  | beginOpen (id owner : Text) (options : Option Direction) :
    Deals (.beginOpen id owner options)
      ⟨0, fun | .ok (h, true) => ({h}, 0) | _ => 0, fun _ => True⟩
  | driverOpen (h : Handle) :
    Deals (.driverOpen h) ⟨({h}, 0), fun error => if error = .ok then 0 else ({h}, 0), fun _ => True⟩
  | abandon (h : Handle) : Deals (.abandon h) ⟨({h}, 0), fun _ => 0, fun _ => True⟩
  | handleValid (h : Handle) :
    Deals (.handleValid h) ⟨0, fun valid => if valid then (0, {h}) else 0, fun _ => True⟩
  | closeFunction (h : Handle) : Deals (.closeFunction h) ⟨0, fun _ => 0, fun _ => True⟩
  | driverClose (h : Handle) : Deals (.driverClose h) ⟨0, fun _ => 0, fun _ => True⟩
  | finish (h : Handle) : Deals (.finish h) ⟨(0, {h}), fun _ => 0, fun _ => True⟩
  | access (h : Handle) (a : Access) : Deals (.access h a) ⟨0, fun _ => 0, fun _ => True⟩
  | driverAccess (h : Handle) (a : Access) : Deals (.driverAccess h a) ⟨0, fun _ => 0, fun _ => True⟩

def Clean (_ : EspErr) (held : Rights) : Prop := held = 0

theorem openEx_clean (id owner : Text) (options : Option Direction) :
    Entitled Deals Clean (openEx id owner options) 0 := by
  show Entitled _ _ (if !textValid id idMax true || !textValid owner ownerMax true then _ else _) 0
  split
  · rfl
  · refine Entitled.alone (Deals.beginOpen id owner options) fun begun _ => ?_
    match begun with
    | .error error => rfl
    | .ok (h, false) => rfl
    | .ok (h, true) =>
      refine Entitled.alone (Deals.driverOpen h) fun error _ => ?_
      show Entitled _ _ (if error ≠ .ok then _ else _) _
      by_cases ok : error = .ok
      · rw [if_neg (not_not.mpr ok)]
        exact if_pos ok
      · rw [if_pos ok]
        have kept : Entitled Deals Clean (do
            invoke (.abandon h)
            return error) ({h}, 0) := Entitled.alone (Deals.abandon h) fun _ _ => rfl
        simpa only [if_neg ok] using kept

theorem close_clean (h : Handle) : Entitled Deals Clean (close h) 0 := by
  refine Entitled.alone (Deals.handleValid h) fun valid _ => ?_
  cases valid with
  | false => rfl
  | true =>
    have finishes : Entitled Deals Clean (do
        invoke (.finish h)
        return .ok) (0, {h}) := Entitled.alone (Deals.finish h) fun _ _ => rfl
    refine Entitled.freely (Deals.closeFunction h) fun close _ => ?_
    cases close with
    | false => exact finishes
    | true => exact Entitled.freely (Deals.driverClose h) fun _ _ => finishes

theorem body_clean (c : Call) : Entitled Deals Clean (body c) 0 := by
  cases c with
  | register driver =>
    show Entitled _ _ (if !driver.valid then _ else _) 0
    split
    · rfl
    · exact Entitled.freely (Deals.register driver) fun _ _ => rfl
  | unregister id =>
    show Entitled _ _ (if !textValid id idMax true then _ else _) 0
    split
    · rfl
    · exact Entitled.freely (Deals.unregister id) fun _ _ => rfl
  | openEx id owner options => exact openEx_clean id owner options
  | close h => exact close_clean h
  | access h a =>
    refine Entitled.freely (Deals.access h a) fun error _ => ?_
    show Entitled _ _ (if error ≠ .ok then _ else _) 0
    split
    · rfl
    · exact Entitled.freely (Deals.driverAccess h a) fun _ _ => rfl

def Within {β : Type} : Op β → World → Prop
  | .beginOpen id _ _, w =>
    ∀ i entry, w.find id = some i → w.table i = some entry → entry.activeHandles.toNat + 1 < 2 ^ 32
  | .handleValid h, w | .access h _, w => w.registrations h.slot < h.registration + Generation.period
  | _, _ => True

def ClosedOnce {β : Type} : Op β → World → Prop
  | .handleValid h, w => h ∈ w.issued ∧ (h ∈ w.opened ∨ h.registration ≠ w.registrations h.slot)
  | .access h _, w => h ∈ w.issued
  | _, _ => True

structure Inv (w : World) (total : Rights) : Prop where
  opening : w.opening = total.1
  closing : w.closing = total.2
  accounted : w.Accounted
  generations : ∀ i, w.generations i = Generation.after (w.registrations i)
  registered : ∀ i entry, w.table i = some entry → 0 < w.registrations i
  issued : ∀ h ∈ w.issued, 0 < h.registration ∧ h.registration ≤ w.registrations h.slot ∧
    h.generation = Generation.after h.registration
  known : ∀ h ∈ w.outstanding, h ∈ w.issued

theorem World.Accounted.add (acc : w.Accounted) (there : w.table h.slot = some entry)
    (registration : h.registration = w.registrations h.slot) (fits : entry.activeHandles.toNat + 1 < 2 ^ 32)
    (free : ¬(entry.driver.sharing = .exclusive ∧ entry.activeHandles ≠ 0))
    (table : w'.table = w.table.put h.slot entry') (driver : entry'.driver = entry.driver)
    (active : entry'.activeHandles = entry.activeHandles + 1) (registrations : w'.registrations = w.registrations)
    (outstanding : w'.outstanding = h ::ₘ w.outstanding) (mistaken : w'.mistaken = w.mistaken) : w'.Accounted := by
  have count : ∀ j, (w'.outstanding.countP fun h => h.slot = j) =
      (w.outstanding.countP fun h => h.slot = j) + if h.slot = j then 1 else 0 := by
    intro j
    rw [outstanding, countP_cons]
  have now := acc.counted h.slot entry there
  have more : entry'.activeHandles.toNat = entry.activeHandles.toNat + 1 := by
    rw [active, UInt32.toNat_add]
    exact Nat.mod_eq_of_lt fits
  refine ⟨fun j e hj => ?_, fun j e hj exclusive => ?_, fun k hk => ?_, mistaken.trans acc.unmistaken⟩
  · rw [table, put_apply] at hj
    rw [count]
    split at hj
    · rename_i here
      cases hj
      subst here
      rw [if_pos rfl, more, now]
    · rename_i away
      rw [if_neg (Ne.symm away), add_zero]
      exact acc.counted j e hj
  · rw [table, put_apply] at hj
    rw [count]
    split at hj
    · rename_i here
      cases hj
      subst here
      have none : entry.activeHandles = 0 := not_not.mp fun some => free ⟨driver ▸ exclusive, some⟩
      rw [if_pos rfl, ← now, none]
      exact Nat.le_refl 1
    · rename_i away
      rw [if_neg (Ne.symm away), add_zero]
      exact acc.exclusive j e hj exclusive
  · rw [table, registrations, put_apply]
    rw [outstanding] at hk
    rcases mem_cons.mp hk with rfl | old
    · rw [if_pos rfl]
      exact ⟨rfl, registration⟩
    · obtain ⟨some, same⟩ := acc.registered k old
      refine ⟨?_, same⟩
      split
      · rfl
      · exact some

theorem World.Accounted.remove (acc : w.Accounted) (there : w.table h.slot = some entry)
    (table : w'.table = w.table.put h.slot entry') (driver : entry'.driver = entry.driver)
    (active : entry'.activeHandles = entry.activeHandles - 1) (registrations : w'.registrations = w.registrations)
    (outstanding : w.outstanding = h ::ₘ w'.outstanding) (mistaken : w'.mistaken = w.mistaken) : w'.Accounted := by
  have count : ∀ j, (w.outstanding.countP fun h => h.slot = j) =
      (w'.outstanding.countP fun h => h.slot = j) + if h.slot = j then 1 else 0 := by
    intro j
    rw [outstanding, countP_cons]
  have now := acc.counted h.slot entry there
  have some := count h.slot
  rw [if_pos rfl] at some
  have less : entry'.activeHandles.toNat = entry.activeHandles.toNat - 1 := by
    rw [active, UInt32.toNat_sub_of_le]
    · rfl
    · rw [UInt32.le_iff_toNat_le]
      exact (by omega : 1 ≤ entry.activeHandles.toNat)
  refine ⟨fun j e hj => ?_, fun j e hj exclusive => ?_, fun k hk => ?_, mistaken.trans acc.unmistaken⟩
  · rw [table, put_apply] at hj
    split at hj
    · rename_i here
      cases hj
      subst here
      omega
    · rename_i away
      rw [acc.counted j e hj, count, if_neg (Ne.symm away), add_zero]
  · rw [table, put_apply] at hj
    have before : (w'.outstanding.countP fun h => h.slot = j) ≤ w.outstanding.countP fun h => h.slot = j := by
      rw [count]
      exact Nat.le_add_right ..
    refine before.trans ?_
    split at hj
    · rename_i here
      cases hj
      subst here
      exact acc.exclusive _ entry there (driver ▸ exclusive)
    · exact acc.exclusive j e hj exclusive
  · rw [table, registrations, put_apply]
    obtain ⟨some, same⟩ := acc.registered k (outstanding ▸ mem_cons_of_mem hk)
    refine ⟨?_, same⟩
    split
    · rfl
    · exact some

variable {total : Rights}

theorem Inv.accepts (inv : Inv w total) (hh : h ∈ w.outstanding) :
    ∃ entry, w.table h.slot = some entry ∧ w.accepts h = true := by
  obtain ⟨some, registration⟩ := inv.accounted.registered h hh
  obtain ⟨entry, there⟩ := Option.isSome_iff_exists.mp some
  refine ⟨entry, there, ?_⟩
  rw [World.accepts, some, Bool.true_and, decide_eq_true_eq, inv.generations, ← registration]
  exact (inv.issued h (inv.known h hh)).2.2.symm

theorem Inv.current (inv : Inv w total) (issued : h ∈ w.issued)
    (near : w.registrations h.slot < h.registration + Generation.period) (accepted : w.accepts h = true) :
    h.registration = w.registrations h.slot := by
  obtain ⟨some, le, generation⟩ := inv.issued h issued
  have same : w.generations h.slot = h.generation := of_decide_eq_true (Bool.and_eq_true_iff.mp accepted).2
  rw [inv.generations, generation] at same
  exact Generation.eq_of_after some le near same.symm

/-- Nothing but the count of one entry and the handles that count has changed. -/
structure Recounted (w w' : World) (i : Fin streamMax) (entry' : Entry) : Prop where
  table : w'.table = w.table.put i entry'
  generations : w'.generations = w.generations
  registrations : w'.registrations = w.registrations
  mistaken : w'.mistaken = w.mistaken

theorem Inv.recount {total total' : Rights} (inv : Inv w total) (there : w.table i = some entry)
    (same : Recounted w w' i entry') (opening : w'.opening = total'.1) (closing : w'.closing = total'.2)
    (accounted : w'.Accounted) (issued : ∀ h ∈ w'.issued, h ∈ w.issued ∨
      (h.slot = i ∧ h.registration = w.registrations i ∧ h.generation = w.generations i))
    (known : ∀ h ∈ w'.outstanding, h ∈ w'.issued) : Inv w' total' where
  opening := opening
  closing := closing
  accounted := accounted
  generations := by
    rw [same.generations, same.registrations]
    exact inv.generations
  registered := by
    intro j e hj
    rw [same.registrations]
    rw [same.table, put_apply] at hj
    split at hj
    · rename_i here
      exact here ▸ inv.registered i entry there
    · exact inv.registered j e hj
  issued := by
    intro h hh
    rw [same.registrations]
    rcases issued h hh with old | ⟨rfl, registration, generation⟩
    · exact inv.issued h old
    · rw [registration]
      exact ⟨inv.registered _ entry there, le_rfl, generation.trans (inv.generations _)⟩
  known := known

theorem Inv.uncount (inv : Inv w total) (hh : h ∈ w.outstanding) {opening opened closing : Multiset Handle}
    (outstanding : w.outstanding = h ::ₘ (opening + opened + closing)) :
    Inv { w.uncount h with opening, opened, closing } (opening, closing) := by
  obtain ⟨entry, there, accepted⟩ := inv.accepts hh
  have some : 0 < entry.activeHandles := by
    rw [UInt32.lt_iff_toNat_lt, inv.accounted.counted h.slot entry there]
    exact countP_pos.mpr ⟨h, hh, rfl⟩
  have uncounted : w.uncount h =
      { w with
        table := w.table.put h.slot
          { entry with
            activeHandles := entry.activeHandles - 1
            owner := if entry.activeHandles - 1 = 0 then [] else entry.owner } } := by
    rw [World.uncount, there]
    exact if_pos ⟨accepted, some⟩
  rw [uncounted]
  refine inv.recount there ⟨rfl, rfl, rfl, rfl⟩ rfl rfl
    (inv.accounted.remove there rfl rfl rfl rfl outstanding rfl) (fun k hk => .inl hk) fun k hk => ?_
  exact inv.known k (outstanding ▸ mem_cons_of_mem hk)

theorem find_some {id : Text} (found : w.find id = some i) : ∃ entry, w.table i = some entry := by
  rw [World.find] at found
  split at found
  · cases found
  · obtain ⟨entry, there, -⟩ := Slots.find_some found
    exact ⟨entry, there⟩

theorem Inv.register (inv : Inv w total) (driver : Driver) : Inv (w.register driver).1 total := by
  rw [World.register]
  split
  · exact inv
  · split
    · exact inv
    · rename_i i free
      have vacant := free_some free
      -- no handle is left of an earlier registration
      have away : ∀ h ∈ w.outstanding, h.slot ≠ i := by
        rintro h hh rfl
        have some := (inv.accounted.registered h hh).1
        rw [vacant] at some
        cases some
      have none : (w.outstanding.countP fun h => h.slot = i) = 0 := countP_eq_zero.mpr away
      have grown : ∀ j, w.registrations j ≤ update w.registrations i (w.registrations i + 1) j := by
        intro j
        rw [update_apply]
        split
        · rename_i here
          rw [here]
          exact Nat.le_succ _
        · exact le_rfl
      refine ⟨inv.opening, inv.closing, ⟨fun j e hj => ?_, fun j e hj exclusive => ?_, fun h hh => ?_,
        inv.accounted.unmistaken⟩, fun j => ?_, fun j e hj => ?_, fun h hh => ?_, inv.known⟩
      · dsimp only at hj
        rw [put_apply] at hj
        split at hj
        · rename_i here
          cases hj
          subst here
          exact none.symm
        · exact inv.accounted.counted j e hj
      · dsimp only at hj
        rw [put_apply] at hj
        split at hj
        · rename_i here
          subst here
          exact none.le.trans (Nat.zero_le 1)
        · exact inv.accounted.exclusive j e hj exclusive
      · have other := away h hh
        dsimp only
        rw [put_of_ne other, update_of_ne other]
        exact inv.accounted.registered h hh
      · simp only [update_apply]
        split
        · rw [inv.generations, Generation.next_after]
        · exact inv.generations j
      · dsimp only at hj ⊢
        rw [put_apply] at hj
        split at hj
        · rename_i here
          rw [here, update_self]
          exact Nat.succ_pos _
        · exact lt_of_lt_of_le (inv.registered j e hj) (grown j)
      · obtain ⟨some, le, generation⟩ := inv.issued h hh
        exact ⟨some, le.trans (grown h.slot), generation⟩

theorem Inv.unregister (inv : Inv w total) (id : Text) : Inv (w.unregister id).1 total := by
  rw [World.unregister]
  split
  · exact inv
  · rename_i i found
    split
    · exact inv
    · rename_i idle
      obtain ⟨entry, there⟩ := find_some found
      have none : (w.outstanding.countP fun h => h.slot = i) = 0 := by
        rw [← inv.accounted.counted i entry there]
        rw [there] at idle
        have zero : entry.activeHandles = 0 := by simpa using idle
        rw [zero]
        rfl
      have away := countP_eq_zero.mp none
      refine ⟨inv.opening, inv.closing, ⟨fun j e hj => ?_, fun j e hj => ?_, fun h hh => ?_,
        inv.accounted.unmistaken⟩, inv.generations, fun j e hj => ?_, inv.issued, inv.known⟩
      · exact inv.accounted.counted j e (clear_some.mp hj).2
      · exact inv.accounted.exclusive j e (clear_some.mp hj).2
      · dsimp only
        rw [clear_of_ne (away h hh)]
        exact inv.accounted.registered h hh
      · exact inv.registered j e (clear_some.mp hj).2

theorem beginOpen_cases (w : World) (id owner : Text) (options : Option Direction) :
    (∃ error, w.beginOpen id owner options = (w, .error error)) ∨
      ∃ i entry direction owner', w.find id = some i ∧ w.table i = some entry ∧
        ¬(entry.driver.sharing = .exclusive ∧ entry.activeHandles ≠ 0) ∧
        w.beginOpen id owner options =
          ({ w with
              table := w.table.put i { entry with activeHandles := entry.activeHandles + 1, owner := owner' }
              issued := w.handle i entry direction ::ₘ w.issued
              opening := if entry.driver.hasOpen then w.handle i entry direction ::ₘ w.opening else w.opening
              opened := if entry.driver.hasOpen then w.opened else w.handle i entry direction ::ₘ w.opened },
            .ok (w.handle i entry direction, entry.driver.hasOpen)) := by
  unfold World.beginOpen
  cases found : w.find id with
  | none => exact .inl ⟨_, rfl⟩
  | some i =>
    obtain ⟨entry, there⟩ := find_some found
    simp only [there]
    split
    · exact .inl ⟨_, rfl⟩
    · split
      · exact .inl ⟨_, rfl⟩
      · rename_i free
        refine .inr ⟨i, entry, options.getD entry.driver.direction.defaultOpen,
          if entry.driver.sharing = .exclusive then owner else sharedOwner, rfl, there, free, ?_⟩
        split <;> rename_i hasOpen
        · simp [hasOpen]
        · simp [hasOpen]

theorem Inv.beginOpen {rest : Rights} (inv : Inv w rest) (direction : Direction) (owner : Text)
    (there : w.table i = some entry) (free : ¬(entry.driver.sharing = .exclusive ∧ entry.activeHandles ≠ 0))
    (fits : entry.activeHandles.toNat + 1 < 2 ^ 32) : Inv
      { w with
        table := w.table.put i { entry with activeHandles := entry.activeHandles + 1, owner }
        issued := w.handle i entry direction ::ₘ w.issued
        opening := if entry.driver.hasOpen then w.handle i entry direction ::ₘ w.opening else w.opening
        opened := if entry.driver.hasOpen then w.opened else w.handle i entry direction ::ₘ w.opened }
      (rest + if entry.driver.hasOpen then ({w.handle i entry direction}, 0) else 0) := by
  have outstanding : (if entry.driver.hasOpen then w.handle i entry direction ::ₘ w.opening else w.opening) +
      (if entry.driver.hasOpen then w.opened else w.handle i entry direction ::ₘ w.opened) + w.closing =
        w.handle i entry direction ::ₘ w.outstanding := by
    rw [World.outstanding]
    split
    · rw [cons_add, cons_add]
    · rw [add_cons, cons_add]
  refine inv.recount there ⟨rfl, rfl, rfl, rfl⟩ ?_ ?_
    (inv.accounted.add (h := w.handle i entry direction) there rfl fits free rfl rfl rfl rfl outstanding rfl)
    (fun k hk => ?_) fun k hk => ?_
  · dsimp only
    split
    · rw [Prod.fst_add, ← inv.opening, add_comm, singleton_add]
    · rw [add_zero, inv.opening]
  · dsimp only
    rw [Prod.snd_add, ← inv.closing]
    split
    · exact (add_zero _).symm
    · exact (add_zero _).symm
  · rcases mem_cons.mp hk with rfl | old
    · exact .inr ⟨rfl, rfl, rfl⟩
    · exact .inl old
  · have now : k ∈ w.handle i entry direction ::ₘ w.outstanding := outstanding ▸ hk
    rcases mem_cons.mp now with rfl | old
    · exact mem_cons_self ..
    · exact mem_cons_of_mem (inv.known k old)

theorem Inv.move {total total' : Rights} (inv : Inv w total) {opening opened closing : Multiset Handle}
    {mistaken : Bool} (outstanding : opening + opened + closing = w.outstanding) (same : mistaken = w.mistaken)
    (first : opening = total'.1) (second : closing = total'.2) :
    Inv { w with opening, opened, closing, mistaken } total' := by
  have all : World.outstanding { w with opening, opened, closing, mistaken } = w.outstanding := outstanding
  obtain ⟨counted, exclusive, registered, unmistaken⟩ := inv.accounted
  refine ⟨first, second, ⟨?_, ?_, ?_, same.trans unmistaken⟩, inv.generations, inv.registered, inv.issued, ?_⟩
  · rw [all]
    exact counted
  · rw [all]
    exact exclusive
  · rw [all]
    exact registered
  · rw [all]
    exact inv.known

theorem uncount_same (w : World) (h : Handle) :
    w.uncount h = { w.uncount h with opening := w.opening, opened := w.opened, closing := w.closing } := by
  unfold World.uncount
  split
  · rfl
  · split <;> rfl

/-- Every operation counts its handle, when counts and generations do not come round. -/
theorem operations_honour :
    Pool.Honours Deals act enabled (fun op w (_ : Env) => ClosedOnce op w ∧ Within op w) Inv := by
  intro β op w e deal rest hdeal inv can ⟨once, within⟩
  cases hdeal with
  | register driver => exact ⟨trivial, inv.register driver⟩
  | unregister id => exact ⟨trivial, inv.unregister id⟩
  | beginOpen id owner options =>
    rw [show rest + Deal.takes _ = rest from add_zero rest] at inv
    refine ⟨trivial, ?_⟩
    simp only [act]
    rcases beginOpen_cases w id owner options with ⟨error, refused⟩ | ⟨i, entry, direction, owner', found, there, free, begun⟩
    · simp only [refused]
      rwa [add_zero]
    · simp only [begun]
      have next := inv.beginOpen direction owner' there free (within i entry found there)
      cases hasOpen : entry.driver.hasOpen with
      | true => simpa only [hasOpen, if_true] using next
      | false => simpa only [hasOpen, Bool.false_eq_true, if_false] using next
  | driverOpen h =>
    refine ⟨trivial, ?_⟩
    have mine : w.opening = h ::ₘ rest.1 := by
      rw [inv.opening, ← singleton_add, add_comm]
      rfl
    by_cases ok : e.error = .ok
    · simp only [act, ok, if_true]
      refine inv.move ?_ rfl ?_ (inv.closing.trans rfl)
      · simp only [World.outstanding, mine, erase_cons_head, add_cons, cons_add]
      · rw [mine, erase_cons_head]
        exact (add_zero rest.1).symm
    · simp only [act, ok, if_false]
      exact inv
  | abandon h =>
    refine ⟨trivial, ?_⟩
    have mine : w.opening = h ::ₘ rest.1 := by
      rw [inv.opening, ← singleton_add, add_comm]
      rfl
    have all : w.outstanding = h ::ₘ (rest.1 + w.opened + w.closing) := by
      rw [World.outstanding, mine, cons_add, cons_add]
    have next := inv.uncount (all ▸ mem_cons_self ..) all
    simp only [act]
    rw [uncount_same w h, mine, erase_cons_head]
    have total : rest + (0 : Rights) = (rest.1, w.closing) := by
      rw [inv.closing]
      ext1 <;> simp
    rwa [total]
  | handleValid h =>
    refine ⟨trivial, ?_⟩
    rw [show rest + Deal.takes _ = rest from add_zero rest] at inv
    simp only [act]
    split
    · rename_i valid
      have accepted := (Bool.and_eq_true_iff.mp valid).1
      have current := inv.current once.1 within accepted
      have opened : h ∈ w.opened := once.2.resolve_right (not_not.mpr current)
      obtain ⟨others, mine⟩ := exists_cons_of_mem opened
      have next : Inv
          { w with
            opening := w.opening
            opened := w.opened.erase h
            closing := h ::ₘ w.closing
            mistaken := w.mistaken || h.registration != w.registrations h.slot } (rest + (0, {h})) := by
        refine inv.move ?_ ?_ ?_ ?_
        · rw [World.outstanding, mine, erase_cons_head, add_cons, add_cons, cons_add]
        · simp [current]
        · rw [inv.opening]
          exact (add_zero rest.1).symm
        · rw [inv.closing, ← singleton_add, add_comm]
          rfl
      exact next
    · simpa only [Bool.false_eq_true, if_false, add_zero] using inv
  | closeFunction h => exact ⟨trivial, inv⟩
  | driverClose h => exact ⟨trivial, inv⟩
  | finish h =>
    refine ⟨trivial, ?_⟩
    have mine : w.closing = h ::ₘ rest.2 := by
      rw [inv.closing, ← singleton_add, add_comm]
      rfl
    have all : w.outstanding = h ::ₘ (w.opening + w.opened + rest.2) := by
      rw [World.outstanding, mine, add_cons]
    have next := inv.uncount (all ▸ mem_cons_self ..) all
    simp only [act]
    rw [uncount_same w h, mine, erase_cons_head]
    have total : rest + (0 : Rights) = (w.opening, rest.2) := by
      rw [inv.opening]
      ext1 <;> simp
    rwa [total]
  | access h a =>
    refine ⟨trivial, ?_⟩
    rw [show rest + Deal.takes _ = rest from add_zero rest] at inv
    simp only [act]
    split
    · rename_i accepted
      have current := inv.current once within accepted
      have next : Inv
          { w with
            opening := w.opening
            opened := w.opened
            closing := w.closing
            mistaken := w.mistaken || h.registration != w.registrations h.slot } (rest + 0) := by
        refine inv.move rfl ?_ ?_ ?_
        · simp [current]
        · rw [add_zero, inv.opening]
        · rw [add_zero, inv.closing]
      exact next
    · simpa only [add_zero] using inv
  | driverAccess h a => exact ⟨trivial, inv⟩

end SolarOs.Streams
