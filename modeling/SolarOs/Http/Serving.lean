import SolarOs.Http.Routes

/-! What every critical section of the HTTP server keeps, as long as none of them clears a
slot that is still needed. -/
namespace SolarOs.Http
open Program Function Option Slots Multiset

variable {w w' : World} {r rest : Rights} {i j : Fin routeMax} {slot : Slot} {owner : Text} {s : Selection}
  {n : Nat}

section
variable (w : World)

def World.refs (i : Fin routeMax) : Nat := ((w.table i).map (·.refs)).getD 0

def World.Withdrawn (owner : Text) : Prop :=
  ∀ i slot, w.table i = some slot → slot.active = true → slot.route.owner ≠ owner

def World.Silent (owner : Text) : Prop := ∀ s ∈ w.selected, s.route.owner ≠ owner

/-- The counts are those of the dispatches, whose routes are still in their slots; owners
that are gone have no routes and no handlers; and no registration has taken another's route. -/
structure World.Sound : Prop where
  counted : ∀ i, w.refs i = w.selected.countP (·.slot = i)
  kept : ∀ s ∈ w.selected, ∃ slot, w.table s.slot = some slot ∧ slot.route = s.route
  departed : ∀ owner, w.departed owner = true → w.Withdrawn owner ∧ w.Silent owner
  unousted : w.ousted = false

def World.Bears (mark : Mark) : Prop :=
  mark.registrations ≤ w.registrations mark.owner ∧
    (w.registrations mark.owner = mark.registrations →
      w.Withdrawn mark.owner ∧ (mark.drained = true → w.Silent mark.owner))

structure Inv (r : Rights) : Prop where
  sound : w.Sound
  selected : w.selected = r.1.1
  servers : r.2.1 + (if w.httpServer then 1 else 0) = if w.serverUp then 1 else 0
  published : w.httpServer = true → ∃ i, w.activeAt i = true
  supported : w.httpServer = true ∨ ∀ i, w.activeAt i = true → i ∈ r.1.2
  marks : ∀ mark ∈ r.2.2, w.Bears mark

end

/-- No critical section clears a slot that a dispatch holds or that another owner has come
to use, none that is all that the server is there for, and none publishes a server when
there is no route left. -/
def Orderly {β : Type} : Op β → World → Prop
  | .abandon i owner, w => ∀ slot, w.table i = some slot → slot.refs = 0 ∧
      (slot.active = true → slot.route.owner = owner ∧
        (w.httpServer = true → ∃ j, j ≠ i ∧ w.activeAt j = true))
  | .publish _, w => ∃ i, w.activeAt i = true
  | .clear owner _, w => ∀ i slot, w.table i = some slot → slot.active = false →
      slot.route.owner = owner → slot.refs = 0
  | _, _ => True

theorem activeAt_iff : w.activeAt i = true ↔ ∃ slot, w.table i = some slot ∧ slot.active = true := by
  rw [World.activeAt, any_eq_true]

theorem refs_of (h : w.table i = some slot) : w.refs i = slot.refs := by
  rw [World.refs, h]
  rfl

theorem refs_none (h : w.table i = none) : w.refs i = 0 := by
  rw [World.refs, h]
  rfl

theorem refs_congr (h : w'.table i = w.table i) : w'.refs i = w.refs i := by
  rw [World.refs, h, World.refs]

theorem active_none (h : w.table i = none) : w.activeAt i = false := by
  rw [World.activeAt, h]
  rfl

theorem active_congr (h : w'.table i = w.table i) : w'.activeAt i = w.activeAt i := by
  rw [World.activeAt, h, World.activeAt]

theorem World.Sound.unselected (h : w.Sound) (none : w.refs i = 0) (hs : s ∈ w.selected) : s.slot ≠ i := by
  rw [h.counted] at none
  exact countP_eq_zero.mp none s hs

theorem World.Sound.congr (h : w.Sound) (table : w'.table = w.table) (selected : w'.selected = w.selected)
    (departed : w'.departed = w.departed) (ousted : w'.ousted = w.ousted) : w'.Sound where
  counted := by
    intro i
    rw [selected, ← h.counted i, World.refs, table, World.refs]
  kept := by
    rw [selected, table]
    exact h.kept
  departed := by
    intro owner gone
    rw [departed] at gone
    rw [World.Withdrawn, World.Silent, table, selected]
    exact h.departed owner gone
  unousted := ousted.trans h.unousted

theorem World.Bears.congr {mark : Mark} (h : w.Bears mark) (table : w'.table = w.table)
    (selected : w'.selected = w.selected) (registrations : w'.registrations = w.registrations) : w'.Bears mark := by
  rw [World.Bears, World.Withdrawn, World.Silent, table, selected, registrations]
  exact h

theorem Inv.congr (h : Inv w r) (table : w'.table = w.table) (selected : w'.selected = w.selected)
    (registrations : w'.registrations = w.registrations) (departed : w'.departed = w.departed)
    (ousted : w'.ousted = w.ousted) (httpServer : w'.httpServer = w.httpServer)
    (serverUp : w'.serverUp = w.serverUp) : Inv w' r where
  sound := h.sound.congr table selected departed ousted
  selected := selected.trans h.selected
  servers := by
    rw [httpServer, serverUp]
    exact h.servers
  published := by
    have active : w'.activeAt = w.activeAt := funext fun i => active_congr (by rw [table])
    rw [httpServer, active]
    exact h.published
  supported := by
    have active : w'.activeAt = w.activeAt := funext fun i => active_congr (by rw [table])
    rw [httpServer, active]
    exact h.supported
  marks := fun mark hmark => (h.marks mark hmark).congr table selected registrations

def World.Fewer (w w' : World) : Prop :=
  ∀ i slot', w'.table i = some slot' → slot'.active = true →
    ∃ slot, w.table i = some slot ∧ slot.active = true ∧ slot.route = slot'.route

theorem World.Withdrawn.mono (fewer : w.Fewer w') (h : w.Withdrawn owner) : w'.Withdrawn owner := by
  intro i slot' hslot' active'
  obtain ⟨slot, hslot, active, same⟩ := fewer i slot' hslot' active'
  rw [← same]
  exact h i slot hslot active

theorem World.Bears.mono {mark : Mark} (h : w.Bears mark) (fewer : w.Fewer w')
    (selected : ∀ s ∈ w'.selected, s ∈ w.selected) (registrations : w'.registrations = w.registrations) :
    w'.Bears mark := by
  rw [World.Bears, registrations]
  refine ⟨h.1, fun same => ⟨(h.2 same).1.mono fewer, fun drained s hs => ?_⟩⟩
  exact (h.2 same).2 drained s (selected s hs)

theorem Inv.abandon (h : Inv w (rest + filled i)) (orderly : Orderly (.abandon i owner) w) :
    Inv (w.abandon i owner) rest := by
  have unused : w.refs i = 0 := by
    cases here : w.table i with
    | none => exact refs_none here
    | some slot => rw [refs_of here, (orderly slot here).1]
  have same : ∀ j, j ≠ i → (w.abandon i owner).table j = w.table j := fun j other => clear_of_ne other
  have gone : (w.abandon i owner).table i = none := clear_same i
  have fewer : w.Fewer (w.abandon i owner) := fun j slot' hslot' active' =>
    ⟨slot', (clear_some.mp hslot').2, active', rfl⟩
  constructor
  case sound =>
    constructor
    case counted =>
      intro j
      by_cases here : j = i
      · rw [here, refs_none gone]
        exact unused.symm.trans (h.sound.counted i)
      · exact (refs_congr (same j here)).trans (h.sound.counted j)
    case kept =>
      intro s hs
      rw [same s.slot (h.sound.unselected unused hs)]
      exact h.sound.kept s hs
    case departed =>
      intro o departed
      exact ⟨(h.sound.departed o departed).1.mono fewer, (h.sound.departed o departed).2⟩
    case unousted =>
      refine Bool.or_eq_false_iff.mpr ⟨h.sound.unousted, ?_⟩
      cases here : w.table i with
      | none => rfl
      | some slot =>
        cases active : slot.active with
        | false => simp [active]
        | true => simp [((orderly slot here).2 active).1]
  case selected => exact h.selected.trans (add_zero rest.1.1)
  case servers => exact h.servers
  case published =>
    intro httpServer
    obtain ⟨j, active⟩ := h.published httpServer
    by_cases here : j = i
    · obtain ⟨slot, hslot, active⟩ := activeAt_iff.mp (here ▸ active)
      obtain ⟨k, other, active⟩ := ((orderly slot hslot).2 active).2 httpServer
      exact ⟨k, (active_congr (same k other)).trans active⟩
    · exact ⟨j, (active_congr (same j here)).trans active⟩
  case supported =>
    refine h.supported.imp_right fun supported j active => ?_
    have other : j ≠ i := by
      rintro rfl
      rw [active_none gone] at active
      cases active
    rw [active_congr (same j other)] at active
    simpa [filled, other] using supported j active
  case marks =>
    intro mark hmark
    exact (h.marks mark (by simpa [filled] using hmark)).mono fewer (fun s hs => hs) rfl

theorem vacant_iff : w.vacant i = true ↔ w.activeAt i = false ∧ w.refs i = 0 := by
  cases here : w.table i with
  | none => simp [World.vacant, here, active_none, refs_none]
  | some slot => simp [World.vacant, World.activeAt, here, refs_of here]

theorem reserve_cases (w : World) (route : Route) : (∃ error, w.reserve route = (w, .error error)) ∨
      ∃ i, w.vacant i = true ∧ w.reserve route =
        ({ w with
          table := w.table.put i ⟨true, 0, route⟩
          registrations := update w.registrations route.owner (w.registrations route.owner + 1)
          departed := update w.departed route.owner false }, .ok i) := by
  rw [World.reserve]
  split
  · exact .inl ⟨_, rfl⟩
  · cases found : (List.finRange routeMax).find? w.vacant with
    | none => exact .inl ⟨_, rfl⟩
    | some i => exact .inr ⟨i, List.find?_some found, rfl⟩

theorem Inv.reserve (h : Inv w rest) {route : Route} (vacant : w.vacant i = true)
    (table : w'.table = w.table.put i ⟨true, 0, route⟩) (registrations : w'.registrations =
      update w.registrations route.owner (w.registrations route.owner + 1))
    (departed : w'.departed = update w.departed route.owner false) (selected : w'.selected = w.selected)
    (ousted : w'.ousted = w.ousted) (httpServer : w'.httpServer = w.httpServer)
    (serverUp : w'.serverUp = w.serverUp) : Inv w' (rest + filled i) := by
  obtain ⟨inactive, unused⟩ := vacant_iff.mp vacant
  have same : ∀ j, j ≠ i → w'.table j = w.table j := fun j other => by rw [table, put_of_ne other]
  have here : w'.table i = some ⟨true, 0, route⟩ := by rw [table, put_same]
  have withdrawn : ∀ o, o ≠ route.owner → w.Withdrawn o → w'.Withdrawn o := by
    intro o other out j slot hslot active
    by_cases place : j = i
    · rw [place, here] at hslot
      cases hslot
      exact other.symm
    · exact out j slot ((same j place).symm.trans hslot) active
  constructor
  case sound =>
    constructor
    case counted =>
      intro j
      rw [selected]
      by_cases place : j = i
      · rw [place, refs_of here]
        exact unused.symm.trans (h.sound.counted i)
      · exact (refs_congr (same j place)).trans (h.sound.counted j)
    case kept =>
      intro s hs
      rw [selected] at hs
      rw [same s.slot (h.sound.unselected unused hs)]
      exact h.sound.kept s hs
    case departed =>
      intro o gone
      rw [departed, update_apply] at gone
      split at gone
      · cases gone
      · rename_i other
        refine ⟨withdrawn o other (h.sound.departed o gone).1, ?_⟩
        rw [World.Silent, selected]
        exact (h.sound.departed o gone).2
    case unousted => exact ousted.trans h.sound.unousted
  case selected => exact selected.trans (h.selected.trans (add_zero _).symm)
  case servers =>
    rw [httpServer, serverUp]
    exact h.servers
  case published => exact fun _ => ⟨i, activeAt_iff.mpr ⟨_, here, rfl⟩⟩
  case supported =>
    rw [httpServer]
    refine h.supported.imp_right fun supported j active => ?_
    by_cases place : j = i
    · exact mem_add.mpr (.inr (mem_singleton.mpr place))
    · rw [active_congr (same j place)] at active
      exact mem_add.mpr (.inl (supported j active))
  case marks =>
    intro mark hmark
    have bears := h.marks mark (by simpa [filled] using hmark)
    rw [World.Bears, registrations, update_apply]
    split
    · rename_i again
      have := bears.1
      rw [again] at this
      exact ⟨by omega, fun equal => absurd equal (by omega)⟩
    · rename_i other
      refine ⟨bears.1, fun equal => ⟨withdrawn _ other (bears.2 equal).1, ?_⟩⟩
      rw [World.Silent, selected]
      exact (bears.2 equal).2

def World.inactivate (w : World) (owner : Text) : Slots routeMax Slot :=
  w.table.change (fun slot => slot.route.owner = owner) fun slot => { slot with active := false }

theorem inactivate_some {slot' : Slot} : w.inactivate owner i = some slot' ↔ ∃ slot, w.table i = some slot ∧
      (if slot.route.owner = owner then { slot with active := false } else slot) = slot' := by
  rw [World.inactivate, change_some]
  simp only [decide_eq_true_eq]

theorem deactivate_cases (w : World) (owner : Text) :
    (w.deactivate owner = ({ w with table := w.inactivate owner, httpServer := false, bearerToken := [] },
        true, w.httpServer, w.registrations owner) ∧
        ∀ i, ({ w with table := w.inactivate owner } : World).activeAt i = false) ∨
      ∃ found, w.deactivate owner =
        ({ w with table := w.inactivate owner }, found, false, w.registrations owner) ∧
        ((∃ i, w.activeAt i = true) → ∃ i, ({ w with table := w.inactivate owner } : World).activeAt i = true) := by
  rw [World.deactivate]
  cases found : (w.table.find fun slot => slot.route.owner = owner).isSome with
  | false =>
    refine .inr ⟨false, rfl, fun ⟨i, active⟩ => ⟨i, ?_⟩⟩
    obtain ⟨slot, hslot, active⟩ := activeAt_iff.mp active
    refine activeAt_iff.mpr ⟨slot, inactivate_some.mpr ⟨slot, hslot, if_neg ?_⟩, active⟩
    have missing := find_none (isSome_eq_false_iff.mp found |> isNone_iff_eq_none.mp) hslot
    simpa using missing
  | true =>
    cases any : ({ w with table := w.inactivate owner } : World).anyActive with
    | false =>
      refine .inl ⟨?_, fun i => ?_⟩
      · simp only [World.inactivate] at any
        simp only [any]
        rfl
      · have none := List.any_eq_false.mp any i (List.mem_finRange i)
        simpa using none
    | true =>
      refine .inr ⟨true, ?_, fun _ => ?_⟩
      · simp only [World.inactivate] at any
        simp only [any]
        rfl
      · obtain ⟨i, -, active⟩ := List.any_eq_true.mp any
        exact ⟨i, active⟩

theorem Inv.inactivate (h : Inv w rest) (w' : World) (table : w'.table = w.inactivate owner)
    (selected : w'.selected = w.selected) (registrations : w'.registrations = w.registrations)
    (departed : w'.departed = w.departed) (ousted : w'.ousted = w.ousted) :
    w'.Sound ∧ w.Fewer w' ∧ ∀ mark ∈ (rest + marked ⟨owner, w.registrations owner, false⟩).2.2, w'.Bears mark := by
  have fewer : w.Fewer w' := by
    intro i slot' hslot' active'
    rw [table] at hslot'
    obtain ⟨slot, hslot, change⟩ := inactivate_some.mp hslot'
    split at change
    · rw [← change] at active'
      cases active'
    · exact ⟨slot, hslot, change ▸ active', by rw [change]⟩
  have refs : ∀ i, w'.refs i = w.refs i := by
    intro i
    rw [World.refs, table, World.inactivate, change, Option.map_map, World.refs]
    congr 2
    funext slot
    simp only [Function.comp_apply]
    split <;> rfl
  refine ⟨⟨?_, ?_, ?_, ousted.trans h.sound.unousted⟩, fewer, ?_⟩
  · intro i
    rw [refs, selected]
    exact h.sound.counted i
  · intro s hs
    rw [selected] at hs
    obtain ⟨slot, hslot, same⟩ := h.sound.kept s hs
    refine ⟨_, by rw [table]; exact inactivate_some.mpr ⟨slot, hslot, rfl⟩, ?_⟩
    split
    · exact same
    · exact same
  · intro o gone
    rw [departed] at gone
    refine ⟨(h.sound.departed o gone).1.mono fewer, ?_⟩
    rw [World.Silent, selected]
    exact (h.sound.departed o gone).2
  · intro mark hmark
    rcases mem_add.mp hmark with old | new
    · exact (h.marks mark old).mono fewer (fun s hs => selected ▸ hs) registrations
    · rw [mem_singleton.mp new]
      refine ⟨by rw [registrations], fun _ => ⟨fun i slot' hslot' active' same => ?_, by simp⟩⟩
      rw [table] at hslot'
      obtain ⟨slot, hslot, change⟩ := inactivate_some.mp hslot'
      split at change
      · rw [← change] at active'
        cases active'
      · rename_i other
        exact other (change ▸ same)

theorem Inv.giveUp {mark : Mark} (h : Inv w (rest + marked mark)) : Inv w rest :=
  ⟨h.sound, h.selected.trans (add_zero _), h.servers, h.published, by simpa [marked] using h.supported,
    fun mark hmark => h.marks mark (mem_add.mpr (.inl hmark))⟩

theorem Inv.deactivate (h : Inv w rest) (owner : Text) :
    Inv (w.deactivate owner).1 (rest + if (w.deactivate owner).2.1 then
      marked ⟨owner, (w.deactivate owner).2.2.2, false⟩ + (if (w.deactivate owner).2.2.1 then server else 0)
    else 0) := by
  rcases deactivate_cases w owner with ⟨result, idle⟩ | ⟨found, result, stays⟩
  · rw [result]
    obtain ⟨sound, fewer, marks⟩ := h.inactivate { w with
      table := w.inactivate owner, httpServer := false, bearerToken := [] } rfl rfl rfl rfl rfl
    refine ⟨sound, ?_, ?_, nofun, .inr fun i active => ?_, ?_⟩
    · have selected := h.selected
      cases w.httpServer <;> simpa [marked, server] using selected
    · have servers := h.servers
      cases here : w.httpServer <;> simp [here, marked, server] at servers ⊢ <;> exact servers
    · exact nomatch (idle i).symm.trans active
    · cases w.httpServer <;> simpa [server] using marks
  · rw [result]
    obtain ⟨sound, fewer, marks⟩ := h.inactivate { w with table := w.inactivate owner } rfl rfl rfl rfl rfl
    have kept : Inv { w with table := w.inactivate owner } (rest + marked ⟨owner, w.registrations owner, false⟩) := by
      refine ⟨sound, by simpa [marked] using h.selected, by simpa [marked] using h.servers,
        fun up => stays (h.published up), ?_, marks⟩
      refine h.supported.imp_right fun supported i active => ?_
      obtain ⟨slot', hslot', active'⟩ := activeAt_iff.mp active
      obtain ⟨slot, hslot, active, -⟩ := fewer i slot' hslot' active'
      simpa [marked] using supported i (activeAt_iff.mpr ⟨slot, hslot, active⟩)
    cases found with
    | true => simpa using kept
    | false => simpa using kept.giveUp

theorem Inv.isBusy (h : Inv w (rest + marked ⟨owner, n, false⟩)) (idle : w.isBusy owner = false) :
    Inv w (rest + marked ⟨owner, n, true⟩) := by
  have silent : w.Silent owner := by
    intro s hs same
    obtain ⟨slot, hslot, route⟩ := h.sound.kept s hs
    have unused := find_none (isNone_iff_eq_none.mp (isSome_eq_false_iff.mp idle)) hslot
    have refs : w.refs s.slot = 0 := by
      rw [refs_of hslot]
      simpa [route, same] using unused
    exact h.sound.unselected refs hs rfl
  refine ⟨h.sound, by simpa [marked] using h.selected, h.servers, h.published,
    by simpa [marked] using h.supported, fun mark hmark => ?_⟩
  have mine := h.marks ⟨owner, n, false⟩ (by simp [marked])
  rcases mem_add.mp hmark with old | new
  · exact h.marks mark (mem_add.mpr (.inl old))
  · rw [mem_singleton.mp new]
    exact ⟨mine.1, fun same => ⟨(mine.2 same).1, fun _ => silent⟩⟩

theorem Inv.clear (h : Inv w (rest + marked ⟨owner, n, true⟩)) (orderly : Orderly (.clear owner n) w) :
    Inv (w.clear owner n) rest := by
  have kept : ∀ i slot, (w.clear owner n).table i = some slot ↔
      w.table i = some slot ∧ (!slot.active && slot.route.owner = owner) = false := fun i slot => drop_some
  have fewer : w.Fewer (w.clear owner n) := fun i slot' hslot' active' =>
    ⟨slot', ((kept i slot').mp hslot').1, active', rfl⟩
  have active : ∀ i, (w.clear owner n).activeAt i = w.activeAt i := by
    intro i
    rw [Bool.eq_iff_iff, activeAt_iff, activeAt_iff]
    refine exists_congr fun slot => ?_
    rw [kept]
    constructor
    · exact fun ⟨there, active⟩ => ⟨there.1, active⟩
    · exact fun ⟨there, active⟩ => ⟨⟨there, by rw [active]; rfl⟩, active⟩
  have same : ∀ i, (w.clear owner n).table i = w.table i ∨
      (w.clear owner n).table i = none ∧ w.refs i = 0 := by
    intro i
    cases here : w.table i with
    | none => exact .inl (by simp [World.clear, drop, here])
    | some slot =>
      by_cases drops : slot.active = false ∧ slot.route.owner = owner
      · refine .inr ⟨by simp [World.clear, drop, here, drops.1, drops.2], ?_⟩
        rw [refs_of here]
        exact orderly i slot here drops.1 drops.2
      · refine .inl ((kept i slot).mpr ⟨here, ?_⟩)
        cases active : slot.active with
        | true => rfl
        | false => simpa using fun here => drops ⟨active, here⟩
  have mine := h.marks ⟨owner, n, true⟩ (by simp [marked])
  constructor
  case sound =>
    constructor
    case counted =>
      intro i
      rcases same i with stays | ⟨gone, unused⟩
      · exact (refs_congr stays).trans (h.sound.counted i)
      · exact (refs_none gone).trans (unused.symm.trans (h.sound.counted i))
    case kept =>
      intro s hs
      rcases same s.slot with stays | ⟨-, unused⟩
      · rw [stays]
        exact h.sound.kept s hs
      · exact absurd rfl (h.sound.unselected unused hs)
    case departed =>
      intro o gone
      have out : w.Withdrawn o ∧ w.Silent o := by
        by_cases current : w.registrations owner = n
        · by_cases here : o = owner
          · rw [here]
            exact ⟨(mine.2 current).1, (mine.2 current).2 rfl⟩
          · refine h.sound.departed o ?_
            simpa [World.clear, current, here] using gone
        · refine h.sound.departed o ?_
          simpa [World.clear, current] using gone
      exact ⟨out.1.mono fewer, out.2⟩
    case unousted => exact h.sound.unousted
  case selected => exact h.selected.trans (add_zero _)
  case servers => exact h.servers
  case published =>
    intro up
    obtain ⟨i, here⟩ := h.published up
    exact ⟨i, (active i).trans here⟩
  case supported =>
    refine h.supported.imp_right fun supported i here => ?_
    simpa [marked] using supported i ((active i).symm.trans here)
  case marks =>
    intro mark hmark
    exact (h.marks mark (mem_add.mpr (.inl hmark))).mono fewer (fun s hs => hs) rfl

theorem findRoute_active {table : Slots routeMax Slot} {method : Method} {path : Text}
    {slots : List (Fin routeMax)} {best : Option Selection}
    (good : ∀ s, best = some s → ∃ slot, table s.slot = some slot ∧ slot.active = true ∧ slot.route = s.route)
    (found : findRoute table method path slots best = some s) :
    ∃ slot, table s.slot = some slot ∧ slot.active = true ∧ slot.route = s.route := by
  induction slots generalizing best with
  | nil => exact good s found
  | cons i slots ih =>
    refine ih ?_ found
    intro t ht
    cases here : table i with
    | none =>
      rw [here] at ht
      exact good t ht
    | some slot =>
      rw [here] at ht
      dsimp only at ht
      by_cases fits : routeMatches slot method path = true
      · have active : slot.active = true := by
          simp only [routeMatches, Bool.and_eq_true] at fits
          exact fits.1.1.1
        rw [if_pos fits] at ht
        cases best with
        | none =>
          cases ht
          exact ⟨slot, here, active, rfl⟩
        | some found =>
          dsimp only at ht
          split at ht
          · cases ht
            exact ⟨slot, here, active, rfl⟩
          · exact good t ht
      · rw [if_neg fits] at ht
        exact good t ht

theorem modify_refs {table : Slots routeMax Slot} {f : Nat → Nat} {slot' : Slot} :
    table.modify i (fun slot => { slot with refs := f slot.refs }) j = some slot' ↔
      ∃ slot, table j = some slot ∧ { slot with refs := if j = i then f slot.refs else slot.refs } = slot' := by
  rw [modify_apply]
  split
  · rw [map_eq_some_iff]
  · constructor
    · exact fun here => ⟨slot', here, rfl⟩
    · rintro ⟨slot, here, rfl⟩
      exact here

/-- A dispatch holds the slot of the route it has selected, or gives it back. -/
theorem Inv.recount {r' : Rights} (h : Inv w r) {f : Nat → Nat}
    (table : w'.table = w.table.modify i fun slot => { slot with refs := f slot.refs })
    (counted : ∀ j, w'.refs j = w'.selected.countP (·.slot = j))
    (kept : ∀ s ∈ w'.selected, ∃ slot, w.table s.slot = some slot ∧ slot.route = s.route)
    (silent : ∀ o, w.Withdrawn o → w.Silent o → w'.Silent o) (selected : w'.selected = r'.1.1)
    (slots : r'.1.2 = r.1.2) (others : r'.2 = r.2) (registrations : w'.registrations = w.registrations)
    (departed : w'.departed = w.departed) (ousted : w'.ousted = w.ousted)
    (httpServer : w'.httpServer = w.httpServer) (serverUp : w'.serverUp = w.serverUp) : Inv w' r' := by
  have fewer : w.Fewer w' := by
    intro j slot' hslot' active'
    rw [table] at hslot'
    obtain ⟨slot, hslot, rfl⟩ := modify_refs.mp hslot'
    exact ⟨slot, hslot, active', rfl⟩
  have active : ∀ j, w'.activeAt j = w.activeAt j := by
    intro j
    rw [World.activeAt, World.activeAt, table, modify_apply]
    split
    · exact any_map
    · rfl
  constructor
  case sound =>
    refine ⟨counted, fun s hs => ?_, fun o gone => ?_, ousted.trans h.sound.unousted⟩
    · obtain ⟨slot, hslot, same⟩ := kept s hs
      refine ⟨{ slot with refs := if s.slot = i then f slot.refs else slot.refs }, ?_, same⟩
      rw [table]
      exact modify_refs.mpr ⟨slot, hslot, rfl⟩
    · rw [departed] at gone
      obtain ⟨out, quiet⟩ := h.sound.departed o gone
      exact ⟨out.mono fewer, silent o out quiet⟩
  case selected => exact selected
  case servers =>
    rw [others, httpServer, serverUp]
    exact h.servers
  case published =>
    intro up
    rw [httpServer] at up
    obtain ⟨j, here⟩ := h.published up
    exact ⟨j, (active j).trans here⟩
  case supported =>
    rw [httpServer, slots]
    exact h.supported.imp_right fun supported j here => supported j ((active j).symm.trans here)
  case marks =>
    intro mark hmark
    rw [others] at hmark
    have bears := h.marks mark hmark
    rw [World.Bears, registrations]
    refine ⟨bears.1, fun same => ⟨(bears.2 same).1.mono fewer, fun drained => ?_⟩⟩
    exact silent _ (bears.2 same).1 ((bears.2 same).2 drained)

theorem refs_modify (w' : World) {f : Nat → Nat} {slot : Slot} (here : w.table i = some slot)
    (table : w'.table = w.table.modify i fun slot => { slot with refs := f slot.refs }) :
    w'.refs j = if j = i then f (w.refs i) else w.refs j := by
  rw [World.refs, table, modify_apply]
  split
  · rename_i same
    rw [same, here, refs_of here]
    rfl
  · rfl

theorem Inv.select (h : Inv w rest) (method : Method) (path : Text) : Inv (w.select method path).1
      (rest + match (w.select method path).2 with | some s => holding s | none => 0) := by
  rw [World.select]
  cases found : findRoute w.table method path (List.finRange routeMax) none with
  | none => simpa using h
  | some s =>
    obtain ⟨slot, here, active, same⟩ := findRoute_active (by intro s none; cases none) found
    refine h.recount (f := (· + 1)) (i := s.slot) rfl ?_ ?_ ?_ ?_ (add_zero _) (add_zero _) rfl rfl rfl rfl rfl
    · intro j
      rw [refs_modify _ here rfl, countP_cons, h.sound.counted, h.sound.counted]
      by_cases place : j = s.slot
      · rw [if_pos place, place, if_pos rfl]
      · rw [if_neg place, if_neg (Ne.symm place), add_zero]
    · intro t ht
      rcases mem_cons.mp ht with rfl | old
      · exact ⟨slot, here, same⟩
      · exact h.sound.kept t old
    · intro o out quiet t ht
      rcases mem_cons.mp ht with rfl | old
      · rw [← same]
        exact out t.slot slot here active
      · exact quiet t old
    · have selected := h.selected
      show s ::ₘ w.selected = rest.1.1 + {s}
      rw [selected, add_comm, singleton_add]

theorem Inv.release (h : Inv w (rest + holding s)) : Inv (w.release s) rest := by
  have held : s ∈ w.selected := by
    rw [h.selected]
    exact mem_add.mpr (.inr (mem_singleton_self s))
  obtain ⟨slot, here, same⟩ := h.sound.kept s held
  refine h.recount (f := (· - 1)) (i := s.slot) rfl ?_ ?_ ?_ ?_ (add_zero _).symm (add_zero _).symm rfl rfl rfl rfl rfl
  · intro j
    have split : w.selected.countP (·.slot = j) =
        (w.selected.erase s).countP (·.slot = j) + if s.slot = j then 1 else 0 := by
      rw [← countP_cons, cons_erase held]
    show _ = (w.selected.erase s).countP (·.slot = j)
    rw [refs_modify (w.release s) (f := (· - 1)) here rfl]
    by_cases place : j = s.slot
    · rw [if_pos place, h.sound.counted, ← place, split, if_pos place.symm, Nat.add_sub_cancel]
    · rw [if_neg place, h.sound.counted, split, if_neg (Ne.symm place), add_zero]
  · exact fun t ht => h.sound.kept t (mem_of_mem_erase ht)
  · exact fun o _ quiet t ht => quiet t (mem_of_mem_erase ht)
  · show w.selected.erase s = rest.1.1
    rw [h.selected]
    show (rest.1.1 + {s}).erase s = rest.1.1
    rw [add_comm, singleton_add, erase_cons_head]

theorem Inv.server_only (h : Inv w (rest + server)) : rest.2.1 = 0 ∧ w.httpServer = false ∧ w.serverUp = true := by
  have servers : rest.2.1 + 1 + (if w.httpServer then 1 else 0) = if w.serverUp then 1 else 0 := h.servers
  cases httpServer : w.httpServer <;> cases serverUp : w.serverUp <;> simp [httpServer, serverUp] at servers ⊢
  exact servers

theorem Inv.serving {r' : Rights} (h : Inv w r) (table : w'.table = w.table) (selected : w'.selected = w.selected)
    (registrations : w'.registrations = w.registrations) (departed : w'.departed = w.departed)
    (ousted : w'.ousted = w.ousted) (selections : r'.1.1 = r.1.1) (marks : r'.2.2 = r.2.2)
    (servers : r'.2.1 + (if w'.httpServer then 1 else 0) = if w'.serverUp then 1 else 0)
    (published : w'.httpServer = true → ∃ i, w.activeAt i = true)
    (supported : w'.httpServer = true ∨ ∀ i, w.activeAt i = true → i ∈ r'.1.2) : Inv w' r' := by
  have active : w'.activeAt = w.activeAt := funext fun i => active_congr (by rw [table])
  refine ⟨h.sound.congr table selected departed ousted, ?_, servers, ?_, ?_, fun mark hmark => ?_⟩
  · rw [selected, selections]
    exact h.selected
  · rwa [active]
  · rwa [active]
  · rw [marks] at hmark
    exact (h.marks mark hmark).congr table selected registrations

theorem Inv.httpdStop (h : Inv w (rest + server)) : Inv { w with serverUp := false } rest := by
  obtain ⟨none, away, -⟩ := h.server_only
  refine h.serving rfl rfl rfl rfl rfl (add_zero _).symm (add_zero _).symm ?_ h.published ?_
  · rw [none, away]
    rfl
  · simpa [server] using h.supported

theorem Inv.httpdStart (h : Inv w rest) (down : w.serverUp = false) :
    Inv { w with serverUp := true } (rest + server) := by
  have servers := h.servers
  rw [down] at servers
  refine h.serving rfl rfl rfl rfl rfl (add_zero _) (add_zero _) ?_ h.published ?_
  · show rest.2.1 + 1 + (if w.httpServer then 1 else 0) = 1
    rw [add_right_comm, servers]
    rfl
  · simpa [server] using h.supported

theorem Inv.publish (h : Inv w (rest + (filled i + server))) (token : Text) (orderly : Orderly (.publish token) w) :
    Inv { w with httpServer := true, bearerToken := token } rest := by
  have held : Inv w (rest + filled i + server) := by rwa [add_assoc]
  obtain ⟨none, -, up⟩ := held.server_only
  refine h.serving rfl rfl rfl rfl rfl (add_zero _).symm (add_zero _).symm ?_ (fun _ => orderly) (.inl rfl)
  rw [show rest.2.1 = 0 from none, up]
  rfl

theorem Inv.isRunning (h : Inv w (rest + filled i)) (running : w.httpServer = true) : Inv w rest :=
  ⟨h.sound, h.selected.trans (add_zero _), h.servers, h.published, .inl running,
    fun mark hmark => h.marks mark (mem_add.mpr (.inl hmark))⟩

theorem honours : Pool.Honours Deals act enabled (fun op w (_ : Env) => Orderly op w) Inv := by
  intro β op w e deal rest h inv can orderly
  cases h with
  | reserve route =>
    rw [add_zero] at inv
    refine ⟨trivial, ?_⟩
    rcases reserve_cases w route with ⟨error, result⟩ | ⟨i, vacant, result⟩
    · simp only [act, result]
      exact (add_zero rest).symm ▸ inv
    · simp only [act, result]
      exact inv.reserve vacant rfl rfl rfl rfl rfl rfl rfl
  | isRunning i =>
    refine ⟨trivial, ?_⟩
    show Inv w (rest + if w.httpServer then 0 else filled i)
    split
    · rw [add_zero]
      exact inv.isRunning ‹_›
    · exact inv
  | httpdStart =>
    rw [add_zero] at inv
    refine ⟨trivial, ?_⟩
    show Inv (act .httpdStart w e).1 (rest + if (act .httpdStart w e).2 = .ok then server else 0)
    rw [act]
    cases up : w.serverUp with
    | true =>
      have failed : (if e.error = .ok then EspErr.fail else e.error) ≠ .ok := by
        split
        · decide
        · assumption
      simp only [if_true]
      rw [if_neg failed, add_zero]
      exact inv
    | false =>
      by_cases ok : e.error = .ok
      · simpa [ok] using inv.httpdStart up
      · simpa [ok] using inv
  | httpdStop =>
    refine ⟨trivial, ?_⟩
    rw [add_zero]
    exact inv.httpdStop
  | publish i token =>
    refine ⟨trivial, ?_⟩
    rw [add_zero]
    exact inv.publish token orderly
  | abandon i owner =>
    refine ⟨trivial, ?_⟩
    rw [add_zero]
    exact inv.abandon orderly
  | deactivate owner =>
    rw [add_zero] at inv
    refine ⟨trivial, ?_⟩
    exact inv.deactivate owner
  | isBusy owner registrations again =>
    refine ⟨trivial, ?_⟩
    show Inv w (rest + if w.isBusy owner then (if again then _ else 0) else _)
    cases busy : w.isBusy owner with
    | false => exact inv.isBusy busy
    | true =>
      cases again with
      | true => exact inv
      | false => exact (add_zero rest).symm ▸ inv.giveUp
  | clear owner registrations =>
    refine ⟨trivial, ?_⟩
    rw [add_zero]
    exact inv.clear orderly
  | select method path =>
    rw [add_zero] at inv
    exact ⟨trivial, inv.select method path⟩
  | release s =>
    refine ⟨trivial, ?_⟩
    rw [add_zero]
    exact inv.release
  | arrive | leave =>
    exact ⟨trivial, inv.congr rfl rfl rfl rfl rfl rfl rfl⟩
  | _ => exact ⟨trivial, inv⟩

end SolarOs.Http

/-! Every run of registrations, unregistrations and requests in which no slot is cleared
that is still needed keeps the routes and the server in order; one that loses a route. -/
namespace SolarOs.Http
open Program Function Option

/-- What is promised between any two critical sections, and of a server when no call is in
progress. -/
structure Served (pool : Calls) : Prop where
  sound : pool.state.Sound
  serving : pool.quiet = true → (pool.state.serverUp = true ↔ ∃ i, pool.state.activeAt i = true)

def Proper (pool : Calls) : Turn Call Env → Prop :=
  Pool.Allowed enabled (fun op w (_ : Env) => Orderly op w) pool

instance {β : Type} (op : Op β) (w : World) : Decidable (Orderly op w) := by
  apply Op.casesOn (motive := fun _ op => Decidable (Orderly op w)) op <;> intros <;> dsimp only [Orderly] <;>
    infer_instance

instance (pool : Calls) (t : Turn Call Env) : Decidable (Proper pool t) :=
  Pool.decideAllowed enabled (fun op w (_ : Env) => Orderly op w) (fun _ _ _ => inferInstance) pool t

theorem boot_inv : Inv boot.state 0 where
  sound :=
    { counted := fun _ => rfl
      kept := fun s hs => absurd hs (Multiset.notMem_zero s)
      departed := nofun
      unousted := rfl }
  selected := rfl
  servers := rfl
  published := nofun
  supported := .inr nofun
  marks := fun mark hmark => absurd hmark (Multiset.notMem_zero mark)

/-- In every run, whatever the order of the critical sections, the references are those of
the dispatches, no slot that a dispatch holds is cleared or filled again, no handler of an
owner that is gone runs, no registration that fails takes the route of another, and between
the calls there is a server exactly when there is a route. -/
theorem routes_served {turns : List (Turn Call Env)}
    (h : Machine.Admits (Pool.turn act enabled body) Proper boot turns) :
    Served (Machine.run (Pool.turn act enabled body) boot turns) := by
  have backed : Pool.Backed Deals Clean Inv boot := ⟨0, rfl, boot_inv⟩
  obtain ⟨total, share, inv⟩ := Pool.run_backed honours body_clean backed h
  refine ⟨inv.sound, fun quiet => ?_⟩
  rw [Share.quiet share quiet] at inv
  have servers : 0 + (if _ then 1 else 0) = if _ then 1 else 0 := inv.servers
  rw [zero_add] at servers
  have same : (Machine.run (Pool.turn act enabled body) boot turns).state.httpServer =
      (Machine.run (Pool.turn act enabled body) boot turns).state.serverUp := by
    revert servers
    cases World.httpServer _ <;> cases World.serverUp _ <;> simp
  rw [← same]
  refine ⟨inv.published, fun ⟨i, active⟩ => ?_⟩
  rcases inv.supported with up | idle
  · exact up
  · exact absurd (idle i active) (Multiset.notMem_zero i)

def page (owner path : UInt8) : Route where
  owner := [owner]
  uri := [47, path]
  method := .get
  byPrefix := false
  auth := .isPublic
  handler := some 0

def fine : Env := ⟨true, [49], .ok⟩

def steps (thread count : Nat) (e : Env) : List (Turn Call Env) := List.replicate count (.step thread e)

def onePage : List (Turn Call Env) :=
  .start (.registerRoute (page 97 97)) :: steps 0 8 fine ++
    (.start (.dispatchRequest ⟨.get, [47, 97], []⟩) :: steps 1 5 fine) ++
      (.start (.unregisterOwner [97]) :: steps 2 4 fine)

theorem routes_served_once : Served (Machine.run (Pool.turn act enabled body) boot onePage) :=
  routes_served (by decide)

/-- Two owners register their first pages at once; the one whose server comes too late takes
its page back while a request is at work on it. -/
def tooLate : List (Turn Call Env) :=
  [.start (.registerRoute (page 97 97)), .start (.registerRoute (page 98 98))] ++ steps 0 3 fine ++
    steps 1 3 fine ++ steps 0 3 fine ++
      (.start (.dispatchRequest ⟨.get, [47, 98], []⟩) :: steps 2 2 fine) ++ steps 1 2 fine

theorem held_slot_cleared : ¬Served (Machine.run (Pool.turn act enabled body) boot tooLate) := by
  intro served
  have counted := served.sound.counted ⟨1, by decide⟩
  revert counted
  decide

end SolarOs.Http
