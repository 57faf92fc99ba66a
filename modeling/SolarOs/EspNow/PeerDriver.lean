import SolarOs.EspNow.PeerUndo
import SolarOs.Library.Alone
import SolarOs.EspNow.PeerStanding

/-! A call that runs alone leaves the driver's peers and the stored ones as the table has
them, whatever fails, unless a driver call fails while its change is undone. -/
namespace SolarOs.EspNow.Peers
open Program List Finset

variable {w : World} {A B : Table} {d : Finset Mac}

def entry {β : Type} : Op β → Prop
  | .change _ => True
  | _ => False

/-- The driver and the store have the table's peers, or undoing a change has failed. -/
structure Agrees (w : World) : Prop where
  sound : w.table.Sound
  agrees : w.rollbackFailed = true ∨
    w.driver = insert broadcastMac (macs w.table) ∧ w.stored = configuredRecords w.table

theorem mem_macs {t : Table} {mac : Mac} : mac ∈ macs t ↔ ∃ i p, t i = some p ∧ p.mac = mac := by
  rw [macs, mem_toFinset, List.mem_filterMap]
  constructor
  · rintro ⟨i, -, hi⟩
    obtain ⟨p, hp, same⟩ := Option.map_eq_some_iff.mp hi
    exact ⟨i, p, hp, same⟩
  · rintro ⟨i, p, hi, same⟩
    exact ⟨i, mem_finRange i, Option.map_eq_some_iff.mpr ⟨p, hi, same⟩⟩

theorem hasMac_iff {t : Table} {mac : Mac} : hasMac t mac = true ↔ mac ∈ macs t := by
  rw [hasMac, Option.isSome_iff_exists, mem_macs]
  constructor
  · rintro ⟨i, found⟩
    obtain ⟨p, hp, same⟩ := Slots.find_some found
    exact ⟨i, p, hp, of_decide_eq_true same⟩
  · rintro ⟨i, p, hi, same⟩
    exact Slots.find_isSome (fun q : Peer => decide (q.mac = mac)) hi (by simp [same])

def Between (A B : Table) (d : Finset Mac) : Prop :=
  insert broadcastMac (macs A ∩ macs B) ⊆ d ∧ d ⊆ insert broadcastMac (macs A ∪ macs B)

theorem Between.symm (h : Between A B d) : Between B A d := by
  unfold Between at *
  rwa [inter_comm, union_comm]

def Reads (w : World) (after : Program Op Table) (B : Table) : Prop :=
  ∀ d, Wp act (fun t s => t = B ∧ s = { w with driver := d }) after { w with driver := d }

def DriverOnly (w : World) (Post : EspErr → Finset Mac → Prop) (error : EspErr) (s : World) : Prop :=
  ∃ d, s = { w with driver := d } ∧ Post error d

theorem driverAddPeer_wp (w : World) (mac : Mac) (d : Finset Mac) :
    Wp act (DriverOnly w fun error d' => d ⊆ d' ∧ d' ⊆ insert mac d ∧ (error = .ok → mac ∈ d'))
      (driverAddPeer mac) { w with driver := d } := by
  have rate : ∀ (error : EspErr) (d' : Finset Mac), d ⊆ d' → d' ⊆ insert mac d → (error = .ok → mac ∈ d') →
      Wp act (DriverOnly w fun error d' => d ⊆ d' ∧ d' ⊆ insert mac d ∧ (error = .ok → mac ∈ d'))
        (if error = .ok then invoke (.configureRate mac) else pure error : Program Op EspErr)
        { w with driver := d' } := by
    intro error d' grows only there
    split
    · rename_i ok
      exact fun e => ⟨d', rfl, grows, only, fun _ => there ok⟩
    · exact ⟨d', rfl, grows, only, there⟩
  by_cases known : mac ∈ d
  · refine Wp.invoke_bind fun e => ⟨{ w with driver := d }, true, by simp [act, known], ?_⟩
    refine Wp.invoke_bind fun e => ⟨{ w with driver := d }, e.error, by simp [act, known], ?_⟩
    exact rate e.error d (Finset.Subset.refl d) (subset_insert ..) fun _ => known
  · refine Wp.invoke_bind fun e => ⟨{ w with driver := d }, false, by simp [act, known], ?_⟩
    refine Wp.invoke_bind fun e => ?_
    by_cases ok : e.error = .ok
    · refine ⟨{ w with driver := insert mac d }, e.error, by simp [act, known, ok], ?_⟩
      exact rate e.error _ (subset_insert ..) (Finset.Subset.refl _) fun _ => mem_insert_self ..
    · refine ⟨{ w with driver := d }, e.error, by simp [act, known, ok], ?_⟩
      exact rate e.error d (Finset.Subset.refl d) (subset_insert ..) fun passed => absurd passed ok

variable {after : Program Op Table} {snapshot : Snapshot}

theorem deletePeers_wp (reads : Reads w after B) (todo : List (Fin peerMax)) (d : Finset Mac) :
    Wp act (DriverOnly w fun error d' => d' ⊆ d ∧ (∀ mac ∈ d, mac ∈ macs A → mac ∈ macs B → mac ∈ d') ∧
        (∀ mac ∈ d, mac ∉ macs A → mac ∈ d') ∧
        (error = .ok → ∀ i ∈ todo, ∀ p, A i = some p → p.mac ∈ macs B ∨ p.mac ∉ d'))
      (deletePeers A after todo) { w with driver := d } := by
  induction todo generalizing d with
  | nil => exact ⟨d, rfl, Finset.Subset.refl d, fun _ there _ _ => there, fun _ there _ => there, by simp⟩
  | cons i todo ih =>
    -- the slot needs nothing more
    have skip : ∀ d' : Finset Mac, d' ⊆ d → (∀ mac ∈ d, mac ∈ macs A → mac ∈ macs B → mac ∈ d') →
        (∀ mac ∈ d, mac ∉ macs A → mac ∈ d') → (∀ p, A i = some p → p.mac ∈ macs B ∨ p.mac ∉ d') →
        Wp act (DriverOnly w fun error d' =>
            d' ⊆ d ∧ (∀ mac ∈ d, mac ∈ macs A → mac ∈ macs B → mac ∈ d') ∧
            (∀ mac ∈ d, mac ∉ macs A → mac ∈ d') ∧
            (error = .ok → ∀ j ∈ i :: todo, ∀ p, A j = some p → p.mac ∈ macs B ∨ p.mac ∉ d'))
          (deletePeers A after todo) { w with driver := d' } := by
      intro d' fewer both others here
      refine (ih d').mono ?_
      rintro error s ⟨d'', rfl, fewer', both', others', all⟩
      refine ⟨d'', rfl, fewer'.trans fewer, fun mac there a b => both' mac (both mac there a b) a b,
        fun mac there a => others' mac (others mac there a) a, fun ok j member p hj => ?_⟩
      rcases mem_cons.mp member with rfl | later
      · exact (here p hj).imp_right fun gone there => gone (fewer' there)
      · exact all ok j later p hj
    have done := skip d (Finset.Subset.refl d) (fun _ there _ _ => there) (fun _ there _ => there)
    unfold deletePeers
    cases hi : A i with
    | none => exact done fun p hp => by simp [hi] at hp
    | some p =>
      refine (reads d).bind ?_
      rintro t s ⟨rfl, rfl⟩
      split
      · rename_i kept
        refine done fun q hq => .inl ?_
        rw [hi] at hq
        cases hq
        exact hasMac_iff.mp kept
      · rename_i gone
        by_cases known : p.mac ∈ d
        · refine Wp.invoke_bind fun e => ⟨{ w with driver := d }, true, by simp [act, known], ?_⟩
          refine Wp.invoke_bind fun e => ?_
          by_cases ok : e.error = .ok
          · refine ⟨{ w with driver := d.erase p.mac }, .ok, by simp [act, known, ok], ?_⟩
            refine skip (d.erase p.mac) (erase_subset ..) (fun mac there a b => mem_erase.mpr ⟨?_, there⟩)
              (fun mac there a => mem_erase.mpr ⟨?_, there⟩) fun q hq => .inr ?_
            · rintro rfl
              exact gone (hasMac_iff.mpr b)
            · rintro rfl
              exact a (mem_macs.mpr ⟨i, p, hi, rfl⟩)
            · rw [hi] at hq
              cases hq
              exact notMem_erase p.mac d
          · refine ⟨{ w with driver := d }, e.error, by simp [act, known, ok], ?_⟩
            rw [if_pos ok]
            exact ⟨d, rfl, Finset.Subset.refl d, fun _ there _ _ => there, fun _ there _ => there,
              fun passed => absurd passed ok⟩
        · refine Wp.invoke_bind fun e => ⟨{ w with driver := d }, false, by simp [act, known], ?_⟩
          refine done fun q hq => .inr ?_
          rw [hi] at hq
          cases hq
          exact known

theorem addPeers_wp (reads : Reads w after B) (todo : List (Fin peerMax)) (d : Finset Mac) :
    Wp act (DriverOnly w fun error d' => d ⊆ d' ∧ (∀ mac ∈ d', mac ∈ d ∨ mac ∈ macs B) ∧
        (error = .ok → ∀ i ∈ todo, ∀ p, B i = some p → p.mac ∈ macs A ∨ p.mac ∈ d'))
      (addPeers A after todo) { w with driver := d } := by
  induction todo generalizing d with
  | nil => exact ⟨d, rfl, Finset.Subset.refl d, fun _ there => .inl there, by simp⟩
  | cons i todo ih =>
    have skip : ∀ d' : Finset Mac, d ⊆ d' → (∀ mac ∈ d', mac ∈ d ∨ mac ∈ macs B) →
        (∀ p, B i = some p → p.mac ∈ macs A ∨ p.mac ∈ d') →
        Wp act (DriverOnly w fun error d' => d ⊆ d' ∧ (∀ mac ∈ d', mac ∈ d ∨ mac ∈ macs B) ∧
            (error = .ok → ∀ j ∈ i :: todo, ∀ p, B j = some p → p.mac ∈ macs A ∨ p.mac ∈ d'))
          (addPeers A after todo) { w with driver := d' } := by
      intro d' grows only here
      refine (ih d').mono ?_
      rintro error s ⟨d'', rfl, grows', only', all⟩
      refine ⟨d'', rfl, grows.trans grows', fun mac there => ?_, fun ok j member p hj => ?_⟩
      · rcases only' mac there with old | new
        · exact only mac old
        · exact .inr new
      · rcases mem_cons.mp member with rfl | later
        · exact (here p hj).imp_right fun there => grows' there
        · exact all ok j later p hj
    have done := skip d (Finset.Subset.refl d) (fun _ there => .inl there)
    unfold addPeers
    refine (reads d).bind ?_
    rintro t s ⟨rfl, rfl⟩
    split
    · rename_i hi
      exact done fun p hp => by simp [hi] at hp
    · rename_i p hi
      split
      · rename_i kept
        refine done fun q hq => .inl ?_
        rw [hi] at hq
        cases hq
        exact hasMac_iff.mp kept
      · refine (driverAddPeer_wp w p.mac d).bind ?_
        rintro error s ⟨d', rfl, grows, only, there⟩
        have within : ∀ mac ∈ d', mac ∈ d ∨ mac ∈ macs t := by
          intro mac member
          rcases mem_insert.mp (only member) with rfl | old
          · exact .inr (mem_macs.mpr ⟨i, p, hi, rfl⟩)
          · exact .inl old
        split
        · rename_i failed
          exact ⟨d', rfl, grows, within, fun passed => absurd passed failed⟩
        · rename_i passed
          refine skip d' grows within fun q hq => .inr ?_
          rw [hi] at hq
          cases hq
          exact there (not_not.mp passed)

theorem reconcilePeers_wp (reads : Reads w after B) (hA : broadcastMac ∉ macs A) (between : Between A B d) :
    Wp act (DriverOnly w fun error d' => Between A B d' ∧ (error = .ok → d' = insert broadcastMac (macs B)))
      (reconcilePeers A after) { w with driver := d } := by
  refine (deletePeers_wp reads _ d).bind ?_
  rintro error s ⟨d', rfl, fewer, both, others, all⟩
  have between' : Between A B d' := by
    refine ⟨fun mac there => ?_, fewer.trans between.2⟩
    rcases mem_insert.mp there with rfl | shared
    · exact others _ (between.1 (mem_insert_self ..)) hA
    · obtain ⟨a, b⟩ := mem_inter.mp shared
      exact both mac (between.1 there) a b
  split
  · rename_i failed
    exact ⟨d', rfl, between', fun passed => absurd passed failed⟩
  · rename_i passed
    refine (addPeers_wp reads _ d').mono ?_
    rintro error' s ⟨d'', rfl, grows, only, added⟩
    have known : ∀ mac ∈ d'', mac ∈ insert broadcastMac (macs A ∪ macs B) := by
      intro mac there
      rcases only mac there with old | new
      · exact between'.2 old
      · exact Finset.mem_insert_of_mem (Finset.mem_union_right _ new)
    refine ⟨d'', rfl, ⟨between'.1.trans grows, known⟩, fun ok => ?_⟩
    ext mac
    rw [mem_insert]
    constructor
    · intro there
      rcases only mac there with old | new
      · rcases mem_insert.mp (between'.2 old) with broadcast | either
        · exact .inl broadcast
        · rcases mem_union.mp either with a | b
          · obtain ⟨i, p, hi, rfl⟩ := mem_macs.mp a
            exact .inr ((all (not_not.mp passed) i (mem_finRange i) p hi).resolve_right fun gone => gone old)
          · exact .inr b
      · exact .inr new
    · rintro (rfl | b)
      · exact grows (between'.1 (mem_insert_self ..))
      · obtain ⟨i, p, hi, rfl⟩ := mem_macs.mp b
        rcases added ok i (mem_finRange i) p hi with a | there
        · exact grows (between'.1 (mem_insert_of_mem (mem_inter.mpr ⟨a, b⟩)))
        · exact there

theorem Table.Sound.broadcast {t : Table} (h : t.Sound) : broadcastMac ∉ Peers.macs t := by
  intro there
  obtain ⟨i, p, hi, same⟩ := mem_macs.mp there
  have valid := (h.valid i p hi).2
  rw [same] at valid
  exact absurd valid (by decide)

def Later {β : Type} : Op β → Prop
  | .change _ => False
  | .restore snapshot => snapshot.before.Sound
  | _ => True

theorem settle_only {some : {β : Type} → Op β → Prop} (leaves : ∀ {β : Type} (op : Op β), Outside op → some op)
    (puts : some (.restore snapshot)) : Only some (settle snapshot) := by
  have undo : ∀ error : EspErr, Only some
      (do
        rollback snapshot
        return error : Program Op EspErr) := by
    intro error
    have gives : Only (fun {β} (op : Op β) => Outside op) (pure snapshot.before : Program Op Table) := trivial
    refine Only.bind (p := rollback snapshot) ⟨puts, fun failed => ?_⟩ fun _ => trivial
    refine ((reconcilePeers_outside failed gives).imp leaves).bind fun error => ?_
    exact ⟨leaves _ trivial, fun _ => trivial⟩
  have reads : Only (fun {β} (op : Op β) => Outside op) (invoke Op.peers : Program Op Table) :=
    ⟨trivial, fun _ => trivial⟩
  refine ((reconcilePeers_outside snapshot.before reads).imp leaves).bind fun error => ?_
  split
  · exact undo error
  · have rest : ∀ error : EspErr, Only some
        (if error ≠ .ok then do
          rollback snapshot
          return error
        else return .ok : Program Op EspErr) := by
      intro error
      split
      · exact undo error
      · trivial
    split
    · exact ⟨leaves _ trivial, fun store => ⟨leaves _ trivial, rest⟩⟩
    · exact rest .ok

theorem settle_later (sound : snapshot.before.Sound) : Only (fun {β} (op : Op β) => Later op) (settle snapshot) := by
  refine settle_only (fun op outside => ?_) sound
  cases op with
  | change c => exact outside.elim
  | restore snapshot => exact outside.elim
  | _ => trivial

theorem settle_once (snapshot : Snapshot) : Only (fun {β} (op : Op β) => ¬entry op) (settle snapshot) := by
  refine settle_only (fun op outside => ?_) id
  cases op with
  | change c => exact outside.elim
  | _ => exact id

theorem act_failed {β : Type} {op : Op β} (e : Env) (later : Later op) {w : World}
    (h : w.table.Sound ∧ w.rollbackFailed = true) :
    (act op w e).1.table.Sound ∧ (act op w e).1.rollbackFailed = true := by
  obtain ⟨sound, failed⟩ := h
  cases op with
  | change c => exact later.elim
  | restore snapshot => exact ⟨later, failed⟩
  | addPeer mac =>
    simp only [act]
    split
    · exact ⟨sound, failed⟩
    · split <;> exact ⟨sound, failed⟩
  | delPeer mac =>
    simp only [act]
    split
    · split <;> exact ⟨sound, failed⟩
    · exact ⟨sound, failed⟩
  | nvsWrite store =>
    simp only [act]
    split <;> exact ⟨sound, failed⟩
  | rolledBack error => exact ⟨sound, by simp [act, failed]⟩
  | _ => exact ⟨sound, failed⟩

/-- What a call meets after its first section, when it runs alone. -/
structure Begun (w : World) (snapshot : Snapshot) : Prop where
  sound : w.table.Sound
  before : snapshot.before.Sound
  stored : w.stored = configuredRecords snapshot.before
  unsaved : snapshot.saves = false → SameConfigured snapshot.before w.table

theorem rollback_wp (h : Begun w snapshot) (between : Between w.table snapshot.before d) :
    Wp act (fun (_ : Unit) => Agrees) (rollback snapshot) { w with driver := d } := by
  intro e
  have reads : Reads (w.restore snapshot) (pure snapshot.before) snapshot.before := fun d => ⟨rfl, rfl⟩
  refine (reconcilePeers_wp reads h.sound.broadcast between).bind ?_
  rintro error s ⟨d', rfl, -, agrees⟩ e'
  refine ⟨h.before, ?_⟩
  cases error with
  | ok => exact .inr ⟨agrees rfl, h.stored⟩
  | _ => exact .inl (Bool.or_true _)

theorem settle_wp (h : Begun w snapshot) (driver : w.driver = insert broadcastMac (macs snapshot.before)) :
    Wp act (fun (_ : EspErr) => Agrees) (settle snapshot) w := by
  have undo : ∀ (error : EspErr) (d : Finset Mac), Between snapshot.before w.table d →
      Wp act (fun (_ : EspErr) => Agrees)
        (do
          rollback snapshot
          return error) { w with driver := d } := fun error d between =>
    (rollback_wp h between.symm).bind fun _ _ agrees => agrees
  have reads : Reads w (invoke Op.peers) w.table := fun d e => ⟨rfl, rfl⟩
  have start : Between snapshot.before w.table w.driver := by
    rw [driver]
    exact ⟨insert_subset_insert _ inter_subset_left, insert_subset_insert _ subset_union_left⟩
  refine (reconcilePeers_wp reads h.before.broadcast start).bind ?_
  rintro error s ⟨d, rfl, between, agrees⟩
  split
  · exact undo error d between
  · rename_i passed
    obtain rfl := agrees (not_not.mp passed)
    split
    · refine Wp.invoke_bind fun e => ⟨_, _, rfl, Wp.invoke_bind fun e' => ?_⟩
      by_cases ok : e'.error = .ok
      · refine ⟨_, _, by simp only [act, if_pos ok]; exact rfl, ?_⟩
        beta_reduce
        rw [if_neg (not_not.mpr ok)]
        exact ⟨h.sound, .inr ⟨rfl, rfl⟩⟩
      · refine ⟨_, _, by simp only [act, if_neg ok]; exact rfl, ?_⟩
        beta_reduce
        rw [if_pos ok]
        exact undo e'.error _ between
    · rename_i unsaved
      refine ⟨h.sound, .inr ⟨rfl, ?_⟩⟩
      exact h.stored.trans (h.unsaved (by simpa using unsaved)).records

theorem begun {c : Change} (valid : c.Valid) (h : w.table.Sound) (stored : w.stored = configuredRecords w.table) : Begun
      { w with
        table := (c.apply w.table).1
        standing := w.standing ++ [(w.calls, c)]
        calls := w.calls + 1
        lost := if c.learns then w.lost ++ missing w.table (c.apply w.table).1 else w.lost }
      ⟨w.calls, c, w.table, c.saves w.table⟩ where
  sound := Change.apply_sound h valid
  before := h
  stored := stored
  unsaved := Change.apply_configured h

theorem perform_wp {c : Change} (valid : c.Valid) (h : Agrees w) :
    Wp act (fun (_ : EspErr) => Agrees) (perform c) w := by
  obtain ⟨sound, agrees⟩ := h
  refine Wp.invoke_bind fun e => ?_
  rcases change_cases w c with ⟨passed, changed⟩ | ⟨turned, unchanged⟩
  · refine ⟨_, _, changed, ?_⟩
    rcases agrees with failed | ⟨driver, stored⟩
    · refine Wp.mono (Wp.of_only (P := fun w : World => w.table.Sound ∧ w.rollbackFailed = true)
        (settle_later sound) (fun op w e later good => act_failed e later good) ?_)
        fun error w' kept => ⟨kept.1, .inl kept.2⟩
      exact ⟨Change.apply_sound sound valid, failed⟩
    · exact settle_wp (begun valid sound stored) driver
  · exact ⟨_, _, unchanged, sound, agrees⟩

theorem body_rests (c : Change) : Pool.Rests act entry Agrees (body c) := by
  have performs : ∀ c', c'.Valid → Pool.Rests act entry Agrees
      (do
        let error ← perform c'
        return (c, error) : Program Op (Change × EspErr)) := by
    intro c' valid
    refine ⟨trivial, fun begun => ?_, fun w agrees => (perform_wp valid agrees).bind fun _ _ kept => kept⟩
    cases begun with
    | ok snapshot => exact Only.bind (settle_once snapshot) fun _ => trivial
    | error error => trivial
  cases c with
  | set linkId mac =>
    show Pool.Rests act entry Agrees ((if !linkIdValid linkId || !macValid mac then _ else _ : Program Op EspErr) >>= _)
    split
    · exact Pool.rests_of_ended rfl
    · rename_i valid
      exact performs (.set linkId mac) (by simpa [Change.Valid] using valid)
  | remove linkId =>
    show Pool.Rests act entry Agrees ((if !linkIdValid linkId then _ else _ : Program Op EspErr) >>= _)
    split
    · exact Pool.rests_of_ended rfl
    · exact performs (.remove linkId) trivial
  | learn linkId mac rssi nowMs =>
    show Pool.Rests act entry Agrees ((if !linkIdValid linkId || !macValid mac then _ else _ : Program Op EspErr) >>= _)
    split
    · exact Pool.rests_of_ended rfl
    · rename_i valid
      exact performs (.learn linkId mac rssi nowMs) (by simpa [Change.Valid] using valid)

end SolarOs.EspNow.Peers

/-! Runs of the calls that change the peers: what every run keeps, what a call that fails
undoes, and when the driver and the store have the peers of the table. -/
namespace SolarOs.EspNow.Peers
open Program List

def decideEntry {β : Type} : (op : Op β) → Decidable (entry op)
  | .change _ => .isTrue trivial
  | .peers | .isPeerExist _ | .addPeer _ | .modPeer _ | .delPeer _ | .configureRate _ | .restore _
  | .rolledBack _ | .readConfigured | .nvsWrite _ => .isFalse id

def decideOwnChange {β : Type} (w : World) : (op : Op β) → Decidable (OwnChange op w)
  | .restore snapshot =>
    inferInstanceAs (Decidable (w.standing.getLast?.map Prod.fst = some snapshot.call))
  | .change _ | .peers | .isPeerExist _ | .addPeer _ | .modPeer _ | .delPeer _ | .configureRate _
  | .rolledBack _ | .readConfigured | .nvsWrite _ => .isTrue trivial

def UndoesOwn (pool : Calls) (t : Turn Change Env) : Prop :=
  Pool.Allowed enabled (fun op w (_ : Env) => OwnChange op w) pool t

def OneByOne (pool : Calls) (t : Turn Change Env) : Prop := Pool.Apart act entry enabled pool t

instance (pool : Calls) (t : Turn Change Env) : Decidable (UndoesOwn pool t) :=
  Pool.decideAllowed enabled (fun op w (_ : Env) => OwnChange op w) (fun op w _ => decideOwnChange w op) pool t

instance (pool : Calls) (t : Turn Change Env) : Decidable (OneByOne pool t) :=
  Pool.decideApart act entry enabled decideEntry pool t

theorem started_agrees (t : Table) (sound : t.Sound) : Agrees (started t).state :=
  ⟨sound, .inr ⟨rfl, rfl⟩⟩

theorem started_tracked (t : Table) : Tracked (started t).state 0 where
  nodup := nodup_nil
  earlier := nofun
  held := rfl

theorem started_replayed (t : Table) : Replayed t (started t).state 0 where
  toTracked := started_tracked t
  table := rfl
  made := .nil
  lost := rfl
  before := nofun

/-- Every run keeps link ids and MAC addresses distinct, and the changes that stand are
those of the calls that have returned `ESP_OK` or are under way. While a call that fails
undoes no change but its own, the table is what the standing changes make of it, so that a
configured peer stays, and learning peers takes none away. While calls change the table one
after another, the driver and the store have its peers between the calls, unless a driver
call has failed in a rollback. -/
theorem peers_kept {base : Table} (sound : base.Sound) (turns : List (Turn Change Env)) :
    let pool := Machine.run (Pool.turn act enabled body) (started base) turns
    let w := pool.state
    (w.table.Distinct Peer.linkId ∧ w.table.Distinct Peer.mac ∧
        (returned pool.threads : Multiset Change) ≤ (w.standing.map Prod.snd : Multiset Change) ∧
        (pool.quiet = true → (returned pool.threads : Multiset Change) = w.standing.map Prod.snd)) ∧
      (Machine.Admits (Pool.turn act enabled body) UndoesOwn (started base) turns →
        w.table = replay base w.standing ∧ w.lost = [] ∧
          ∀ earlier n linkId mac later, w.standing = earlier ++ (n, .set linkId mac) :: later →
            (∀ change ∈ later, change.2.Spares linkId) → Configured w.table linkId mac) ∧
      (Machine.Admits (Pool.turn act enabled body) OneByOne (started base) turns →
        pool.quiet = true → w.rollbackFailed = false →
          w.driver = insert broadcastMac (macs w.table) ∧ w.stored = configuredRecords w.table) := by
  intro pool w
  refine ⟨?_, ?_, ?_⟩
  · have orderly : Pool.Backed Deals (fun result held => Keeps result.1 result.2 held) Orderly (started base) :=
      ⟨0, rfl, sound, nofun⟩
    have tracked : Pool.Backed Deals (fun result held => Keeps result.1 result.2 held) Tracked (started base) :=
      ⟨0, rfl, started_tracked base⟩
    obtain ⟨-, -, order, -⟩ := Pool.run_backed_always orderly_honours body_entitled orderly turns
    obtain ⟨total, share, -, -, held⟩ := Pool.run_backed_always tracked_honours body_entitled tracked turns
    obtain ⟨le, eq⟩ := returned_le share
    have same : total.map Snapshot.change = (w.standing.map Prod.snd : Multiset Change) := by
      rw [← Multiset.map_coe, ← held, Multiset.map_map]
      rfl
    exact ⟨order.ids, order.macs, same ▸ le, fun quiet => (eq quiet).trans same⟩
  · intro own
    have begins : Pool.Backed Deals (fun result held => Keeps result.1 result.2 held) (Replayed base)
        (started base) := ⟨0, rfl, started_replayed base⟩
    obtain ⟨total, -, replayed⟩ := Pool.run_backed (replayed_honours sound) body_entitled begins own
    refine ⟨replayed.table, replayed.lost, fun earlier n linkId mac later placed spares => ?_⟩
    rw [replayed.table, placed]
    exact Made.stays sound (placed ▸ replayed.made) spares
  · intro apart quiet unfailed
    have begins : Pool.Single act entry Agrees (started base) := .inl ⟨started_agrees base sound, nofun⟩
    have agrees := (Pool.run_single body_rests begins apart).quiet quiet
    exact agrees.agrees.resolve_left (Bool.eq_false_iff.mp unfailed)

def peerA : Mac := #v[2, 0, 0, 0, 0, 1]

def peerB : Mac := #v[2, 0, 0, 0, 0, 2]

def steps (thread count : Nat) : List (Turn Change Env) := List.replicate count (.step thread ⟨.ok⟩)

def setAndFail : List (Turn Change Env) :=
  .start (.set 1 peerA) :: steps 0 26 ++ .start (.set 2 peerB) :: steps 1 25 ++ .step 1 ⟨.fail⟩ :: steps 1 40

theorem peers_kept_after_failure :
    let w := (Machine.run (Pool.turn act enabled body) (started Slots.empty) setAndFail).state
    Configured w.table 1 peerA ∧ w.lost = [] ∧
      w.driver = insert broadcastMac (macs w.table) ∧ w.stored = configuredRecords w.table := by
  have empty : Table.Sound Slots.empty := ⟨nofun, nofun, nofun⟩
  obtain ⟨-, own, apart⟩ := peers_kept empty setAndFail
  obtain ⟨-, lost, stays⟩ := own (by decide +kernel)
  obtain ⟨driver, stored⟩ := apart (by decide +kernel) (by decide +kernel) (by decide +kernel)
  exact ⟨stays [] 0 1 peerA [] (by decide +kernel) nofun, lost, driver, stored⟩

def setTogether : List (Turn Change Env) :=
  .start (.set 1 peerA) :: steps 0 1 ++ .start (.set 2 peerB) :: steps 1 26 ++ steps 0 26 ++
    .step 0 ⟨.fail⟩ :: steps 0 60

theorem peer_undone :
    let pool := Machine.run (Pool.turn act enabled body) (started Slots.empty) setTogether
    pool.quiet = true ∧ returned pool.threads = [.set 2 peerB] ∧ ∀ i, pool.state.table i = none := by
  decide +kernel

end SolarOs.EspNow.Peers
