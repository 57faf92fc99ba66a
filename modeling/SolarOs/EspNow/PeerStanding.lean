import SolarOs.EspNow.PeerUndo

/-! A call that fails puts back the table as it was before: when this undoes its own change
and no other, the table is what the changes that stand make of it. -/
namespace SolarOs.EspNow.Peers
open Program List Multiset Option

variable {w : World} {base t : Table}

def replay (t : Table) (changes : List (Nat × Change)) : Table :=
  changes.foldl (fun t change => (change.2.apply t).1) t

theorem replay_append (t : Table) (earlier later : List (Nat × Change)) :
    replay t (earlier ++ later) = replay (replay t earlier) later := by
  rw [replay, foldl_append]
  rfl

theorem replay_concat (t : Table) (changes : List (Nat × Change)) (change : Nat × Change) :
    replay t (changes ++ [change]) = (change.2.apply (replay t changes)).1 := replay_append t changes [change]

inductive Made (base : Table) : List (Nat × Change) → Prop
  | nil : Made base []
  | concat {changes : List (Nat × Change)} {n : Nat} {c : Change} (made : Made base changes)
    (valid : c.Valid) (passed : (c.apply (replay base changes)).2 = .ok) : Made base (changes ++ [(n, c)])

theorem Made.last {changes : List (Nat × Change)} {n : Nat} {c : Change} (h : Made base (changes ++ [(n, c)])) :
    Made base changes ∧ c.Valid ∧ (c.apply (replay base changes)).2 = .ok := by
  generalize same : changes ++ [(n, c)] = all at h
  cases h with
  | nil => simp at same
  | concat made valid passed =>
    obtain ⟨rfl, rest⟩ := append_inj' same rfl
    cases rest
    exact ⟨made, valid, passed⟩

theorem Made.sound (sound : base.Sound) {changes : List (Nat × Change)} (h : Made base changes) :
    (replay base changes).Sound := by
  induction h with
  | nil => exact sound
  | concat made valid passed ih =>
    rw [replay_concat]
    exact Change.apply_sound ih valid

def OwnChange {β : Type} : Op β → World → Prop
  | .restore snapshot, w => w.standing.getLast?.map Prod.fst = some snapshot.call
  | _, _ => True

structure Tracked (w : World) (total : Rights) : Prop where
  nodup : (w.standing.map Prod.fst).Nodup
  earlier : ∀ n ∈ w.standing.map Prod.fst, n < w.calls
  held : total.map (fun snapshot => (snapshot.call, snapshot.change)) = (w.standing : Multiset (Nat × Change))

/-- The table is what the changes that stand make of the first one, and a call would put it
back as it was before its own change. -/
structure Replayed (base : Table) (w : World) (total : Rights) : Prop extends Tracked w total where
  table : w.table = replay base w.standing
  made : Made base w.standing
  lost : w.lost = []
  before : ∀ snapshot ∈ total, ∀ earlier later,
    w.standing = earlier ++ (snapshot.call, snapshot.change) :: later → snapshot.before = replay base earlier

variable {total : Rights} {linkId : UInt32}

theorem Tracked.congr {w' : World} (h : Tracked w total) (standing : w'.standing = w.standing)
    (calls : w'.calls = w.calls) : Tracked w' total where
  nodup := standing ▸ h.nodup
  earlier := by
    rw [standing, calls]
    exact h.earlier
  held := standing ▸ h.held

theorem Replayed.congr {w' : World} (h : Replayed base w total)
    (same : w'.table = w.table ∧ w'.standing = w.standing ∧ w'.calls = w.calls ∧ w'.lost = w.lost) :
    Replayed base w' total where
  toTracked := h.toTracked.congr same.2.1 same.2.2.1
  table := by
    rw [same.1, same.2.1]
    exact h.table
  made := same.2.1 ▸ h.made
  lost := same.2.2.2.trans h.lost
  before := same.2.1 ▸ h.before

theorem Tracked.add (h : Tracked w total) (c : Change) (before : Table) (saves : Bool) {w' : World}
    (standing : w'.standing = w.standing ++ [(w.calls, c)]) (calls : w'.calls = w.calls + 1) :
    Tracked w' (total + {⟨w.calls, c, before, saves⟩}) where
  nodup := by
    rw [standing, map_append, nodup_append]
    refine ⟨h.nodup, by simp, fun n old m new same => ?_⟩
    rw [same, List.mem_singleton.mp new] at old
    exact absurd (h.earlier _ old) (Nat.lt_irrefl _)
  earlier := by
    intro n member
    rw [standing, map_append, mem_append] at member
    rw [calls]
    rcases member with old | new
    · exact Nat.lt_succ_of_lt (h.earlier n old)
    · rw [List.mem_singleton.mp new]
      exact Nat.lt_succ_self _
  held := by
    rw [Multiset.map_add, h.held, standing, Multiset.map_singleton, ← coe_add]
    rfl

variable {snapshot : Snapshot}

theorem Tracked.undo {rest : Rights} (h : Tracked w (rest + {snapshot})) {w' : World}
    (standing : w'.standing = w.standing.filter fun change => change.1 ≠ snapshot.call)
    (calls : w'.calls = w.calls) : Tracked w' rest := by
  have sub : w'.standing.Sublist w.standing := standing ▸ filter_sublist
  refine ⟨h.nodup.sublist (sub.map _), fun n member => ?_, ?_⟩
  · rw [calls]
    exact h.earlier n ((sub.map _).subset member)
  · have held := h.held
    rw [map_add, Multiset.map_singleton] at held
    have nodup : ((rest.map fun snapshot => (snapshot.call, snapshot.change)).map Prod.fst +
        {snapshot.call}).Nodup := by
      have := congrArg (Multiset.map Prod.fst) held
      rw [map_add, Multiset.map_singleton] at this
      rw [this]
      exact h.nodup
    have away : ∀ change ∈ rest.map fun snapshot => (snapshot.call, snapshot.change),
        change.1 ≠ snapshot.call := by
      intro change member same
      exact Multiset.disjoint_left.mp (Multiset.nodup_add.mp nodup).2.2
        (Multiset.mem_map_of_mem Prod.fst member) (Multiset.mem_singleton.mpr same)
    have := congrArg (Multiset.filter fun change : Nat × Change => change.1 ≠ snapshot.call) held
    rw [filter_add, filter_eq_self.mpr away, Multiset.filter_singleton,
      if_neg (by simp), empty_eq_zero, add_zero] at this
    rw [this, standing]
    rfl

theorem Tracked.mem (h : Tracked w total) (member : snapshot ∈ total) :
    (snapshot.call, snapshot.change) ∈ w.standing := by
  have : (snapshot.call, snapshot.change) ∈ total.map fun snapshot => (snapshot.call, snapshot.change) :=
    mem_map_of_mem (fun snapshot : Snapshot => (snapshot.call, snapshot.change)) member
  rw [h.held] at this
  exact mem_coe.mp this

theorem Tracked.call_lt (h : Tracked w total) {n : Nat} {c : Change} (member : (n, c) ∈ w.standing) : n < w.calls :=
  h.earlier n (mem_map_of_mem (f := Prod.fst) member)

theorem Replayed.add (sound : base.Sound) (h : Replayed base w total) {c : Change} (valid : c.Valid)
    (passed : (c.apply w.table).2 = .ok) :
    Replayed base (w.changed c) (total + {⟨w.calls, c, w.table, c.saves w.table⟩}) where
  toTracked := h.toTracked.add c _ _ rfl rfl
  table := by
    rw [World.changed, replay_concat, h.table]
  made := .concat h.made valid (by rwa [← h.table])
  lost := by
    have learning : c.learns = true → missing w.table (c.apply w.table).1 = [] := by
      intro learns
      cases c with
      | learn linkId mac rssi nowMs =>
        exact (learnPeer_configured (h.table ▸ h.made.sound sound) linkId mac rssi nowMs).missing
      | _ => cases learns
    unfold World.changed
    split
    · rename_i learns
      rw [h.lost, learning learns]
      rfl
    · exact h.lost
  before := by
    intro snapshot member earlier later placed
    -- what comes before an older change is what came before it
    have older : ∀ later' change, later = later' ++ [change] →
        w.standing = earlier ++ (snapshot.call, snapshot.change) :: later' := by
      rintro later' change rfl
      rw [← cons_append, ← append_assoc] at placed
      exact (append_inj' placed rfl).1
    rcases mem_add.mp member with old | new
    · rcases later.eq_nil_or_concat with rfl | ⟨later', change, split⟩
      · obtain ⟨-, last⟩ := append_inj' placed rfl
        simp only [List.cons.injEq, Prod.mk.injEq, and_true] at last
        exact absurd (h.call_lt (h.mem old)) (by omega)
      · exact h.before snapshot old earlier later' (older later' change (by simpa using split))
    · obtain rfl := Multiset.mem_singleton.mp new
      rcases later.eq_nil_or_concat with rfl | ⟨later', change, split⟩
      · rw [← (append_inj' placed rfl).1]
        exact h.table
      · have again : (w.calls, c) ∈ w.standing := by
          rw [older later' change (by simpa using split)]
          simp
        exact absurd (h.call_lt again) (Nat.lt_irrefl _)

theorem Replayed.undo (sound : base.Sound) {rest : Rights} (h : Replayed base w (rest + {snapshot}))
    (own : w.standing.getLast?.map Prod.fst = some snapshot.call) : Replayed base (w.restore snapshot) rest := by
  -- the last change is the one that the snapshot is of
  obtain ⟨last, hlast, same⟩ := map_eq_some_iff.mp own
  obtain ⟨earlier, placed⟩ := getLast?_eq_some_iff.mp hlast
  have member : snapshot ∈ rest + {snapshot} := by simp
  have nodup := h.nodup
  rw [placed, map_append, nodup_append] at nodup
  have away : ∀ change ∈ earlier, change.1 ≠ snapshot.call := fun change there eq =>
    nodup.2.2 change.1 (mem_map_of_mem there) last.1 (by simp) (eq.trans same.symm)
  obtain rfl : last = (snapshot.call, snapshot.change) := by
    have there := h.mem member
    rw [placed, mem_append] at there
    rcases there with old | new
    · exact absurd rfl (away _ old)
    · exact (List.mem_singleton.mp new).symm
  have before : snapshot.before = replay base earlier := h.before snapshot member earlier [] placed
  obtain ⟨made, valid, passed⟩ := (placed ▸ h.made : Made base (earlier ++ [_])).last
  have undone : (w.restore snapshot).standing = earlier := by
    simp only [World.restore, placed, filter_append]
    rw [List.filter_eq_self.mpr (by simpa using away)]
    simp
  refine ⟨h.toTracked.undo rfl rfl, ?_, ?_, ?_, ?_⟩
  · rw [undone]
    exact before
  · rw [undone]
    exact made
  · have learning : snapshot.change.learns = true → missing w.table snapshot.before = [] := by
      intro learns
      rw [h.table, placed, replay_concat, before]
      cases hc : snapshot.change with
      | learn linkId mac rssi nowMs =>
        exact (learnPeer_configured (made.sound sound) linkId mac rssi nowMs).symm.missing
      | _ =>
        rw [hc] at learns
        cases learns
    show (if snapshot.change.learns then _ else _) = _
    split
    · rename_i learns
      rw [h.lost, learning learns]
      rfl
    · exact h.lost
  · intro other there earlier' later' split
    rw [undone] at split
    refine h.before other (mem_add.mpr (.inl there)) earlier' (later' ++ [(snapshot.call, snapshot.change)]) ?_
    rw [placed, split]
    simp

theorem replayed_honours (sound : base.Sound) :
    Pool.Honours Deals act enabled (fun op w (_ : Env) => OwnChange op w) (Replayed base) :=
  @honours_of (Replayed base) _ Replayed.congr (fun h => h.add sound) fun h => h.undo sound

theorem tracked_honours : Pool.Honours Deals act enabled (fun _ _ (_ : Env) => True) Tracked :=
  @honours_of Tracked _ (fun h same => h.congr same.2.1 same.2.2.1) (fun h _ _ => h.add _ _ _ rfl rfl) fun h _ => h.undo rfl rfl

def Change.Spares (linkId : UInt32) : Change → Prop
  | .set other _ | .remove other => other ≠ linkId
  | .learn .. => True

def Configured (t : Table) (linkId : UInt32) (mac : Mac) : Prop :=
  ∃ i p, t i = some p ∧ p.configured = true ∧ p.linkId = linkId ∧ p.mac = mac

theorem setPeer_configures {mac : Mac} (passed : (setPeer t linkId mac).2 = .ok) :
    Configured (setPeer t linkId mac).1 linkId mac := by
  simp only [setPeer] at passed ⊢
  split
  · rename_i refused
    rw [if_pos refused] at passed
    cases passed
  · rename_i allowed
    rw [if_neg allowed] at passed
    split
    · rename_i i place
      exact ⟨i, _, Slots.put_same .., rfl, rfl, rfl⟩
    · rename_i none
      rw [none] at passed
      cases passed

theorem SameConfigured.configured {t' : Table} (h : SameConfigured t t') {mac : Mac}
    (there : Configured t linkId mac) : Configured t' linkId mac := by
  obtain ⟨i, p, hi, configured, id, mac'⟩ := there
  have same := h i
  rw [hi, filter_some, if_pos configured, map_some] at same
  obtain ⟨q, hq, keys⟩ := map_eq_some_iff.mp same.symm
  obtain ⟨found, also⟩ := filter_eq_some_iff.mp hq
  rw [Prod.mk.injEq] at keys
  exact ⟨i, q, found, also, keys.1.trans id, keys.2.trans mac'⟩

theorem Change.apply_spares (sound : t.Sound) {mac : Mac} (there : Configured t linkId mac) {c : Change}
    (spares : c.Spares linkId) : Configured (c.apply t).1 linkId mac := by
  cases c with
  | learn other mac' rssi nowMs => exact (learnPeer_configured sound other mac' rssi nowMs).configured there
  | remove other =>
    obtain ⟨i, p, hi, configured, rfl, same⟩ := there
    simp only [Change.apply, removePeer]
    split
    · rename_i j found
      obtain ⟨q, hq, id⟩ := indexById_some found
      refine ⟨i, p, Slots.clear_some.mpr ⟨?_, hi⟩, configured, rfl, same⟩
      rintro rfl
      rw [hi] at hq
      cases hq
      exact spares id.symm
    · exact ⟨i, p, hi, configured, rfl, same⟩
  | set other mac' =>
    obtain ⟨i, p, hi, configured, rfl, same⟩ := there
    simp only [Change.apply, setPeer]
    split
    · exact ⟨i, p, hi, configured, rfl, same⟩
    · rename_i allowed
      -- the slot that is cleared has a learned peer
      have kept : (otherByMac t other mac').elim t t.clear i = some p := by
        cases hother : otherByMac t other mac' with
        | none => exact hi
        | some k =>
          refine Slots.clear_some.mpr ⟨?_, hi⟩
          rintro rfl
          refine allowed ?_
          rw [hother]
          simp [hi, configured]
      split
      · rename_i j place
        have away : i ≠ j := by
          rintro rfl
          rcases or_eq_some_iff.mp place with found | ⟨-, free⟩
          · obtain ⟨q, hq, id⟩ := indexById_some found
            rw [hi] at hq
            cases hq
            exact spares id.symm
          · rw [Slots.free_some free] at kept
            cases kept
        exact ⟨i, p, (Slots.put_of_ne away _).trans kept, configured, rfl, same⟩
      · exact ⟨i, p, kept, configured, rfl, same⟩

theorem Made.stays (sound : base.Sound) {earlier later : List (Nat × Change)} {n : Nat} {mac : Mac}
    (h : Made base (earlier ++ (n, .set linkId mac) :: later)) (spares : ∀ change ∈ later, change.2.Spares linkId) :
    Configured (replay base (earlier ++ (n, .set linkId mac) :: later)) linkId mac := by
  induction later using List.reverseRecOn with
  | nil =>
    rw [replay_concat]
    exact setPeer_configures h.last.2.2
  | append_singleton later change ih =>
    rw [← cons_append, ← append_assoc] at h ⊢
    obtain ⟨made, -, -⟩ := h.last
    rw [replay_concat]
    refine Change.apply_spares (made.sound sound) (ih made fun change there => ?_) (spares change (by simp))
    exact spares change (mem_append_left _ there)

theorem returned_le {threads : List (Program Op (Change × EspErr))}
    (h : Share Deals (fun result held => Keeps result.1 result.2 held) threads total) :
    (returned threads : Multiset Change) ≤ total.map Snapshot.change ∧
      (threads.all ended = true → (returned threads : Multiset Change) = total.map Snapshot.change) := by
  induction threads generalizing total with
  | nil =>
    obtain rfl : total = 0 := h
    exact ⟨le_refl _, fun _ => rfl⟩
  | cons p threads ih =>
    obtain ⟨held, rest, rfl, hp, others⟩ := h
    obtain ⟨le, eq⟩ := ih others
    rw [map_add]
    cases p with
    | call op next => exact ⟨le_trans le (le_add_right _ _), nofun⟩
    | done result =>
      obtain ⟨c, error⟩ := result
      have kept : Keeps c error held := hp
      rw [Keeps] at kept
      by_cases passed : error = .ok
      · subst passed
        rw [if_pos rfl] at kept
        obtain ⟨snapshot, rfl, rfl⟩ := kept
        have same : returned (.done (snapshot.change, .ok) :: threads) = snapshot.change :: returned threads := rfl
        rw [same, ← cons_coe, ← singleton_add, add_comm, Multiset.map_singleton]
        refine ⟨add_le_add_left le _, fun quiet => ?_⟩
        rw [eq quiet]
      · rw [if_neg passed] at kept
        subst kept
        have same : returned (.done (c, error) :: threads) = returned threads := by
          cases error <;> first
            | exact absurd rfl passed
            | rfl
        rw [same, Multiset.map_zero, add_zero]
        exact ⟨le, eq⟩

end SolarOs.EspNow.Peers
