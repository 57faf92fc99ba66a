import SolarOs.EspNow.PeerTable
import SolarOs.Library.Rights

/-! The calls as programs that keep a snapshot while their change stands, and what every
run keeps of the table. -/
namespace SolarOs.EspNow.Peers
open Program Multiset

variable {w : World}

abbrev Rights := Multiset Snapshot

/-- What the operations take and give: a call that has passed its first section has a
snapshot. -/
inductive Deals : {β : Type} → Op β → Deal Rights β → Prop
  | change (c : Change) (valid : c.Valid) :
    Deals (.change c)
      ⟨0, fun | .ok snapshot => {snapshot} | .error _ => 0,
        fun | .ok snapshot => snapshot.change = c | .error error => error ≠ .ok⟩
  | restore (snapshot : Snapshot) : Deals (.restore snapshot) ⟨{snapshot}, fun _ => 0, fun _ => True⟩
  | peers : Deals .peers ⟨0, fun _ => 0, fun _ => True⟩
  | isPeerExist (mac : Mac) : Deals (.isPeerExist mac) ⟨0, fun _ => 0, fun _ => True⟩
  | addPeer (mac : Mac) : Deals (.addPeer mac) ⟨0, fun _ => 0, fun _ => True⟩
  | modPeer (mac : Mac) : Deals (.modPeer mac) ⟨0, fun _ => 0, fun _ => True⟩
  | delPeer (mac : Mac) : Deals (.delPeer mac) ⟨0, fun _ => 0, fun _ => True⟩
  | configureRate (mac : Mac) : Deals (.configureRate mac) ⟨0, fun _ => 0, fun _ => True⟩
  | rolledBack (error : EspErr) : Deals (.rolledBack error) ⟨0, fun _ => 0, fun _ => True⟩
  | readConfigured : Deals .readConfigured ⟨0, fun _ => 0, fun _ => True⟩
  | nvsWrite (store : List Record) : Deals (.nvsWrite store) ⟨0, fun _ => 0, fun _ => True⟩

def Outside {β : Type} : Op β → Prop
  | .change _ | .restore _ => False
  | _ => True

theorem deals_of_outside {β : Type} {op : Op β} (outside : Outside op) : Deals op ⟨0, fun _ => 0, fun _ => True⟩ := by
  cases op with
  | change c => exact outside.elim
  | restore snapshot => exact outside.elim
  | peers => exact .peers
  | isPeerExist mac => exact .isPeerExist mac
  | addPeer mac => exact .addPeer mac
  | modPeer mac => exact .modPeer mac
  | delPeer mac => exact .delPeer mac
  | configureRate mac => exact .configureRate mac
  | rolledBack error => exact .rolledBack error
  | readConfigured => exact .readConfigured
  | nvsWrite store => exact .nvsWrite store

theorem driverAddPeer_outside (mac : Mac) : Only Outside (driverAddPeer mac) := by
  refine ⟨trivial, fun known => ?_⟩
  have rate : ∀ error : EspErr, Only Outside
      (if error = .ok then invoke (.configureRate mac) else pure error : Program Op EspErr) := by
    intro error
    split
    · exact ⟨trivial, fun _ => trivial⟩
    · trivial
  cases known with
  | true => exact ⟨trivial, rate⟩
  | false => exact ⟨trivial, rate⟩

variable {after : Program Op Table}

theorem deletePeers_outside (before : Table) (reads : Only Outside after) (todo : List (Fin peerMax)) :
    Only Outside (deletePeers before after todo) := by
  induction todo with
  | nil => trivial
  | cons i todo ih =>
    unfold deletePeers
    cases before i with
    | none => exact ih
    | some p =>
      refine reads.bind fun t => ?_
      split
      · exact ih
      · refine ⟨trivial, fun known => ?_⟩
        cases known with
        | false => exact ih
        | true =>
          refine ⟨trivial, fun error => ?_⟩
          show Only _ (if error ≠ .ok then _ else _)
          split
          · trivial
          · exact ih

theorem addPeers_outside (before : Table) (reads : Only Outside after) (todo : List (Fin peerMax)) :
    Only Outside (addPeers before after todo) := by
  induction todo with
  | nil => trivial
  | cons i todo ih =>
    unfold addPeers
    refine reads.bind fun t => ?_
    split
    · exact ih
    · split
      · exact ih
      · refine (driverAddPeer_outside _).bind fun error => ?_
        split
        · trivial
        · exact ih

theorem reconcilePeers_outside (before : Table) (reads : Only Outside after) :
    Only Outside (reconcilePeers before after) := by
  refine (deletePeers_outside before reads _).bind fun error => ?_
  split
  · trivial
  · exact addPeers_outside before reads _

theorem Entitled.of_outside {α : Type} {p : Program Op α} (only : Only Outside p) (held : Rights) :
    Entitled Deals (fun (_ : α) held' => held' = held) p held := by
  induction p with
  | done result => exact rfl
  | call op next ih =>
    exact Entitled.freely (deals_of_outside only.1) fun reply _ => ih reply (only.2 reply)

theorem rollback_entitled (snapshot : Snapshot) :
    Entitled Deals (fun (_ : Unit) (held : Rights) => held = 0) (rollback snapshot) {snapshot} := by
  refine Entitled.alone (Deals.restore snapshot) fun failed _ => ?_
  have reads : Only (fun {β} (op : Op β) => Outside op) (pure snapshot.before : Program Op Table) := trivial
  refine (Entitled.of_outside (reconcilePeers_outside failed reads) 0).bind fun error held none => ?_
  subst none
  exact Entitled.freely (Deals.rolledBack error) fun _ _ => rfl

/-- A call that returns `ESP_OK` keeps its snapshot, as its change stands. -/
def Keeps (c : Change) (result : EspErr) (held : Rights) : Prop :=
  if result = .ok then ∃ snapshot, held = {snapshot} ∧ snapshot.change = c else held = 0

theorem settle_entitled (snapshot : Snapshot) :
    Entitled Deals (Keeps snapshot.change) (settle snapshot) {snapshot} := by
  have undo : ∀ error : EspErr, error ≠ .ok → Entitled Deals (Keeps snapshot.change)
      (do
        rollback snapshot
        return error) {snapshot} := fun error failed =>
    (rollback_entitled snapshot).bind fun _ held none => by
      show Keeps _ _ _
      rw [Keeps, if_neg failed]
      exact none
  have stands : Entitled Deals (Keeps snapshot.change) (pure .ok) {snapshot} := by
    show Keeps _ _ _
    rw [Keeps, if_pos rfl]
    exact ⟨snapshot, rfl, rfl⟩
  have reads : Only (fun {β} (op : Op β) => Outside op) (invoke Op.peers : Program Op Table) :=
    ⟨trivial, fun _ => trivial⟩
  refine (Entitled.of_outside (reconcilePeers_outside snapshot.before reads) _).bind fun error held same => ?_
  subst same
  split
  · rename_i failed
    exact undo error failed
  · have rest : ∀ error : EspErr, Entitled Deals (Keeps snapshot.change)
        (if error ≠ .ok then do
          rollback snapshot
          return error
        else return .ok) {snapshot} := by
      intro error
      split
      · rename_i failed
        exact undo error failed
      · exact stands
    split
    · exact Entitled.freely Deals.readConfigured fun store _ =>
        Entitled.freely (Deals.nvsWrite store) fun error _ => rest error
    · exact rest .ok

theorem keeps_none {c : Change} {error : EspErr} (failed : error ≠ .ok) : Keeps c error 0 := by
  rw [Keeps, if_neg failed]

theorem perform_entitled {c : Change} (valid : c.Valid) : Entitled Deals (Keeps c) (perform c) (0 : Rights) := by
  refine Entitled.alone (Deals.change c valid) fun begun brought => ?_
  cases begun with
  | error error => exact keeps_none brought
  | ok snapshot =>
    obtain rfl : snapshot.change = c := brought
    exact settle_entitled snapshot

theorem call_entitled (c : Change) : Entitled Deals (Keeps c) (call c) (0 : Rights) := by
  cases c with
  | set linkId mac =>
    show Entitled _ _ (if !linkIdValid linkId || !macValid mac then _ else _) 0
    split
    · exact keeps_none (by decide)
    · rename_i valid
      exact perform_entitled (c := .set linkId mac) (by simpa [Change.Valid] using valid)
  | remove linkId =>
    show Entitled _ _ (if !linkIdValid linkId then _ else _) 0
    split
    · exact keeps_none (by decide)
    · exact perform_entitled (c := .remove linkId) trivial
  | learn linkId mac rssi nowMs =>
    show Entitled _ _ (if !linkIdValid linkId || !macValid mac then _ else _) 0
    split
    · exact keeps_none (by decide)
    · rename_i valid
      exact perform_entitled (c := .learn linkId mac rssi nowMs) (by simpa [Change.Valid] using valid)

theorem body_entitled (c : Change) :
    Entitled Deals (fun result held => Keeps result.1 result.2 held) (body c) (0 : Rights) :=
  (call_entitled c).bind fun _ _ kept => kept

theorem act_outside {β : Type} {op : Op β} (outside : Outside op) (e : Env) :
    (act op w e).1.table = w.table ∧ (act op w e).1.standing = w.standing ∧
      (act op w e).1.calls = w.calls ∧ (act op w e).1.lost = w.lost := by
  cases op with
  | change c => exact outside.elim
  | restore snapshot => exact outside.elim
  | addPeer mac =>
    simp only [act]
    split
    · exact ⟨rfl, rfl, rfl, rfl⟩
    · split <;> exact ⟨rfl, rfl, rfl, rfl⟩
  | delPeer mac =>
    simp only [act]
    split
    · split <;> exact ⟨rfl, rfl, rfl, rfl⟩
    · exact ⟨rfl, rfl, rfl, rfl⟩
  | nvsWrite store =>
    simp only [act]
    split <;> exact ⟨rfl, rfl, rfl, rfl⟩
  | _ => exact ⟨rfl, rfl, rfl, rfl⟩

def World.changed (w : World) (c : Change) : World :=
  { w with
    table := (c.apply w.table).1
    standing := w.standing ++ [(w.calls, c)]
    calls := w.calls + 1
    lost := if c.learns then w.lost ++ missing w.table (c.apply w.table).1 else w.lost }

theorem change_cases (w : World) (c : Change) :
    ((c.apply w.table).2 = .ok ∧ w.change c = (w.changed c, .ok ⟨w.calls, c, w.table, c.saves w.table⟩)) ∨
      ((c.apply w.table).2 ≠ .ok ∧ w.change c = (w, .error (c.apply w.table).2)) := by
  by_cases passed : (c.apply w.table).2 = .ok
  · exact .inl ⟨passed, by simp only [World.change, World.changed, if_pos passed]⟩
  · refine .inr ⟨passed, ?_⟩
    simp only [World.change, if_neg passed, Change.apply_refused passed]

/-- A call changes the table in its first section and when it puts it back, and nowhere else. -/
theorem honours_of {Inv : World → Rights → Prop} {cond : {β : Type} → Op β → World → Env → Prop}
    (outside : ∀ {w w' : World} {held}, Inv w held → w'.table = w.table ∧ w'.standing = w.standing ∧
      w'.calls = w.calls ∧ w'.lost = w.lost → Inv w' held)
    (change : ∀ {w : World} {c rest}, Inv w rest → c.Valid → (c.apply w.table).2 = .ok →
      Inv (w.changed c) (rest + {⟨w.calls, c, w.table, c.saves w.table⟩}))
    (restore : ∀ {w snapshot rest e}, Inv w (rest + {snapshot}) → cond (.restore snapshot) w e →
      Inv (w.restore snapshot) rest) : Pool.Honours Deals act enabled cond Inv := by
  intro β op w e deal rest hdeal hinv can permitted
  by_cases out : Outside op
  · have same := act_outside (w := w) out e
    cases hdeal <;> first
      | exact out.elim
      | exact ⟨trivial, outside hinv same⟩
  · cases hdeal with
    | change c valid =>
      rw [show rest + Deal.takes _ = rest from add_zero rest] at hinv
      simp only [act]
      rcases change_cases w c with ⟨passed, changed⟩ | ⟨turned, unchanged⟩
      · simp only [changed]
        exact ⟨trivial, change hinv valid passed⟩
      · simp only [unchanged]
        exact ⟨turned, (add_zero rest).symm ▸ hinv⟩
    | restore snapshot => exact ⟨trivial, (add_zero rest).symm ▸ restore hinv permitted⟩
    | _ => exact absurd trivial out

def Orderly (w : World) (total : Rights) : Prop :=
  w.table.Sound ∧ ∀ snapshot ∈ total, snapshot.before.Sound

theorem orderly_honours : Pool.Honours Deals act enabled (fun _ _ (_ : Env) => True) Orderly := by
  refine @honours_of Orderly _ (fun ⟨sound, held⟩ same => ⟨same.1 ▸ sound, held⟩) ?_ ?_
  · intro w c rest ⟨sound, held⟩ valid _
    refine ⟨Change.apply_sound sound valid, fun snapshot member => ?_⟩
    rcases mem_add.mp member with old | new
    · exact held snapshot old
    · rw [mem_singleton.mp new]
      exact sound
  · intro w snapshot rest e ⟨_, held⟩ _
    exact ⟨held snapshot (mem_add.mpr (.inr (mem_singleton_self _))), fun other there => held other (mem_add.mpr (.inl there))⟩

end SolarOs.EspNow.Peers
