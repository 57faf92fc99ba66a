import SolarOs.Esp
import SolarOs.Library.CString
import SolarOs.Library.Machine
import SolarOs.Library.Slots
import Mathlib.Tactic.Push

/-! Claims of hardware resources: a table with one claim for each key, changed under its lock
by claims, bundles of claims and releases. Who holds what, over every sequence of calls. -/
namespace SolarOs.Resources
open List Option Slots

def claimMax : Nat := 64
def bundleMax : Nat := 16
def ownerMax : Nat := 24
def labelMax : Nat := 24

inductive Kind where
  | gpioPin
  | adcPin
  | pwmPin
  | i2cPort
  | spiHost
  | i2cAddress
  | spiCs
  | uartPort
  | i2sPort
  deriving DecidableEq

structure Key where
  kind : Kind
  primary : Int
  secondary : Int
  deriving DecidableEq

structure Request where
  key : Key
  label : Option CString

structure Claim where
  key : Key
  owner : CString
  label : CString

abbrev Table := Slots claimMax Claim

structure Conflict where
  requestIndex : Nat
  existing : Claim

/-- `strncmp` with the size of the stored name finds no difference. -/
def sameOwner (stored owner : CString) : Bool :=
  stored.bytes.take ownerMax = owner.bytes.take ownerMax

section
variable (t : Table)

def resourceFind (key : Key) : Option Claim := (t.find fun c => c.key = key).bind t

def freeCount : Nat := (Finset.univ.filter fun i => (t i).isNone).card

/-- The loop that looks for conflicts; it counts the keys that need an entry. -/
def checkRequests (t : Table) (owner : CString) : Nat → Nat → List Request → Except Conflict Nat
  | _, required, [] => .ok required
  | i, required, r :: rs =>
    match resourceFind t r.key with
    | none => checkRequests t owner (i + 1) (required + 1) rs
    | some existing =>
      if sameOwner existing.owner owner then checkRequests t owner (i + 1) required rs
      else .error ⟨i, existing⟩

def claimOne (owner : CString) (t : Table) (r : Request) : Table :=
  if (resourceFind t r.key).isSome then t
  else
    match t.free with
    | none => t
    | some i => t.put i ⟨r.key, owner.strlcpy ownerMax, (r.label.getD .empty).strlcpy labelMax⟩

def claimBundle (requests : Option (List Request)) (owner : Option CString) :
    Table × EspErr × Option Conflict :=
  match requests, owner with
  | some rs, some o =>
    if rs.length = 0 ∨ rs.length > bundleMax ∨ o.bytes = [] ∨
        ¬ rs.Pairwise (fun a b => a.key ≠ b.key) then (t, .invalidArg, none)
    else
      match checkRequests t o 0 0 rs with
      | .error conflict => (t, .invalidState, some conflict)
      | .ok required =>
        if required > freeCount t then (t, .noMem, none)
        else (rs.foldl (claimOne o) t, .ok, none)
  | _, _ => (t, .invalidArg, none)

def claim (key : Key) (owner label : Option CString) : Table × EspErr :=
  let r := claimBundle t (some [⟨key, label⟩]) owner
  (r.1, r.2.1)

def release (key : Key) (owner : Option CString) : Table × EspErr :=
  match owner with
  | none => (t, .invalidArg)
  | some o =>
    if o.bytes = [] then (t, .invalidArg)
    else
      match t.find fun c => c.key = key with
      | none => (t, .notFound)
      | some i =>
        if (t i).any fun c => sameOwner c.owner o then (t.clear i, .ok) else (t, .invalidState)

def releaseOwner (owner : Option CString) : Table × Nat :=
  match owner with
  | none => (t, 0)
  | some o =>
    if o.bytes = [] then (t, 0)
    else (t.drop fun c => sameOwner c.owner o, t.tally fun c => sameOwner c.owner o)

inductive Call where
  | claimBundle (requests : Option (List Request)) (owner : Option CString)
  | claim (key : Key) (owner label : Option CString)
  | release (key : Key) (owner : Option CString)
  | releaseOwner (owner : Option CString)

def Call.perform : Call → Table
  | .claimBundle requests owner => (Resources.claimBundle t requests owner).1
  | .claim key owner label => (Resources.claim t key owner label).1
  | .release key owner => (Resources.release t key owner).1
  | .releaseOwner owner => (Resources.releaseOwner t owner).1

end

def Call.owner : Call → Option CString
  | .claimBundle _ owner => owner
  | .claim _ owner _ => owner
  | .release _ owner => owner
  | .releaseOwner owner => owner

/-- The table, and for each key in it the owner string of the call that claimed it. -/
structure Registry where
  table : Table
  holder : Key → Option CString

def Registry.start : Registry := ⟨.empty, fun _ => none⟩

def Registry.step (s : Registry) (call : Call) : Registry where
  table := call.perform s.table
  holder key :=
    if (resourceFind (call.perform s.table) key).isSome then
      if (resourceFind s.table key).isSome then s.holder key else call.owner
    else none

def Fits (_ : Registry) : Call → Prop
  | .claimBundle _ owner => ∀ o, owner = some o → o.strlen < ownerMax
  | .claim _ owner _ => ∀ o, owner = some o → o.strlen < ownerMax
  | _ => True

/-- What claims promise. -/
structure Lawful (s : Registry) : Prop where
  oneHolder : s.table.Distinct Claim.key
  held : ∀ key, (s.holder key).isSome = (resourceFind s.table key).isSome
  bundle : ∀ requests owner,
    (claimBundle s.table (some requests) owner).2.1 = .ok ∧
        (∀ r ∈ requests, (s.step (.claimBundle (some requests) owner)).holder r.key = owner) ∧
        (∀ key o, s.holder key = some o →
          (s.step (.claimBundle (some requests) owner)).holder key = some o) ∨
      (claimBundle s.table (some requests) owner).2.1 ≠ .ok ∧
        (claimBundle s.table (some requests) owner).1 = s.table
  again : ∀ key o label, s.holder key = some o → claim s.table key (some o) label = (s.table, .ok)
  released : ∀ key o, s.holder key = some o →
    (release s.table key (some o)).2 = .ok ∧
      resourceFind (release s.table key (some o)).1 key = none
  ownerReleased : ∀ key o, s.holder key = some o →
    resourceFind (releaseOwner s.table (some o)).1 key = none
  others : ∀ key o other label, s.holder key = some o → other ≠ some o →
    ((claim s.table key other label).1 = s.table ∧ (claim s.table key other label).2 ≠ .ok) ∧
      ((release s.table key other).1 = s.table ∧ (release s.table key other).2 ≠ .ok) ∧
      resourceFind (releaseOwner s.table other).1 key = resourceFind s.table key

theorem sameOwner_iff {stored owner : CString} (short : stored.strlen < ownerMax) :
    sameOwner stored owner = true ↔ stored = owner := by
  rw [sameOwner, decide_eq_true_eq]
  unfold CString.strlen ownerMax at *
  constructor
  · intro same
    have lengths := congrArg List.length same
    rw [length_take, length_take] at lengths
    apply CString.ext_bytes
    rwa [take_of_length_le (by omega), take_of_length_le (by omega)] at same
  · rintro rfl
    rfl

section Table

variable {t : Table} {key : Key}

theorem resourceFind_none : resourceFind t key = none ↔ ∀ i c, t i = some c → c.key ≠ key := by
  unfold resourceFind
  cases h : t.find fun c => c.key = key with
  | none =>
    refine iff_of_true rfl ?_
    intro i c hi
    simpa using find_none h hi
  | some i =>
    obtain ⟨c, hi, same⟩ := find_some h
    refine iff_of_false (by simp [hi]) ?_
    intro other
    exact other i c hi (by simpa using same)

theorem resourceFind_some {c : Claim} (distinct : t.Distinct Claim.key) :
    resourceFind t key = some c ↔ ∃ i, t i = some c ∧ c.key = key := by
  unfold resourceFind
  cases h : t.find fun c => c.key = key with
  | none =>
    refine iff_of_false (by simp) ?_
    rintro ⟨i, hi, same⟩
    simpa [same] using find_none h hi
  | some i =>
    rw [bind_some]
    obtain ⟨b, hb, same⟩ := find_some h
    have hkey : b.key = key := by simpa using same
    constructor
    · intro hi
      obtain rfl : b = c := Option.some.inj (hb.symm.trans hi)
      exact ⟨i, hi, hkey⟩
    · rintro ⟨j, hj, other⟩
      obtain rfl := distinct i j b c hb hj (hkey.trans other.symm)
      exact hj

theorem resourceFind_isSome : (resourceFind t key).isSome = true ↔ ∃ i c, t i = some c ∧ c.key = key := by
  rw [isSome_iff_ne_none, ne_eq, resourceFind_none]
  push Not
  rfl

theorem freeCount_put {i : Fin claimMax} (h : t i = none) (c : Claim) : freeCount (t.put i c) + 1 = freeCount t := by
  have free : i ∈ Finset.univ.filter fun i => (t i).isNone := by simp [h]
  have rest : (Finset.univ.filter fun j => (t.put i c j).isNone) =
      (Finset.univ.filter fun j => (t j).isNone).erase i := by
    ext j
    rw [Finset.mem_erase, Finset.mem_filter, Finset.mem_filter, put_apply]
    by_cases same : j = i
    · simp [same]
    · simp [same]
  rw [freeCount, freeCount, rest, Finset.card_erase_add_one free]

theorem free_of_count (h : 0 < freeCount t) : ∃ i, t.free = some i := by
  cases hf : t.free with
  | some i => exact ⟨i, rfl⟩
  | none =>
    obtain ⟨i, hi⟩ := Finset.card_pos.mp h
    obtain ⟨c, hc⟩ := free_none hf i
    simp [hc] at hi

end Table

structure Filled (owner : CString) (t t' : Table) (rs : List Request) : Prop where
  distinct : t.Distinct Claim.key → t'.Distinct Claim.key
  kept : ∀ i c, t i = some c → t' i = some c
  added : ∀ i c, t' i = some c → t i = some c ∨
    resourceFind t c.key = none ∧ c.owner = owner.strlcpy ownerMax ∧ ∃ r ∈ rs, r.key = c.key
  served : ∀ r ∈ rs, (resourceFind t' r.key).isSome = true

def missing (t : Table) (rs : List Request) : Nat :=
  rs.countP fun r => (resourceFind t r.key).isNone

theorem missing_mono {t t' : Table} (kept : ∀ i c, t i = some c → t' i = some c)
    (rs : List Request) : missing t' rs ≤ missing t rs := by
  apply countP_mono_left
  intro r _ free
  rw [isNone_iff_eq_none, resourceFind_none] at free ⊢
  exact fun i c hi => free i c (kept i c hi)

/-- With an entry for every key that needs one, the loop serves all requests. -/
theorem filled (owner : CString) {rs : List Request} (apart : rs.Pairwise fun a b => a.key ≠ b.key)
    {t : Table} (room : missing t rs ≤ freeCount t) : Filled owner t (rs.foldl (claimOne owner) t) rs := by
  induction rs generalizing t with
  | nil => exact ⟨id, fun _ _ h => h, fun _ _ h => .inl h, nofun⟩
  | cons r rs ih =>
    obtain ⟨others, apart⟩ := pairwise_cons.mp apart
    rw [missing, countP_cons] at room
    rw [foldl_cons, claimOne]
    by_cases held : (resourceFind t r.key).isSome = true
    · rw [if_pos held]
      have rest := ih apart (Nat.le_trans (Nat.le_add_right _ _) room)
      refine ⟨rest.distinct, rest.kept, ?_, ?_⟩
      · intro i c hi
        rcases rest.added i c hi with old | ⟨free, named, r', hr', same⟩
        · exact .inl old
        · exact .inr ⟨free, named, r', mem_cons_of_mem r hr', same⟩
      · intro r' hr'
        rcases mem_cons.mp hr' with rfl | hr'
        · obtain ⟨i, c, hi, same⟩ := resourceFind_isSome.mp held
          exact resourceFind_isSome.mpr ⟨i, c, rest.kept i c hi, same⟩
        · exact rest.served r' hr'
    · rw [if_neg held]
      have free : resourceFind t r.key = none := by simpa using held
      rw [free, isNone_none, if_pos rfl] at room
      obtain ⟨i, hi⟩ := free_of_count (Nat.lt_of_lt_of_le (Nat.succ_pos _) room)
      have empty := free_some hi
      simp only [hi]
      generalize hc : (⟨r.key, owner.strlcpy ownerMax, (r.label.getD .empty).strlcpy labelMax⟩ : Claim) = c
      have key : c.key = r.key := by rw [← hc]
      have kept : ∀ j b, t j = some b → t.put i c j = some b := by
        intro j b hj
        rw [put_of_ne _ c]
        · exact hj
        · rintro rfl
          rw [empty] at hj
          cases hj
      have count := freeCount_put empty c
      have rest := ih apart (t := t.put i c) (by
        have := missing_mono kept rs
        unfold missing at this ⊢
        omega)
      have entry : t.put i c i = some c := put_same i c
      refine ⟨?_, fun j b hj => rest.kept j b (kept j b hj), ?_, ?_⟩
      · intro distinct
        apply rest.distinct
        apply Slots.Distinct.put distinct
        intro j b hj
        rw [key]
        exact resourceFind_none.mp free j b hj
      · intro j b hj
        rcases rest.added j b hj with old | ⟨none', named, r', hr', same⟩
        · rw [put_apply] at old
          split at old
          · cases old
            exact .inr ⟨by rw [key]; exact free, by rw [← hc], r, mem_cons_self, key.symm⟩
          · exact .inl old
        · refine .inr ⟨?_, named, r', mem_cons_of_mem r hr', same⟩
          rw [resourceFind_none] at none' ⊢
          exact fun k d hk => none' k d (kept k d hk)
      · intro r' hr'
        rcases mem_cons.mp hr' with rfl | hr'
        · exact resourceFind_isSome.mpr ⟨i, c, rest.kept i c entry, key⟩
        · exact rest.served r' hr'

theorem checkRequests_ok {t : Table} {owner : CString} {rs : List Request} {i n m : Nat}
    (h : checkRequests t owner i n rs = .ok m) : m = n + missing t rs ∧
      ∀ r ∈ rs, ∀ c, resourceFind t r.key = some c → sameOwner c.owner owner = true := by
  induction rs generalizing i n with
  | nil =>
    cases h
    exact ⟨rfl, nofun⟩
  | cons r rs ih =>
    rw [checkRequests] at h
    rw [missing, countP_cons]
    cases held : resourceFind t r.key with
    | none =>
      simp only [held] at h
      obtain ⟨count, same⟩ := ih h
      refine ⟨by rw [count, missing, isNone_none, if_pos rfl]; omega, ?_⟩
      intro r' hr' c hc
      rcases mem_cons.mp hr' with rfl | hr'
      · rw [held] at hc
        cases hc
      · exact same r' hr' c hc
    | some existing =>
      simp only [held] at h
      split at h
      · rename_i own
        obtain ⟨count, same⟩ := ih h
        refine ⟨by rw [count]; rfl, ?_⟩
        intro r' hr' c hc
        rcases mem_cons.mp hr' with rfl | hr'
        · rw [held] at hc
          cases hc
          exact own
        · exact same r' hr' c hc
      · cases h

theorem claimBundle_cases (t : Table) (requests : Option (List Request)) (owner : Option CString) :
    (claimBundle t requests owner).1 = t ∧ (claimBundle t requests owner).2.1 ≠ .ok ∨
      ∃ rs o, requests = some rs ∧ owner = some o ∧ o.bytes ≠ [] ∧
        (claimBundle t requests owner).2.1 = .ok ∧
        Filled o t (claimBundle t requests owner).1 rs ∧
        ∀ r ∈ rs, ∀ c, resourceFind t r.key = some c → sameOwner c.owner o = true := by
  cases requests with
  | none => exact .inl ⟨rfl, by simp [claimBundle]⟩
  | some rs =>
    cases owner with
    | none => exact .inl ⟨rfl, by simp [claimBundle]⟩
    | some o =>
      rw [claimBundle]
      split
      · exact .inl ⟨rfl, by simp⟩
      · rename_i valid
        push Not at valid
        cases checked : checkRequests t o 0 0 rs with
        | error conflict => exact .inl ⟨rfl, by simp⟩
        | ok required =>
          obtain ⟨count, same⟩ := checkRequests_ok checked
          simp only
          split
          · exact .inl ⟨rfl, by simp⟩
          · exact .inr ⟨rs, o, rfl, rfl, valid.2.2.1, rfl, filled o valid.2.2.2 (by omega), same⟩

/-- What every call keeps, as long as claims name owners that fit. -/
structure Inv (s : Registry) : Prop where
  distinct : s.table.Distinct Claim.key
  owned : ∀ i c, s.table i = some c →
    s.holder c.key = some c.owner ∧ c.owner.strlen < ownerMax ∧ c.owner.bytes ≠ []
  held : ∀ key o, s.holder key = some o → (resourceFind s.table key).isSome = true

/-- What a call may do to the table: the keys stay apart and new entries are the caller's. -/
structure Changed (owner : Option CString) (t t' : Table) : Prop where
  distinct : t.Distinct Claim.key → t'.Distinct Claim.key
  added : ∀ i c, t' i = some c → t i = some c ∨
    resourceFind t c.key = none ∧ owner = some c.owner ∧ c.owner.strlen < ownerMax ∧ c.owner.bytes ≠ []

theorem Changed.refl (owner : Option CString) (t : Table) : Changed owner t t :=
  ⟨id, fun _ _ h => .inl h⟩

theorem Changed.fewer {owner : Option CString} {t t' : Table}
    (old : ∀ i c, t' i = some c → t i = some c) : Changed owner t t' where
  distinct distinct := distinct.of_keys fun i c hi => ⟨c, old i c hi, rfl⟩
  added i c hi := .inl (old i c hi)

theorem claimBundle_changed (t : Table) (requests : Option (List Request)) {owner : Option CString}
    (fits : ∀ o, owner = some o → o.strlen < ownerMax) : Changed owner t (claimBundle t requests owner).1 := by
  rcases claimBundle_cases t requests owner with ⟨same, -⟩ | ⟨rs, o, rfl, rfl, name, -, filled, -⟩
  · rw [same]
    exact .refl _ _
  · refine ⟨filled.distinct, ?_⟩
    intro i c hi
    rcases filled.added i c hi with old | ⟨free, named, -⟩
    · exact .inl old
    · have short := fits o rfl
      rw [CString.strlcpy_of_lt short] at named
      exact .inr ⟨free, by rw [named], by rw [named]; exact short, by rw [named]; exact name⟩

theorem perform_changed (s : Registry) (call : Call) (fits : Fits s call) :
    Changed call.owner s.table (call.perform s.table) := by
  cases call with
  | claimBundle requests owner | claim key owner label => exact claimBundle_changed _ _ fits
  | release key owner =>
    apply Changed.fewer
    intro i c hi
    unfold Call.perform release at hi
    cases owner with
    | none => exact hi
    | some o =>
      simp only at hi
      split at hi
      · exact hi
      · split at hi
        · exact hi
        · split at hi
          · exact (clear_some.mp hi).2
          · exact hi
  | releaseOwner owner =>
    apply Changed.fewer
    intro i c hi
    unfold Call.perform releaseOwner at hi
    cases owner with
    | none => exact hi
    | some o =>
      simp only at hi
      split at hi
      · exact hi
      · exact (drop_some.mp hi).1

theorem Inv.step {s : Registry} (h : Inv s) (call : Call) (fits : Fits s call) : Inv (s.step call) := by
  have changed := perform_changed s call fits
  constructor
  · exact changed.distinct h.distinct
  · intro i c hi
    have here : (resourceFind (call.perform s.table) c.key).isSome = true := resourceFind_isSome.mpr ⟨i, c, hi, rfl⟩
    simp only [Registry.step, if_pos here]
    rcases changed.added i c hi with old | ⟨free, named, short, name⟩
    · rw [if_pos (resourceFind_isSome.mpr ⟨i, c, old, rfl⟩)]
      exact h.owned i c old
    · rw [if_neg (by simp [free])]
      exact ⟨named, short, name⟩
  · intro key o holds
    simp only [Registry.step] at holds
    split at holds
    · assumption
    · cases holds

section Laws

variable {s : Registry} {key : Key} {o : CString}

section
variable (h : Inv s)
include h

section
variable (holds : s.holder key = some o)
include holds

theorem Inv.entry : ∃ i c, s.table.find (fun c => c.key = key) = some i ∧ s.table i = some c ∧ c.key = key ∧
      c.owner = o ∧ resourceFind s.table key = some c ∧ o.strlen < ownerMax ∧ o.bytes ≠ [] := by
  obtain ⟨i, c, hi, rfl⟩ := resourceFind_isSome.mp (h.held key o holds)
  obtain ⟨named, short, name⟩ := h.owned i c hi
  obtain rfl : c.owner = o := Option.some.inj (named.symm.trans holds)
  obtain ⟨j, hj⟩ := find_isSome (fun b => b.key = c.key) hi (by simp)
  obtain rfl := h.distinct.find_eq hj hi rfl
  exact ⟨i, c, hj, hi, rfl, rfl, (resourceFind_some h.distinct).mpr ⟨i, hi, rfl⟩, short, name⟩

theorem Inv.again (label : Option CString) : claim s.table key (some o) label = (s.table, .ok) := by
  obtain ⟨i, c, -, -, -, rfl, found, short, name⟩ := h.entry holds
  have own : sameOwner c.owner c.owner = true := (sameOwner_iff short).mpr rfl
  have valid : ¬ ([(⟨key, label⟩ : Request)].length = 0 ∨ [(⟨key, label⟩ : Request)].length > bundleMax ∨
      c.owner.bytes = [] ∨ ¬ [(⟨key, label⟩ : Request)].Pairwise fun a b => a.key ≠ b.key) := by
    simp [name, bundleMax]
  have kept : claimOne c.owner s.table ⟨key, label⟩ = s.table := by
    rw [claimOne, found]
    rfl
  have checked : checkRequests s.table c.owner 0 0 [⟨key, label⟩] = .ok 0 := by
    simp only [checkRequests, found, own, if_true]
  simp only [claim, claimBundle, if_neg valid, checked, foldl_cons, foldl_nil, kept]
  rfl

theorem Inv.released : (release s.table key (some o)).2 = .ok ∧
      resourceFind (release s.table key (some o)).1 key = none := by
  obtain ⟨i, c, first, hi, hkey, rfl, -, short, name⟩ := h.entry holds
  have own : (s.table i).any (fun b => sameOwner b.owner c.owner) = true := by
    rw [hi]
    exact (sameOwner_iff short).mpr rfl
  simp only [release, if_neg name, first, own, if_true, true_and]
  rw [resourceFind_none]
  intro j b hj same
  obtain ⟨apart, hj⟩ := clear_some.mp hj
  exact apart (h.distinct j i b c hj hi (same.trans hkey.symm))

theorem Inv.ownerReleased : resourceFind (releaseOwner s.table (some o)).1 key = none := by
  obtain ⟨i, c, -, hi, hkey, rfl, -, short, name⟩ := h.entry holds
  simp only [releaseOwner, if_neg name]
  rw [resourceFind_none]
  intro j b hj same
  obtain ⟨hj, apart⟩ := drop_some.mp hj
  obtain rfl := h.distinct j i b c hj hi (same.trans hkey.symm)
  obtain rfl : b = c := Option.some.inj (hj.symm.trans hi)
  rw [(sameOwner_iff short).mpr rfl] at apart
  cases apart

theorem Inv.others {other : Option CString} (apart : other ≠ some o) (label : Option CString) :
    ((claim s.table key other label).1 = s.table ∧ (claim s.table key other label).2 ≠ .ok) ∧
      ((release s.table key other).1 = s.table ∧ (release s.table key other).2 ≠ .ok) ∧
      resourceFind (releaseOwner s.table other).1 key = resourceFind s.table key := by
  obtain ⟨i, c, first, hi, hkey, rfl, found, short, name⟩ := h.entry holds
  cases other with
  | none => exact ⟨⟨rfl, by simp [claim, claimBundle]⟩, ⟨rfl, by simp [release]⟩, rfl⟩
  | some o' =>
    have foreign : sameOwner c.owner o' = false := by
      rw [← Bool.not_eq_true, sameOwner_iff short]
      rintro rfl
      exact apart rfl
    refine ⟨?_, ?_, ?_⟩
    · rcases claimBundle_cases s.table (some [⟨key, label⟩]) (some o') with
        refused | ⟨rs, o'', hrs, ho, -, -, -, same⟩
      · exact refused
      · cases hrs
        cases ho
        have := same _ mem_cons_self c found
        rw [foreign] at this
        cases this
    · have kept : (s.table i).any (fun b => sameOwner b.owner o') = false := by
        rw [hi]
        exact foreign
      simp only [release, first, kept]
      split
      · simp
      · simp
    · rw [found]
      unfold releaseOwner
      simp only
      split
      · exact found
      · rw [resourceFind_some]
        · exact ⟨i, drop_some.mpr ⟨hi, foreign⟩, hkey⟩
        · exact h.distinct.of_keys fun j b hj => ⟨b, (drop_some.mp hj).1, rfl⟩

end

theorem Inv.bundle (requests : List Request) (owner : Option CString) :
    (claimBundle s.table (some requests) owner).2.1 = .ok ∧
        (∀ r ∈ requests, (s.step (.claimBundle (some requests) owner)).holder r.key = owner) ∧
        (∀ key o, s.holder key = some o →
          (s.step (.claimBundle (some requests) owner)).holder key = some o) ∨
      (claimBundle s.table (some requests) owner).2.1 ≠ .ok ∧
        (claimBundle s.table (some requests) owner).1 = s.table := by
  rcases claimBundle_cases s.table (some requests) owner with
    ⟨same, err⟩ | ⟨rs, o, hrs, rfl, -, done, filled, own⟩
  · exact .inr ⟨err, same⟩
  · cases hrs
    refine .inl ⟨done, ?_, ?_⟩
    · intro r hr
      have served : (resourceFind
          ((Call.claimBundle (some requests) (some o)).perform s.table) r.key).isSome = true :=
        filled.served r hr
      rw [Registry.step]
      simp only [served, if_true]
      split
      · rename_i before
        obtain ⟨i, c, hi, hkey⟩ := resourceFind_isSome.mp before
        obtain ⟨named, short, -⟩ := h.owned i c hi
        have same := own r hr c ((resourceFind_some h.distinct).mpr ⟨i, hi, hkey⟩)
        rw [← hkey, named, (sameOwner_iff short).mp same]
      · rfl
    · intro key o' holds
      obtain ⟨i, c, -, hi, hkey, -⟩ := h.entry holds
      have still : (resourceFind
          ((Call.claimBundle (some requests) (some o)).perform s.table) key).isSome = true :=
        resourceFind_isSome.mpr ⟨i, c, filled.kept i c hi, hkey⟩
      rw [Registry.step]
      simp only [still, if_true, resourceFind_isSome.mpr ⟨i, c, hi, hkey⟩]
      exact holds

theorem Inv.lawful : Lawful s where
  oneHolder := h.distinct
  held key := by
    cases holds : s.holder key with
    | some o => rw [h.held key o holds]; rfl
    | none =>
      symm
      rw [isSome_none, ← Bool.not_eq_true]
      intro there
      obtain ⟨i, c, hi, rfl⟩ := resourceFind_isSome.mp there
      rw [(h.owned i c hi).1] at holds
      cases holds
  bundle := h.bundle
  again _ _ label holds := h.again holds label
  released _ _ holds := h.released holds
  ownerReleased _ _ holds := h.ownerReleased holds
  others _ _ _ label holds apart := h.others holds apart label

end

end Laws

/-- In every run in which claims name owners that fit their field, claims keep what they
promise. -/
theorem lawful_of_fits (calls : List Call) (fits : Machine.Admits Registry.step Fits .start calls) :
    Lawful (Machine.run Registry.step .start calls) := by
  apply Inv.lawful
  refine Machine.run_induct (fun s call h ok => h.step call ok) ?_ fits
  constructor
  · intro i j a b hi
    cases hi
  · intro i c hi
    cases hi
  · intro key o holds
    cases holds

/-- Two claims of a pin by the driver that owns it, and a bundle of another owner. -/
theorem lawful_of_fits_pins : Lawful (Machine.run Registry.step .start
      [.claim ⟨.gpioPin, 4, -1⟩ (some ⟨[103, 112, 105, 111, 52], by decide⟩) none,
        .claimBundle (some [⟨⟨.gpioPin, 5, -1⟩, none⟩]) (some ⟨[98, 117, 115], by decide⟩)]) :=
  lawful_of_fits _ ⟨by rintro o ⟨⟩; decide, by rintro o ⟨⟩; decide, trivial⟩

def longOwner : CString := ⟨List.replicate 24 97, by decide⟩

/-- It claims a pin and can then not claim it again. -/
theorem longOwner_not_lawful :
    ¬ Lawful (Machine.run Registry.step .start [.claim ⟨.gpioPin, 4, -1⟩ (some longOwner) none]) := by
  intro h
  have again := congrArg Prod.snd (h.again ⟨.gpioPin, 4, -1⟩ longOwner none (by decide))
  exact absurd again (by decide)

end SolarOs.Resources
