import Mathlib.Data.List.FinRange
import Mathlib.Data.List.MinMax
import SolarOs.Library.Machine

/-! The clients that the Wi-Fi repeater has learned: which hardware address an IP address stands for,
and what becomes of it as clients are learned and forgotten. -/
namespace SolarOs.Wifi

def clientMax : Nat := 16
def clientTtlMaxSeconds : Nat := 604800

abbrev Mac := Vector UInt8 6

open List Machine

structure Client where
  ip : UInt32
  mac : Mac
  expiresUs : Nat
  valid : Bool
  deriving DecidableEq

abbrev Table := Fin clientMax → Client

/-- The first octet of the address is the low byte. -/
def ipIsLearnable (ip : UInt32) : Bool := ip ≠ 0 && ip ≠ 0xffffffff && ip &&& 0xf0 ≠ 0xe0

def macIsZero (mac : Mac) : Bool := mac.all (· = 0)

def macIsGroup (mac : Mac) : Bool := mac.get 0 &&& 1 ≠ 0

def learnable (ip : UInt32) (mac : Mac) : Bool := ipIsLearnable ip && !macIsZero mac && !macIsGroup mac

def Client.live (c : Client) (now : Nat) : Bool := c.valid && now < c.expiresUs

def Client.matches (c : Client) (ip : UInt32) (mac : Mac) : Bool := c.valid && (c.ip = ip || c.mac = mac)

namespace Table

variable (t : Table) (now : Nat) (ip : UInt32) (mac : Mac)

/-- The first entry that expires first. -/
def oldest : Fin clientMax := ((List.finRange clientMax).argmin fun i => (t i).expiresUs).getD ⟨0, by decide⟩

/-- The entry of an address that a learned client replaces. -/
def matching : Option (Fin clientMax) := (List.finRange clientMax).find? fun i => (t i).matches ip mac

def free : Option (Fin clientMax) := (List.finRange clientMax).find? fun i => !(t i).live now

def selected : Fin clientMax := ((t.matching ip mac).or (t.free now)).getD t.oldest

def learn (ttlSeconds : Nat) : Table :=
  if learnable ip mac then
    Function.update t (t.selected now ip mac) ⟨ip, mac, now + min ttlSeconds clientTtlMaxSeconds * 1000000, true⟩
  else t

def found : Option (Fin clientMax) := (List.finRange clientMax).find? fun i => (t i).live now && (t i).ip = ip

/-- `repeater_client_lookup`: the loop ends at the entry that is found. -/
def lookup : Table × Option Mac :=
  (fun i => if (t i).live now || (t.found now ip).any (· < i) then t i else { t i with valid := false },
    (t.found now ip).map fun i => (t i).mac)

/-- `solar_os_wifi_repeater_clear_clients`. -/
def clear : Table := fun _ => ⟨0, .replicate 6 0, 0, false⟩

end Table

/-- The table and the time; `known` notes for each address the client that was learned last and when it
expires, if it has not been learned for another address or evicted since. -/
structure World where
  table : Table
  now : Nat
  known : UInt32 → Option (Mac × Nat)

inductive Step where
  | learn (after : Nat) (ip : UInt32) (mac : Mac) (ttlSeconds : Nat)
  | lookup (after : Nat) (ip : UInt32)
  | clear

/-- The address whose entry gives way: the first to expire where every entry is live. -/
def Table.evicted (t : Table) (now : Nat) (ip : UInt32) (mac : Mac) : Option UInt32 :=
  if t.matching ip mac = none ∧ t.free now = none then some (t t.oldest).ip else none

/-- What is known once a client has been learned. -/
def World.noted (w : World) (now : Nat) (ip : UInt32) (mac : Mac) (ttlSeconds : Nat) (other : UInt32) :
    Option (Mac × Nat) :=
  if other = ip then some (mac, now + min ttlSeconds clientTtlMaxSeconds * 1000000)
  else if w.table.evicted now ip mac = some other then none
  else (w.known other).filter fun entry => entry.1 ≠ mac

def takeStep (w : World) : Step → World
  | .learn after ip mac ttlSeconds =>
    { table := w.table.learn (w.now + after) ip mac ttlSeconds
      now := w.now + after
      known := if learnable ip mac then w.noted (w.now + after) ip mac ttlSeconds else w.known }
  | .lookup after ip => { w with table := (w.table.lookup (w.now + after) ip).1, now := w.now + after }
  | .clear => { w with table := .clear, known := fun _ => none }

def start : World := ⟨.clear, 0, fun _ => none⟩

/-- No two live entries have the same IP or hardware address. -/
def Table.OneToOne (t : Table) (now : Nat) : Prop :=
  ∀ i j, (t i).live now = true → (t j).live now = true → (t i).ip = (t j).ip ∨ (t i).mac = (t j).mac → i = j

/-- The addresses of a learned client are not in an entry and in a live one after it. -/
def Apart (w : World) : Step → Prop
  | .learn after ip mac _ => learnable ip mac = true → ∀ i j, i < j →
    (w.table i).matches ip mac = true → (w.table j).matches ip mac = true → (w.table j).live (w.now + after) = false
  | _ => True

instance (w : World) : ∀ s, Decidable (Apart w s)
  | .learn after ip mac _ => inferInstanceAs (Decidable (learnable ip mac = true → ∀ i j, i < j →
    (w.table i).matches ip mac = true → (w.table j).matches ip mac = true → (w.table j).live (w.now + after) = false))
  | .lookup _ _ => .isTrue trivial
  | .clear => .isTrue trivial

/-- What a lookup at some time answers of what is known. -/
def World.answer (w : World) (now : Nat) (ip : UInt32) : Option Mac :=
  ((w.known ip).filter fun entry => now < entry.2).map Prod.fst

structure Tracks (w : World) : Prop where
  single : w.table.OneToOne w.now
  same : ∀ c : Client, c.live w.now = true → (w.known c.ip = some (c.mac, c.expiresUs) ↔ ∃ i, w.table i = c)

variable {w : World} {t : Table} {now : Nat} {ip : UInt32} {mac : Mac} {i j : Fin clientMax} {c : Client}

theorem live_iff : c.live now = true ↔ c.valid = true ∧ now < c.expiresUs := by
  unfold Client.live
  rw [Bool.and_eq_true, decide_eq_true_eq]

theorem matches_of_live (live : c.live now = true) : c.matches ip mac = true ↔ c.ip = ip ∨ c.mac = mac := by
  unfold Client.matches
  rw [(live_iff.mp live).1, Bool.true_and, Bool.or_eq_true, decide_eq_true_eq, decide_eq_true_eq]

theorem find_none {want : Fin clientMax → Bool} (none : (List.finRange clientMax).find? want = none)
    (i : Fin clientMax) : want i = false :=
  Bool.eq_false_iff.mpr (find?_eq_none.mp none i (mem_finRange i))

theorem find_first {want : Fin clientMax → Bool} (found : (List.finRange clientMax).find? want = some i)
    (wanted : want j = true) : i ≤ j := by
  obtain ⟨-, k, inside, rfl, before⟩ := find?_eq_some_iff_getElem.mp found
  rw [getElem_finRange]
  by_contra earlier
  have not := before j.val (by simpa [Fin.lt_def] using earlier)
  rw [getElem_finRange] at not
  simp [wanted] at not

theorem Tracks.wait (h : Tracks w) (after : Nat) : Tracks { w with now := w.now + after } := by
  have earlier : ∀ c : Client, c.live (w.now + after) = true → c.live w.now = true := by
    intro c live
    rw [live_iff] at live ⊢
    exact ⟨live.1, by omega⟩
  exact ⟨fun i j first second => h.single i j (earlier _ first) (earlier _ second),
    fun c live => h.same c (earlier c live)⟩

theorem lookup_entry (live : c.live now = true) : (t.lookup now ip).1 i = c ↔ t i = c := by
  unfold Table.lookup
  dsimp only
  split
  · exact Iff.rfl
  · rename_i gone
    refine iff_of_false (fun is => ?_) fun is => gone (by rw [is, live]; rfl)
    rw [← is] at live
    exact Bool.false_ne_true (live_iff.mp live).1

theorem Tracks.lookup (h : Tracks w) (ip : UInt32) :
    Tracks { w with table := (w.table.lookup w.now ip).1 } ∧ (w.table.lookup w.now ip).2 = w.answer w.now ip := by
  refine ⟨⟨fun i j first second => ?_, fun c live => ?_⟩, ?_⟩
  · have firstSame : w.table i = (w.table.lookup w.now ip).1 i := (lookup_entry first).mp rfl
    have secondSame : w.table j = (w.table.lookup w.now ip).1 j := (lookup_entry second).mp rfl
    dsimp only at first second ⊢
    rw [← firstSame] at first ⊢
    rw [← secondSame] at second ⊢
    exact h.single i j first second
  · exact (h.same c live).trans (exists_congr fun i => (lookup_entry live).symm)
  · unfold Table.lookup World.answer
    cases found : w.table.found w.now ip with
    | none =>
      cases known : w.known ip with
      | none => rfl
      | some entry =>
        have past : ¬w.now < entry.2 := by
          intro ahead
          have live : Client.live ⟨ip, entry.1, entry.2, true⟩ w.now = true := live_iff.mpr ⟨rfl, ahead⟩
          obtain ⟨i, is⟩ := (h.same _ live).mp known
          have not := find_none found i
          rw [is, live] at not
          simp at not
        simp [Option.filter, past]
    | some i =>
      have hit := find?_some found
      rw [Bool.and_eq_true, decide_eq_true_eq] at hit
      have known := (h.same _ hit.1).mpr ⟨i, rfl⟩
      rw [hit.2] at known
      simp [known, Option.filter, (live_iff.mp hit.1).2]

theorem selected_only (apart : ∀ i j, i < j → (t i).matches ip mac = true → (t j).matches ip mac = true →
    (t j).live now = false) (other : j ≠ t.selected now ip mac) (live : (t j).live now = true) :
    (t j).ip ≠ ip ∧ (t j).mac ≠ mac := by
  rw [← not_or, ← matches_of_live live]
  intro found
  cases first : t.matching ip mac with
  | none => exact Bool.false_ne_true ((find_none first j).symm.trans found)
  | some i =>
    have chosen : t.selected now ip mac = i := by rw [Table.selected, first]; rfl
    rw [chosen] at other
    have hit := find?_some first
    have before : i < j := lt_of_le_of_ne (find_first first found) other.symm
    exact Bool.false_ne_true ((apart i j before hit found).symm.trans live)

theorem selected_live (single : t.OneToOne now) (live : (t i).live now = true)
    (foreign : (t i).ip ≠ ip ∧ (t i).mac ≠ mac) : i = t.selected now ip mac ↔ t.evicted now ip mac = some (t i).ip := by
  unfold Table.selected Table.evicted
  cases matched : t.matching ip mac with
  | some j =>
    refine iff_of_false (fun is : i = j => ?_) (by simp)
    have hit := find?_some matched
    rw [← is] at hit
    exact ((matches_of_live live).mp hit).elim foreign.1 foreign.2
  | none =>
    cases open_ : t.free now with
    | some j =>
      refine iff_of_false (fun is : i = j => ?_) (by simp)
      have hit := find?_some open_
      rw [← is, live] at hit
      cases hit
    | none =>
      rw [if_pos ⟨rfl, rfl⟩, Option.some.injEq]
      have full : (t t.oldest).live now = true := by simpa using find_none open_ t.oldest
      exact ⟨fun is => congrArg (fun i => (t i).ip) is.symm, fun same => (single _ _ full live (.inl same)).symm⟩

theorem Tracks.learn (h : Tracks w) (ip : UInt32) (mac : Mac) (ttlSeconds : Nat) (ok : learnable ip mac = true)
    (apart : Apart w (.learn 0 ip mac ttlSeconds)) :
    Tracks ⟨w.table.learn w.now ip mac ttlSeconds, w.now, w.noted w.now ip mac ttlSeconds⟩ := by
  have others := fun j => @selected_only w.table w.now ip mac j (apart ok)
  have here : w.table.learn w.now ip mac ttlSeconds (w.table.selected w.now ip mac) =
      ⟨ip, mac, w.now + min ttlSeconds clientTtlMaxSeconds * 1000000, true⟩ := by
    rw [Table.learn, if_pos ok, Function.update_self]
  have there : ∀ j, j ≠ w.table.selected w.now ip mac → w.table.learn w.now ip mac ttlSeconds j = w.table j := by
    intro j other
    rw [Table.learn, if_pos ok, Function.update_of_ne other]
  constructor
  · intro i j first second same
    dsimp only at first second same
    by_cases mine : i = w.table.selected w.now ip mac <;> by_cases yours : j = w.table.selected w.now ip mac
    · rw [mine, yours]
    · rw [there j yours] at second same
      rw [mine, here] at same
      exact absurd (same.imp Eq.symm Eq.symm) (not_or.mpr (others j yours second))
    · rw [there i mine] at first same
      rw [yours, here] at same
      exact absurd same (not_or.mpr (others i mine first))
    · rw [there i mine] at first same
      rw [there j yours] at second same
      exact h.single i j first second same
  · intro c live
    dsimp only at live ⊢
    have moved : (∃ i, w.table.learn w.now ip mac ttlSeconds i = c) ↔
        c = ⟨ip, mac, w.now + min ttlSeconds clientTtlMaxSeconds * 1000000, true⟩ ∨
          ∃ i, i ≠ w.table.selected w.now ip mac ∧ w.table i = c := by
      constructor
      · rintro ⟨j, is⟩
        by_cases yours : j = w.table.selected w.now ip mac
        · rw [yours, here] at is
          exact .inl is.symm
        · rw [there j yours] at is
          exact .inr ⟨j, yours, is⟩
      · rintro (rfl | ⟨j, other, is⟩)
        · exact ⟨_, here⟩
        · exact ⟨j, (there j other).trans is⟩
    rw [moved]
    unfold World.noted
    by_cases mine : c.ip = ip
    · have elsewhere : ¬∃ i, i ≠ w.table.selected w.now ip mac ∧ w.table i = c := by
        rintro ⟨j, other, rfl⟩
        exact (others j other live).1 mine
      rw [if_pos mine, or_iff_left elsewhere, Option.some.injEq, Prod.mk.injEq]
      have valid := (live_iff.mp live).1
      obtain ⟨ip', mac', expires, valid'⟩ := c
      cases mine
      cases valid
      simp [eq_comm]
    · have fresh : c ≠ ⟨ip, mac, w.now + min ttlSeconds clientTtlMaxSeconds * 1000000, true⟩ := fun is => mine (by rw [is])
      rw [if_neg mine, or_iff_right fresh]
      have kept : (∃ i, i ≠ w.table.selected w.now ip mac ∧ w.table i = c) ↔
          (c.mac ≠ mac ∧ w.table.evicted w.now ip mac ≠ some c.ip) ∧ ∃ i, w.table i = c := by
        constructor
        · rintro ⟨j, other, rfl⟩
          have foreign := others j other live
          exact ⟨⟨foreign.2, mt (selected_live h.single live foreign).mpr other⟩, j, rfl⟩
        · rintro ⟨⟨foreign, stays⟩, j, rfl⟩
          exact ⟨j, mt (selected_live h.single live ⟨mine, foreign⟩).mp stays, rfl⟩
      rw [kept, ← h.same c live]
      split
      · rename_i gone
        exact iff_of_false nofun fun all => all.1.2 gone
      · rename_i stays
        rw [Option.filter_eq_some_iff]
        simp [stays, and_comm]

theorem cleared (now : Nat) : Tracks ⟨.clear, now, fun _ => none⟩ := by
  constructor
  · intro i j first
    cases first
  · intro c live
    refine iff_of_false nofun ?_
    rintro ⟨i, rfl⟩
    cases live

theorem Tracks.step (h : Tracks w) (s : Step) (apart : Apart w s) : Tracks (takeStep w s) := by
  cases s with
  | learn after ip mac ttlSeconds =>
    have waited := h.wait after
    unfold takeStep
    dsimp only
    split
    · rename_i ok
      exact waited.learn ip mac ttlSeconds ok apart
    · rename_i refused
      rw [Table.learn, if_neg refused]
      exact waited
  | lookup after ip => exact ((h.wait after).lookup ip).1
  | clear =>
    exact cleared w.now

/-- In every run in which no client is learned whose addresses are those of two clients, each live
address is in one entry, and a lookup answers with what is known. -/
theorem clients_kept (steps : List Step) (apart : Machine.Admits takeStep Apart start steps) :
    (run takeStep start steps).table.OneToOne (run takeStep start steps).now ∧
      ∀ after ip, ((run takeStep start steps).table.lookup ((run takeStep start steps).now + after) ip).2 =
        (run takeStep start steps).answer ((run takeStep start steps).now + after) ip := by
  have tracks := run_induct (fun w s h apart => h.step s apart) (cleared 0) apart
  exact ⟨tracks.single, fun after ip => ((tracks.wait after).lookup ip).2⟩

/-- A client takes another address, and its first address goes to a second client. -/
def moves : List Step :=
  [.learn 1 1 (.replicate 6 2) 60, .learn 1 2 (.replicate 6 2) 60, .lookup 1 1, .learn 1 1 (.replicate 6 4) 60]

theorem clients_kept_moves : ((run takeStep start moves).table.lookup 5 1).2 = some (.replicate 6 4) :=
  ((clients_kept moves (by decide +kernel)).2 1 1).trans (by decide +kernel)

theorem clients_swapped : ¬∀ steps, (run takeStep start steps).table.OneToOne (run takeStep start steps).now := by
  intro claim
  have same := claim [.learn 1 1 (.replicate 6 2) 60, .learn 1 2 (.replicate 6 4) 60, .learn 1 1 (.replicate 6 4) 60]
    ⟨0, by decide⟩ ⟨1, by decide⟩ (by decide +kernel) (by decide +kernel) (by decide +kernel)
  exact absurd same (by decide)

end SolarOs.Wifi
