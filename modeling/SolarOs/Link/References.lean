import Mathlib.Algebra.BigOperators.Group.Multiset.Basic
import SolarOs.Library.Rights
import SolarOs.Link.Instances

/-! The references of the calls that are under way, counted: what each operation takes from its
call and gives back, and what the slots have to do with it. -/
namespace SolarOs.Link
open Program Multiset

/-- What a call holds: a reference, with a frame that is queued and not recorded, or with a message
that was received; or a slot that it closes, waited for at first and then without references. -/
inductive Right where
  | ref (ref : LinkRef)
  | sending (ref : LinkRef) (key : Key)
  | knowing (ref : LinkRef) (message : Message)
  | closing (index : Fin instanceMax)
  | drained (index : Fin instanceMax)
  deriving DecidableEq

abbrev Rights := Multiset Right

namespace Right

def holds : Right → Option LinkRef
  | .ref r => some r
  | .sending r _ => some r
  | .knowing r _ => some r
  | _ => none

/-- What a right counts for at a slot: as a reference, as a closing, and as one without references. -/
def tally (index : Fin instanceMax) : Right → Nat × Nat × Nat
  | .closing i => if i = index then (0, 1, 0) else 0
  | .drained i => if i = index then (0, 1, 1) else 0
  | .ref r => if r.index = index then (1, 0, 0) else 0
  | .sending r _ => if r.index = index then (1, 0, 0) else 0
  | .knowing r _ => if r.index = index then (1, 0, 0) else 0

variable {index : Fin instanceMax} {right : Right} {r : LinkRef}

theorem tally_of_holds (holds : right.holds = some r) :
    right.tally index = if r.index = index then (1, 0, 0) else 0 := by
  cases right with
  | closing i => cases holds
  | drained i => cases holds
  | ref r' => cases holds; rfl
  | sending r' key => cases holds; rfl
  | knowing r' message => cases holds; rfl

end Right

def Rights.tally (held : Rights) (index : Fin instanceMax) : Nat × Nat × Nat := (held.map (Right.tally index)).sum

section
variable {index : Fin instanceMax} {right : Right} {r : LinkRef} {held : Rights}

@[simp] theorem tally_zero : Rights.tally 0 index = 0 := rfl

@[simp] theorem tally_add (first second : Rights) : (first + second).tally index = first.tally index + second.tally index := by
  rw [Rights.tally, Multiset.map_add, sum_add]
  rfl

@[simp] theorem tally_singleton (right : Right) : Rights.tally {right} index = right.tally index := by
  rw [Rights.tally, map_singleton, sum_singleton]

theorem tally_of_mem (there : right ∈ held) : ∃ rest : Rights, held.tally index = rest.tally index + right.tally index := by
  obtain ⟨rest, rfl⟩ := exists_cons_of_mem there
  refine ⟨rest, ?_⟩
  rw [← singleton_add, tally_add, tally_singleton, add_comm]

theorem drains_le (held : Rights) (index : Fin instanceMax) : (held.tally index).2.2 ≤ (held.tally index).2.1 := by
  induction held using Multiset.induction_on with
  | empty => exact Nat.le_refl 0
  | cons right held ih =>
    rw [← singleton_add, tally_add, tally_singleton]
    refine Nat.add_le_add ?_ ih
    cases right <;> unfold Right.tally <;> dsimp only <;> split <;> decide

theorem tally_of_ref (there : right ∈ held) (holds : right.holds = some r) : 0 < (held.tally r.index).1 := by
  obtain ⟨rest, same⟩ := @tally_of_mem r.index right held there
  rw [same, Right.tally_of_holds holds, if_pos rfl]
  exact Nat.succ_pos _

end

def examined (ref : LinkRef) (message : Message) : Verdict → Right
  | .received true _ => .knowing ref message
  | _ => .ref ref

def queuedRight (ref : LinkRef) (message : Message) (queued : Bool) : Right :=
  if queued = true ∧ message.asks = true then .sending ref message.key else .ref ref

theorem queuedRight_holds (r : LinkRef) (message : Message) (queued : Bool) :
    (queuedRight r message queued).holds = some r := by
  unfold queuedRight
  split <;> rfl

theorem examined_holds (r : LinkRef) (message : Message) (verdict : Verdict) :
    (examined r message verdict).holds = some r := by
  unfold examined
  split <;> rfl

def waitedRights (index : Fin instanceMax) : Nat → Rights
  | 0 => {.drained index}
  | _ + 1 => 0

/-- What the operations take and give. -/
inductive Deals : {β : Type} → Op β → Deal Rights β → Prop
  | create (name : CString) (localId : UInt32) (frameMtu : Nat) (valid : linkNameValid name = true) :
    Deals (.create name localId frameMtu) ⟨0, fun _ => 0, fun _ => True⟩
  | acquire (name : CString) :
    Deals (.acquire name) ⟨0, fun ref => ref.elim 0 fun ref => {.ref ref}, fun _ => True⟩
  | release (ref : LinkRef) : Deals (.release ref) ⟨{.ref ref}, fun _ => 0, fun _ => True⟩
  | number (ref : LinkRef) (type : MessageType) (destination : UInt32) :
    Deals (.number ref type destination) ⟨{.ref ref}, fun _ => {.ref ref}, fun _ => True⟩
  | frameMtu (ref : LinkRef) : Deals (.frameMtu ref) ⟨{.ref ref}, fun _ => {.ref ref}, fun _ => True⟩
  | sendTx (ref : LinkRef) (message : Message) (frame : List UInt8) :
    Deals (.sendTx ref message frame)
      ⟨{.ref ref}, fun queued => {queuedRight ref message queued}, fun _ => True⟩
  | recordSent (ref : LinkRef) (message : Message) (asks : message.asks = true) :
    Deals (.recordSend ref message .ok) ⟨{.sending ref message.key}, fun _ => {.ref ref}, fun _ => True⟩
  | recordOther (ref : LinkRef) (message : Message) (ret : EspErr) (other : ret ≠ .ok ∨ message.asks = false) :
    Deals (.recordSend ref message ret) ⟨{.ref ref}, fun _ => {.ref ref}, fun _ => True⟩
  | receiveTx (ref : LinkRef) : Deals (.receiveTx ref) ⟨{.ref ref}, fun _ => {.ref ref}, fun _ => True⟩
  | recordInvalid (ref : LinkRef) (ret : EspErr) :
    Deals (.recordInvalid ref ret) ⟨{.ref ref}, fun _ => {.ref ref}, fun _ => True⟩
  | examine (ref : LinkRef) (message : Message) :
    Deals (.examine ref message) ⟨{.ref ref}, fun verdict => {examined ref message verdict},
      fun verdict => ∀ duplicate sendAck, verdict = .received duplicate sendAck →
        (duplicate = true → message.type ≠ .stream) ∧ (sendAck = true → message.asks = true)⟩
  | sendRx (ref : LinkRef) (message : Message) :
    Deals (.sendRx ref message)
      ⟨{.ref ref}, fun queued => if queued then {.knowing ref message} else {.ref ref}, fun _ => True⟩
  | receiveRx (ref : LinkRef) : Deals (.receiveRx ref) ⟨{.ref ref}, fun _ => {.ref ref}, fun _ => True⟩
  | localId (ref : LinkRef) (right : Right) (holds : right.holds = some ref) :
    Deals (.localId ref) ⟨{right}, fun _ => {right}, fun _ => True⟩
  | sendAck (ref : LinkRef) (message : Message) (frame : List UInt8) :
    Deals (.sendAck ref message frame) ⟨{.knowing ref message}, fun _ => {.knowing ref message}, fun _ => True⟩
  | recordKnown (ref : LinkRef) (message : Message) (ret ackRet : EspErr) (duplicate sendAck evicted : Bool) :
    Deals (.recordIngest ref message ret ackRet duplicate sendAck evicted)
      ⟨{.knowing ref message}, fun _ => {.ref ref}, fun _ => True⟩
  | recordUnknown (ref : LinkRef) (message : Message) (ret ackRet : EspErr) (duplicate sendAck evicted : Bool)
      (other : ret ≠ .ok ∨ message.type = .stream) :
    Deals (.recordIngest ref message ret ackRet duplicate sendAck evicted)
      ⟨{.ref ref}, fun _ => {.ref ref}, fun _ => True⟩
  | close (name : CString) :
    Deals (.close name) ⟨0, fun index => index.elim 0 fun index => {.closing index}, fun _ => True⟩
  | refs (index : Fin instanceMax) :
    Deals (.refs index) ⟨{.closing index}, waitedRights index, fun _ => True⟩
  | clear (index : Fin instanceMax) : Deals (.clear index) ⟨{.drained index}, fun _ => 0, fun _ => True⟩

/-- A slot goes with what the rights count for there, and with the destroys that gave it up. -/
structure Stands (slot : LinkInstance) (tally : Nat × Nat × Nat) (expired : Nat) : Prop where
  refs : slot.refs = tally.1
  closing : slot.closing = true ↔ 0 < tally.2.1 + expired
  once : tally.2.1 + expired ≤ 1
  drained : 0 < tally.2.2 → slot.refs = 0
  apart : slot.closing = true → slot.active = false
  idle : slot.active = false → slot.closing = false → slot.refs = 0
  named : slot.active = true → linkNameValid slot.name = true

structure Held (s : Links) (held : Rights) : Prop where
  stands : ∀ i, Stands (s.slots i) (held.tally i) (s.expired.count i)
  generation : ∀ right ∈ held, ∀ r, right.holds = some r → (s.slots r.index).generation = r.generation
  distinct : ∀ i j, (s.slots i).active = true → (s.slots j).active = true → (s.slots i).name = (s.slots j).name → i = j

variable {s : Links} {rest held held' : Rights} {i : Fin instanceMax} {slot : LinkInstance} {right right' : Right}
  {r : LinkRef}

theorem act_refs_zero {e : Bool} (count : (s.slots i).refs = 0) : act (.refs i) s e = (s, 0) := by
  simp only [act, count, if_true]

theorem act_refs_succ {e : Bool} {n : Nat} (count : (s.slots i).refs = n + 1) :
    act (.refs i) s e = ({ s with expired := s.expired ++ [i] }, n + 1) := by
  simp only [act, count, Nat.add_one_ne_zero, if_false]

theorem mem_of_last : right ∈ rest + {right} := mem_add.mpr (.inr (mem_singleton_self _))

theorem mem_of_rest (there : right ∈ rest) : right ∈ rest + {right'} := mem_add.mpr (.inl there)

theorem Held.valid (h : Held s (rest + {right})) (holds : right.holds = some r) : s.refValid r = true := by
  have same := h.generation right mem_of_last r holds
  have some : 0 < (s.slots r.index).refs := by
    rw [(h.stands r.index).refs]
    exact tally_of_ref mem_of_last holds
  unfold Links.refValid
  rw [Bool.and_eq_true]
  exact ⟨decide_eq_true same, decide_eq_true some⟩

theorem Held.mine (h : Held s (rest + {right})) (holds : right.holds = some r) :
    (s.slots r.index).generation = r.generation := h.generation right mem_of_last r holds

theorem Held.set (h : Held s held) (stands : Stands slot (held'.tally i) (s.expired.count i))
    (elsewhere : ∀ j, j ≠ i → held'.tally j = held.tally j) (generation : ∀ right ∈ held', ∀ r, right.holds = some r →
      if r.index = i then slot.generation = r.generation else right ∈ held)
    (distinct : slot.active = true → ∀ j, j ≠ i → (s.slots j).active = true → (s.slots j).name ≠ slot.name) :
    Held (s.set i slot) held' := by
  have here : (s.set i slot).slots i = slot := Function.update_self ..
  have there : ∀ j, j ≠ i → (s.set i slot).slots j = s.slots j := fun j other => Function.update_of_ne other ..
  refine ⟨?_, ?_, ?_⟩
  · intro j
    by_cases same : j = i
    · rw [same, here]
      exact stands
    · rw [there j same, elsewhere j same]
      exact h.stands j
  · intro right member r is
    have matched := generation right member r is
    by_cases same : r.index = i
    · rw [if_pos same] at matched
      rw [same, here]
      exact matched
    · rw [if_neg same] at matched
      rw [there _ same]
      exact h.generation right matched r is
  · intro j k activeJ activeK sameName
    by_cases isJ : j = i
    · by_cases isK : k = i
      · rw [isJ, isK]
      · rw [isJ, here] at activeJ sameName
        rw [there k isK] at activeK sameName
        exact absurd sameName.symm (distinct activeJ k isK activeK)
    · rw [there j isJ] at activeJ sameName
      by_cases isK : k = i
      · rw [isK, here] at activeK sameName
        exact absurd sameName (distinct activeK j isJ activeJ)
      · rw [there k isK] at activeK sameName
        exact h.distinct j k activeJ activeK sameName

theorem Held.exchange (h : Held s (rest + {right})) (holds : right.holds = some r) (holds' : right'.holds = some r) :
    Held s (rest + {right'}) := by
  refine ⟨?_, ?_, h.distinct⟩
  · intro i
    have stands := h.stands i
    rw [tally_add, tally_singleton, Right.tally_of_holds holds] at stands
    rw [tally_add, tally_singleton, Right.tally_of_holds holds']
    exact stands
  · intro other there r' is
    rcases mem_add.mp there with old | new
    · exact h.generation other (mem_of_rest old) r' is
    · obtain rfl := mem_singleton.mp new
      obtain rfl := Option.some.inj (holds'.symm.trans is)
      exact h.mine holds

structure SameSlot (slot slot' : LinkInstance) : Prop where
  active : slot'.active = slot.active
  closing : slot'.closing = slot.closing
  generation : slot'.generation = slot.generation
  refs : slot'.refs = slot.refs
  name : slot'.name = slot.name

theorem Held.carry (h : Held s held) (same : SameSlot (s.slots i) slot) : Held (s.set i slot) held := by
  refine h.set ?_ (fun _ _ => rfl) ?_ ?_
  · have stands := h.stands i
    refine ⟨?_, ?_, stands.once, ?_, ?_, ?_, ?_⟩
    · rw [same.refs]
      exact stands.refs
    · rw [same.closing]
      exact stands.closing
    · rw [same.refs]
      exact stands.drained
    · rw [same.closing, same.active]
      exact stands.apart
    · rw [same.closing, same.active, same.refs]
      exact stands.idle
    · rw [same.active, same.name]
      exact stands.named
  · intro right there r is
    split
    · rename_i here
      subst here
      rw [same.generation]
      exact h.generation right there r is
    · exact there
  · intro active j other activeJ sameName
    rw [same.active] at active
    rw [same.name] at sameName
    exact other (h.distinct j i activeJ active sameName)

theorem linkFind_some {name : CString} (found : s.linkFind name = some i) :
    (s.slots i).active = true ∧ (s.slots i).closing = false ∧ (s.slots i).name = name := by
  have is := List.find?_some found
  simp only [Bool.and_eq_true, Bool.not_eq_true', decide_eq_true_eq] at is
  exact ⟨is.1.1, is.1.2, is.2⟩

theorem linkFind_none {name : CString} (none : s.linkFind name = none) (i : Fin instanceMax)
    (active : (s.slots i).active = true) (open_ : (s.slots i).closing = false) : (s.slots i).name ≠ name := by
  intro same
  have not := List.find?_eq_none.mp none i (List.mem_finRange i)
  exact not (by rw [active, open_, same]; simp)

theorem firstFree_some (found : s.firstFree = some i) : (s.slots i).active = false ∧ (s.slots i).closing = false := by
  have is := List.find?_some found
  simpa only [Bool.and_eq_true, Bool.not_eq_true'] using is

theorem Held.open (h : Held s held) (active : (s.slots i).active = true) : (s.slots i).closing = false := by
  cases closing : (s.slots i).closing with
  | false => rfl
  | true => exact nomatch ((h.stands i).apart closing).symm.trans active

theorem Held.nobody (h : Held s held) (free : (s.slots i).refs = 0) (there : right ∈ held)
    (holds : right.holds = some r) : r.index ≠ i := by
  rintro rfl
  have some := tally_of_ref there holds
  rw [← (h.stands r.index).refs, free] at some
  exact Nat.lt_irrefl 0 some

theorem Held.create {name : CString} (h : Held s held) (free : s.firstFree = some i) (new : s.linkFind name = none)
    (closing : slot.closing = false) (refs : slot.refs = 0) (is : slot.name = name)
    (valid : linkNameValid name = true) : Held (s.set i slot) held := by
  obtain ⟨inactive, open_⟩ := firstFree_some free
  have stands := h.stands i
  have none := stands.idle inactive open_
  refine h.set ⟨?_, ?_, stands.once, fun _ => refs, ?_, fun _ _ => refs, fun _ => is ▸ valid⟩ (fun _ _ => rfl) ?_ ?_
  · rw [refs, ← stands.refs, none]
  · rw [closing, ← stands.closing, open_]
  · rw [closing]
    exact nofun
  · intro right there r holds
    rw [if_neg (h.nobody none there holds)]
    exact there
  · intro _ j _ active
    rw [is]
    exact linkFind_none new j active (h.open active)

theorem Held.acquire (h : Held s held) (active : (s.slots i).active = true) :
    Held (s.set i { s.slots i with refs := (s.slots i).refs + 1 }) (held + {.ref ⟨i, (s.slots i).generation⟩}) := by
  have stands := h.stands i
  have open_ := h.open active
  refine h.set ⟨?_, ?_, ?_, ?_, stands.apart, ?_, stands.named⟩ ?_ ?_ ?_
  · simp only [tally_add, tally_singleton, Right.tally, if_true]
    show (s.slots i).refs + 1 = (held.tally i).1 + 1
    rw [stands.refs]
  · simp only [tally_add, tally_singleton, Right.tally, if_true]
    exact stands.closing
  · simp only [tally_add, tally_singleton, Right.tally, if_true]
    exact stands.once
  · simp only [tally_add, tally_singleton, Right.tally, if_true]
    intro drains
    have none : ¬0 < (held.tally i).2.1 + s.expired.count i := fun some =>
      nomatch (stands.closing.mpr some).symm.trans open_
    have le := drains_le held i
    have drains : 0 < (held.tally i).2.2 := drains
    omega
  · exact fun inactive => nomatch inactive.symm.trans active
  · intro j other
    simp only [tally_add, tally_singleton, Right.tally, if_neg (Ne.symm other), add_zero]
  · intro right there r holds
    rcases mem_add.mp there with old | new
    · split
      · rename_i here
        subst here
        exact h.generation right old r holds
      · exact old
    · obtain rfl := mem_singleton.mp new
      cases holds
      rw [if_pos rfl]
  · intro _ j other activeJ sameName
    exact other (h.distinct j i activeJ active sameName)

theorem Held.release (h : Held s (rest + {.ref r})) :
    Held (s.set r.index { s.slots r.index with refs := (s.slots r.index).refs - 1 }) rest := by
  have stands := h.stands r.index
  simp only [tally_add, tally_singleton, Right.tally, if_true] at stands
  have refs : (s.slots r.index).refs = (rest.tally r.index).1 + 1 := stands.refs
  refine h.set ⟨?_, stands.closing, stands.once, ?_, stands.apart, ?_, stands.named⟩ ?_ ?_ ?_
  · rw [refs]
    rfl
  · intro drained
    rw [stands.drained drained]
  · intro inactive open_
    rw [stands.idle inactive open_]
  · intro j other
    rw [tally_add, tally_singleton, Right.tally, if_neg (Ne.symm other), add_zero]
  · intro right there r' holds
    split
    · rename_i here
      rw [← here]
      exact h.generation right (mem_of_rest there) r' holds
    · exact mem_of_rest there
  · intro active j other activeJ sameName
    exact other (h.distinct j r.index activeJ active sameName)

theorem Held.close (h : Held s held) (active : (s.slots i).active = true) :
    Held (s.set i { s.slots i with active := false, closing := true }) (held + {.closing i}) := by
  have stands := h.stands i
  have open_ := h.open active
  have none : ¬0 < (held.tally i).2.1 + s.expired.count i := fun some =>
    nomatch (stands.closing.mpr some).symm.trans open_
  have le := drains_le held i
  refine h.set ?_ ?_ ?_ nofun
  · simp only [tally_add, tally_singleton, Right.tally, if_true]
    refine ⟨stands.refs, iff_of_true rfl ?_, ?_, ?_, fun _ => rfl, nofun, nofun⟩
    · show 0 < (held.tally i).2.1 + 1 + s.expired.count i
      omega
    · show (held.tally i).2.1 + 1 + s.expired.count i ≤ 1
      omega
    · intro drains
      have drains : 0 < (held.tally i).2.2 := drains
      omega
  · intro j other
    rw [tally_add, tally_singleton, Right.tally, if_neg (Ne.symm other), add_zero]
  · intro right there r holds
    rcases mem_add.mp there with old | new
    · split
      · rename_i here
        subst here
        exact h.generation right old r holds
      · exact old
    · rw [mem_singleton.mp new] at holds
      cases holds

theorem Held.drain (h : Held s (rest + {.closing i})) (none : (s.slots i).refs = 0) : Held s (rest + {.drained i}) := by
  refine ⟨?_, ?_, h.distinct⟩
  · intro j
    have stands := h.stands j
    simp only [tally_add, tally_singleton, Right.tally] at stands ⊢
    by_cases here : i = j
    · subst here
      rw [if_pos rfl] at stands ⊢
      exact ⟨stands.refs, stands.closing, stands.once, fun _ => none, stands.apart, stands.idle, stands.named⟩
    · rw [if_neg here] at stands ⊢
      exact stands
  · intro right there r holds
    rcases mem_add.mp there with old | new
    · exact h.generation right (mem_of_rest old) r holds
    · rw [mem_singleton.mp new] at holds
      cases holds

theorem Held.expire (h : Held s (rest + {.closing i})) : Held { s with expired := s.expired ++ [i] } rest := by
  refine ⟨?_, fun right there r holds => h.generation right (mem_of_rest there) r holds, h.distinct⟩
  intro j
  have stands := h.stands j
  rw [tally_add, tally_singleton, Right.tally] at stands
  rw [List.count_append]
  by_cases here : i = j
  · subst here
    rw [if_pos rfl] at stands
    rw [List.count_singleton_self]
    have same : (rest.tally i + (0, 1, 0)).2.1 + s.expired.count i = (rest.tally i).2.1 + (s.expired.count i + 1) := by
      show (rest.tally i).2.1 + 1 + s.expired.count i = _
      omega
    refine ⟨stands.refs, ?_, ?_, stands.drained, stands.apart, stands.idle, stands.named⟩
    · rw [← same]
      exact stands.closing
    · rw [← same]
      exact stands.once
  · rw [if_neg here, add_zero] at stands
    rw [List.count_singleton, if_neg (by simpa using here), Nat.add_zero]
    exact stands

theorem Held.clear (h : Held s (rest + {.drained i})) : Held (s.set i .zero) rest := by
  have stands := h.stands i
  rw [tally_add, tally_singleton, Right.tally, if_pos rfl] at stands
  have free : (s.slots i).refs = 0 := stands.drained (Nat.succ_pos _)
  have once : (rest.tally i).2.1 + 1 + s.expired.count i ≤ 1 := stands.once
  refine h.set ⟨?_, ?_, ?_, fun _ => rfl, nofun, fun _ _ => rfl, nofun⟩ ?_ ?_ nofun
  · show 0 = (rest.tally i).1
    rw [← free]
    exact stands.refs
  · refine iff_of_false Bool.false_ne_true ?_
    omega
  · omega
  · intro j other
    rw [tally_add, tally_singleton, Right.tally, if_neg (Ne.symm other), add_zero]
  · intro right there r holds
    rw [if_neg (h.nobody free (mem_of_rest there) holds)]
    exact mem_of_rest there

section
variable (slot : LinkInstance)

theorem addPending_same (destination : UInt32) (sequence : UInt16) :
    SameSlot slot (slot.addPending destination sequence) := by
  unfold LinkInstance.addPending
  split <;> exact ⟨rfl, rfl, rfl, rfl, rfl⟩

variable (message : Message)

theorem examine_same : SameSlot slot (slot.examine message).1 := by
  unfold LinkInstance.examine
  split
  · exact ⟨rfl, rfl, rfl, rfl, rfl⟩
  split
  · unfold LinkInstance.ackPending
    split <;> exact ⟨rfl, rfl, rfl, rfl, rfl⟩
  · dsimp only
    split <;> exact ⟨rfl, rfl, rfl, rfl, rfl⟩

theorem recordSend_same (ret : EspErr) : SameSlot slot (slot.recordSend message ret) := by
  unfold LinkInstance.recordSend
  split
  · split
    · have same := addPending_same { slot with
          status := { slot.status with lastError := ret, txMessages := slot.status.txMessages + 1 } }
          message.destination message.sequence
      exact ⟨same.active, same.closing, same.generation, same.refs, same.name⟩
    · exact ⟨rfl, rfl, rfl, rfl, rfl⟩
  · exact ⟨rfl, rfl, rfl, rfl, rfl⟩

theorem recordIngest_same (ret ackRet : EspErr) (duplicate sendAck evicted : Bool) :
    SameSlot slot (slot.recordIngest message ret ackRet duplicate sendAck evicted) := by
  unfold LinkInstance.recordIngest
  split
  · split <;> exact ⟨rfl, rfl, rfl, rfl, rfl⟩
  · exact ⟨rfl, rfl, rfl, rfl, rfl⟩

end

theorem examine_received {duplicate sendAck : Bool} {message : Message}
    (is : (slot.examine message).2 = .received duplicate sendAck) :
    (duplicate = true → message.type ≠ .stream ∧ slot.isDuplicate message = true) ∧
      (duplicate = false → message.type = .stream ∨ slot.isDuplicate message = false) ∧
      (sendAck = true → message.asks = true) ∧ message.type ≠ .acknowledgement := by
  unfold LinkInstance.examine at is
  split at is
  · cases is
  split at is
  · cases is
  · rename_i other
    simp only [Verdict.received.injEq] at is
    obtain ⟨rfl, rfl⟩ := is
    refine ⟨fun both => ?_, fun neither => ?_, fun both => ?_, other⟩
    · exact of_decide_eq_true both
    · have neither := of_decide_eq_false neither
      by_cases stream : message.type = .stream
      · exact .inl stream
      · exact .inr (Bool.eq_false_iff.mpr fun duplicate => neither ⟨stream, duplicate⟩)
    · exact (of_decide_eq_true both).2

theorem Held.go_on (h : Held s (rest + {right})) (holds : right.holds = some r) (holds' : right'.holds = some r)
    (same : SameSlot (s.slots r.index) slot) : Held (s.set r.index slot) (rest + {right'}) :=
  (h.exchange holds holds').carry same

theorem operations_hold : Pool.Honours Deals act enabled (fun _ _ _ => True) Held := by
  intro β op s e deal rest hdeal h _ _
  cases hdeal with
  | create name localId frameMtu valid =>
    refine ⟨trivial, ?_⟩
    rw [add_zero] at h ⊢
    simp only [act]
    split
    · exact h
    split
    · exact h
    rename_i new
    split
    · exact h
    · rename_i i free
      have short : name.strlen < nameMax := by
        unfold linkNameValid CString.strnlen at valid
        have := (of_decide_eq_true valid).2
        unfold CString.strlen
        omega
      have created := @Held.create s rest i { LinkInstance.zero with
        active := true
        generation := s.linkGeneration
        name := name.strlcpy nameMax
        localId
        frameMtu
        nextSequence := 1 } name h free (by simpa using new) rfl rfl (CString.strlcpy_of_lt short) valid
      exact ⟨created.stands, created.generation, created.distinct⟩
  | acquire name =>
    refine ⟨trivial, ?_⟩
    rw [add_zero] at h
    simp only [act]
    split
    · exact (add_zero rest).symm ▸ h
    · rename_i i found
      exact h.acquire (linkFind_some found).1
  | release r =>
    refine ⟨trivial, ?_⟩
    simp only [act, if_pos (h.valid rfl)]
    rw [add_zero]
    exact h.release
  | number r type destination | recordInvalid r ret =>
    refine ⟨trivial, ?_⟩
    simp only [act, if_pos (h.valid rfl)]
    exact h.carry ⟨rfl, rfl, rfl, rfl, rfl⟩
  | frameMtu r => exact ⟨trivial, h⟩
  | sendTx r message frame =>
    refine ⟨trivial, ?_⟩
    simp only [act]
    split
    · exact h.go_on (r := r) rfl (queuedRight_holds _ _ _) ⟨rfl, rfl, rfl, rfl, rfl⟩
    · exact h
  | recordSent r message asks =>
    refine ⟨trivial, ?_⟩
    simp only [act, if_pos (h.valid rfl)]
    exact h.go_on (show Right.holds (.sending r message.key) = some r from rfl) rfl (recordSend_same _ _ _)
  | recordOther r message ret other =>
    refine ⟨trivial, ?_⟩
    simp only [act, if_pos (h.valid rfl)]
    exact h.carry (recordSend_same _ _ _)
  | receiveTx r | receiveRx r =>
    refine ⟨trivial, ?_⟩
    simp only [act]
    split
    · split
      · exact h
      · exact h.carry ⟨rfl, rfl, rfl, rfl, rfl⟩
    · exact h
  | examine r message =>
    simp only [act, if_pos (h.valid rfl)]
    refine ⟨fun duplicate sendAck is => ?_, ?_⟩
    · have told := examine_received is
      exact ⟨fun both => (told.1 both).1, told.2.2.1⟩
    · exact h.go_on (r := r) rfl (examined_holds _ _ _) (examine_same _ _)
  | sendRx r message =>
    refine ⟨trivial, ?_⟩
    simp only [act]
    split
    · exact h.go_on (r := r) rfl rfl ⟨rfl, rfl, rfl, rfl, rfl⟩
    · exact h
  | localId r right holds => exact ⟨trivial, h⟩
  | sendAck r message frame =>
    refine ⟨trivial, ?_⟩
    simp only [act]
    split
    · exact h.carry ⟨rfl, rfl, rfl, rfl, rfl⟩
    · exact h
  | recordKnown r message ret ackRet duplicate sendAck evicted =>
    refine ⟨trivial, ?_⟩
    simp only [act, if_pos (h.valid rfl)]
    exact h.go_on (show Right.holds (.knowing r message) = some r from rfl) rfl (recordIngest_same _ _ _ _ _ _ _)
  | recordUnknown r message ret ackRet duplicate sendAck evicted other =>
    refine ⟨trivial, ?_⟩
    simp only [act, if_pos (h.valid rfl)]
    exact h.carry (recordIngest_same _ _ _ _ _ _ _)
  | close name =>
    refine ⟨trivial, ?_⟩
    rw [add_zero] at h
    simp only [act]
    split
    · exact (add_zero rest).symm ▸ h
    · rename_i i found
      exact h.close (linkFind_some found).1
  | refs index =>
    refine ⟨trivial, ?_⟩
    cases count : (s.slots index).refs with
    | zero =>
      simp only [act_refs_zero count]
      exact h.drain count
    | succ n =>
      simp only [act_refs_succ count]
      exact (add_zero rest).symm ▸ h.expire
  | clear index =>
    refine ⟨trivial, ?_⟩
    simp only [act]
    rw [add_zero]
    exact h.clear

end SolarOs.Link
