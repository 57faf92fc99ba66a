import SolarOs.Link.Frame
import SolarOs.Link.References

/-! No slot is lost: once all calls have ended, each one is free or its instance is found by its
name, unless a destroy has given up. -/
namespace SolarOs.Link
open Program Machine

variable {r : LinkRef}

def Clean {α : Type} (p : Program Op α) : Prop := Entitled Deals (fun (_ : α) (held : Rights) => held = 0) p 0

def acquired : Except EspErr LinkRef → Rights
  | .ok r => {.ref r}
  | .error _ => 0

section
variable (name : CString)

theorem linkAcquire_entitled : Entitled Deals (fun reply held => held = acquired reply) (linkAcquire name) 0 := by
  unfold linkAcquire
  split
  · refine Entitled.alone (Deals.acquire name) fun found _ => ?_
    cases found with
    | none => exact rfl
    | some r => exact rfl
  · exact rfl

theorem acquire_bind {name : CString} {f : Except EspErr LinkRef → Program Op Reply}
    (refused : ∀ err, Clean (f (.error err)))
    (go : ∀ r, Entitled Deals (fun (_ : Reply) (held : Rights) => held = 0) (f (.ok r)) {.ref r}) :
    Clean (linkAcquire name >>= f) := by
  refine (linkAcquire_entitled name).bind fun reply held same => ?_
  subst same
  cases reply with
  | error err => exact refused err
  | ok r => exact go r

theorem release_entitled (reply : Reply) :
    Entitled Deals (fun (_ : Reply) (held : Rights) => held = 0)
      (do
        invoke (.release r)
        return reply) {.ref r} := by
  refine Entitled.alone (Deals.release r) fun _ _ => ?_
  exact rfl

theorem create_clean (localId : UInt32) (frameMtu : Nat) : Clean (create name localId frameMtu) := by
  unfold create
  split
  · exact rfl
  · rename_i passed
    have valid : linkNameValid name = true := by
      cases valid : linkNameValid name with
      | true => rfl
      | false => exact absurd (.inl valid) passed
    refine Entitled.freely (Deals.create name localId frameMtu valid) fun _ _ => ?_
    exact rfl

theorem destroy_clean : Clean (destroy name) := by
  unfold destroy
  split
  · refine Entitled.alone (Deals.close name) fun found _ => ?_
    cases found with
    | none => exact rfl
    | some index =>
      refine Entitled.alone (Deals.refs index) fun refs _ => ?_
      cases refs with
      | zero =>
        refine Entitled.alone (Deals.clear index) fun _ _ => ?_
        exact rfl
      | succ n => exact rfl
  · exact rfl

variable (message : Message)

theorem queueFrame_entitled :
    Entitled Deals (fun ret held => held = if ret = .ok ∧ message.asks = true then {.sending r message.key} else {.ref r})
      (queueFrame r message) {.ref r} := by
  have plain : ∀ err : EspErr, err ≠ .ok →
      ({.ref r} : Rights) = if err = .ok ∧ message.asks = true then {.sending r message.key} else {.ref r} :=
    fun err failed => (if_neg fun both => failed both.1).symm
  unfold queueFrame
  split
  · rename_i err refused
    refine plain err ?_
    rintro rfl
    unfold encode at refused
    split at refused <;> cases refused
  · refine Entitled.alone (Deals.frameMtu r) fun frameMtu _ => ?_
    show Entitled _ _ (if _ then _ else _) _
    split
    · exact plain .invalidSize (by decide)
    · refine Entitled.alone (Deals.sendTx r message _) fun queued _ => ?_
      cases queued with
      | false => exact plain .noMem (by decide)
      | true =>
        unfold queuedRight
        cases message.asks <;> rfl

theorem send_clean (type : MessageType) (destination : UInt32) (payload : List UInt8) :
    Clean (send name type destination payload) := by
  unfold send
  split
  · exact rfl
  refine acquire_bind (fun err => rfl) fun r => ?_
  refine Entitled.alone (Deals.number r type destination) fun header _ => ?_
  cases header with
  | none => exact release_entitled _
  | some header =>
    refine (queueFrame_entitled { header with payload }).bind fun ret held same => ?_
    subst same
    by_cases queued : ret = .ok ∧ ({ header with payload } : Message).asks = true
    · rw [if_pos queued]
      obtain ⟨rfl, asks⟩ := queued
      refine Entitled.alone (Deals.recordSent r { header with payload } asks) fun _ _ => ?_
      exact release_entitled _
    · rw [if_neg queued]
      have other : ret ≠ .ok ∨ ({ header with payload } : Message).asks = false := by
        by_cases ok : ret = .ok
        · exact .inr (Bool.eq_false_iff.mpr fun asks => queued ⟨ok, asks⟩)
        · exact .inl ok
      refine Entitled.alone (Deals.recordOther r { header with payload } ret other) fun _ _ => ?_
      exact release_entitled _

theorem takeTx_clean : Clean (takeTx name) := by
  refine acquire_bind (fun err => rfl) fun r => ?_
  refine Entitled.alone (Deals.receiveTx r) fun frame _ => ?_
  exact release_entitled _

theorem receive_clean : Clean (receive name) := by
  refine acquire_bind (fun err => rfl) fun r => ?_
  refine Entitled.alone (Deals.receiveRx r) fun message _ => ?_
  exact release_entitled _

theorem linkQueueReceived_entitled :
    Entitled Deals (fun reply held => held = if reply.1 = .ok then {.knowing r message} else {.ref r})
      (linkQueueReceived r message) {.ref r} := by
  refine Entitled.alone (Deals.sendRx r message) fun queued _ => ?_
  cases queued with
  | true => exact rfl
  | false =>
    refine Entitled.alone (Deals.receiveRx r) fun oldest _ => ?_
    refine Entitled.alone (Deals.sendRx r message) fun queued _ => ?_
    cases queued with
    | true => exact rfl
    | false => exact rfl

theorem linkQueueAck_entitled : Entitled Deals (fun (_ : EspErr) held => held = {.knowing r message})
      (linkQueueAck r message) {.knowing r message} := by
  refine Entitled.alone (Deals.localId r (.knowing r message) rfl) fun localId _ => ?_
  dsimp only [Program.bind]
  cases encode (message.ack localId) with
  | error err => exact rfl
  | ok frame =>
    refine Entitled.alone (Deals.sendAck r message _) fun queued _ => ?_
    exact rfl

/-- The end of an ingest for a message that may be acknowledged only when it is known. -/
theorem takeIn_clean {message : Message} {duplicate sendAck : Bool} (valid : ¬typeRulesBroken message)
    (told : (duplicate = true → message.type ≠ .stream) ∧ (sendAck = true → message.asks = true)) :
    Entitled Deals (fun (_ : Reply) (held : Rights) => held = 0) (takeIn r message duplicate sendAck)
      {examined r message (.received duplicate sendAck)} := by
  -- a stream message asks for no acknowledgement
  have streams : message.type = .stream → sendAck = false := by
    intro stream
    refine Bool.eq_false_iff.mpr fun asked => valid (.inr ⟨stream, ?_⟩)
    exact of_decide_eq_true (told.2 asked)
  have known : ∀ ret evicted, Entitled Deals (fun (_ : Reply) (held : Rights) => held = 0)
      (do
        let ackRet ← if ret = .ok ∧ sendAck = true then linkQueueAck r message else pure .ok
        invoke (.recordIngest r message ret ackRet duplicate sendAck evicted)
        invoke (.release r)
        return .ingested ret ⟨ret = .ok && !duplicate, duplicate, false, some message⟩) {.knowing r message} := by
    intro ret evicted
    have ending : ∀ ackRet, Entitled Deals (fun (_ : Reply) (held : Rights) => held = 0)
        (do
          invoke (.recordIngest r message ret ackRet duplicate sendAck evicted)
          invoke (.release r)
          return .ingested ret ⟨ret = .ok && !duplicate, duplicate, false, some message⟩) {.knowing r message} := by
      intro ackRet
      refine Entitled.alone (Deals.recordKnown r message ret ackRet duplicate sendAck evicted) fun _ _ => ?_
      exact release_entitled _
    split
    · refine (linkQueueAck_entitled message).bind fun ackRet held same => ?_
      subst same
      exact ending ackRet
    · exact ending .ok
  have unknown : ∀ ret evicted, ret ≠ .ok ∨ message.type = .stream →
      Entitled Deals (fun (_ : Reply) (held : Rights) => held = 0)
      (do
        let ackRet ← if ret = .ok ∧ sendAck = true then linkQueueAck r message else pure .ok
        invoke (.recordIngest r message ret ackRet duplicate sendAck evicted)
        invoke (.release r)
        return .ingested ret ⟨ret = .ok && !duplicate, duplicate, false, some message⟩) {.ref r} := by
    intro ret evicted other
    have silent : ¬(ret = .ok ∧ sendAck = true) := by
      rintro ⟨ok, asked⟩
      rcases other with failed | stream
      · exact failed ok
      · exact nomatch (streams stream).symm.trans asked
    rw [if_neg silent]
    refine Entitled.alone (Deals.recordUnknown r message ret .ok duplicate sendAck evicted other) fun _ _ => ?_
    exact release_entitled _
  unfold takeIn
  cases duplicate with
  | true =>
    rw [if_neg fun both => nomatch both.1]
    exact known .ok false
  | false =>
    by_cases stream : message.type = .stream
    · rw [if_neg fun both => both.2 stream]
      exact unknown .ok false (.inr stream)
    · rw [if_pos ⟨rfl, stream⟩]
      refine (linkQueueReceived_entitled message).bind fun reply held same => ?_
      subst same
      obtain ⟨ret, evicted⟩ := reply
      by_cases ok : ret = .ok
      · rw [if_pos ok]
        exact known ret evicted
      · rw [if_neg ok]
        exact unknown ret evicted (.inl ok)

theorem ingest_clean (frame : List UInt8) : Clean (ingest name frame) := by
  refine acquire_bind (fun err => rfl) fun r => ?_
  cases decoded : decode frame with
  | error err =>
    refine Entitled.alone (Deals.recordInvalid r _) fun _ _ => ?_
    exact release_entitled _
  | ok message =>
    refine Entitled.alone (Deals.examine r message) fun verdict told => ?_
    cases verdict with
    | invalid => exact release_entitled _
    | elsewhere => exact release_entitled _
    | acknowledged => exact release_entitled _
    | received duplicate sendAck =>
      exact takeIn_clean (decode_eq_ok decoded).2.2.2.2.2.2 (told duplicate sendAck rfl)

end

theorem body_clean (c : Call) : Clean (body c) := by
  cases c with
  | create name localId frameMtu => exact create_clean name localId frameMtu
  | destroy name => exact destroy_clean name
  | send name type destination payload => exact send_clean name type destination payload
  | takeTx name => exact takeTx_clean name
  | ingest name frame => exact ingest_clean name frame
  | receive name => exact receive_clean name

theorem started_held : Held started.state 0 := by
  refine ⟨fun i => ?_, fun _ there => absurd there (Multiset.notMem_zero _), nofun⟩
  exact ⟨rfl, iff_of_false Bool.false_ne_true (Nat.lt_irrefl 0), Nat.zero_le 1, fun _ => rfl, nofun, fun _ _ => rfl, nofun⟩

theorem run_held (turns : List LinkTurn) :
    Pool.Backed Deals (fun (_ : Reply) (held : Rights) => held = 0) Held (run turn started turns) := by
  have start : Pool.Backed Deals (fun (_ : Reply) (held : Rights) => held = 0) Held started := ⟨0, rfl, started_held⟩
  exact Pool.run_backed_always operations_hold body_clean start turns

def Links.Usable (s : Links) (i : Fin instanceMax) : Prop :=
  ((s.slots i).active = false ∧ (s.slots i).closing = false) ∨
    (linkNameValid (s.slots i).name = true ∧ s.linkFind (s.slots i).name = some i)

instance (s : Links) (i : Fin instanceMax) : Decidable (s.Usable i) := inferInstanceAs (Decidable (_ ∨ _))

theorem Held.found {s : Links} {held : Rights} {i : Fin instanceMax} (h : Held s held)
    (active : (s.slots i).active = true) : s.linkFind (s.slots i).name = some i := by
  cases found : s.linkFind (s.slots i).name with
  | none => exact absurd rfl (linkFind_none found i active (h.open active))
  | some j =>
    obtain ⟨activeJ, -, same⟩ := linkFind_some found
    rw [h.distinct j i activeJ active same]

theorem Held.usable_iff {s : Links} (h : Held s 0) : (∀ i, s.Usable i) ↔ s.expired = [] := by
  have closing : ∀ i, (s.slots i).closing = true ↔ i ∈ s.expired := by
    intro i
    rw [(h.stands i).closing, tally_zero]
    show 0 < 0 + s.expired.count i ↔ _
    rw [Nat.zero_add, List.count_pos_iff]
  constructor
  · intro usable
    refine List.eq_nil_iff_forall_not_mem.mpr fun i given => ?_
    have shut := (closing i).mpr given
    rcases usable i with ⟨-, open_⟩ | ⟨-, found⟩
    · exact nomatch open_.symm.trans shut
    · exact nomatch (linkFind_some found).2.1.symm.trans shut
  · intro none i
    cases active : (s.slots i).active with
    | false =>
      refine .inl ⟨active, Bool.eq_false_iff.mpr fun shut => ?_⟩
      exact absurd (none ▸ (closing i).mp shut) List.not_mem_nil
    | true => exact .inr ⟨(h.stands i).named active, h.found active⟩

def Patient {α : Type} : Op α → Links → Bool → Prop
  | .refs i, s, _ => (s.slots i).refs = 0
  | _, _, _ => True

theorem act_expired {α : Type} (op : Op α) (s : Links) (e : Bool) :
    (act op s e).1.expired = [] ↔ s.expired = [] ∧ Patient op s e := by
  have same : ∀ {s' : Links}, s'.expired = s.expired → (s'.expired = [] ↔ s.expired = [] ∧ True) := by
    intro s' same
    rw [same, and_true]
  cases op with
  | refs i =>
    unfold act Patient
    dsimp only
    split
    · rename_i none
      rw [and_iff_left none]
    · rename_i some
      exact iff_of_false (List.append_ne_nil_of_right_ne_nil _ (List.cons_ne_nil _ _)) fun both => some both.2
  | create name localId frameMtu =>
    refine same ?_
    unfold act
    dsimp only
    split
    · rfl
    split
    · rfl
    · split <;> rfl
  | acquire name | close name =>
    refine same ?_
    unfold act
    dsimp only
    split <;> rfl
  | receiveTx r | receiveRx r =>
    refine same ?_
    unfold act
    dsimp only
    split
    · split <;> rfl
    · rfl
  | frameMtu r => exact same rfl
  | localId r => exact same rfl
  | clear i => exact same rfl
  | _ =>
    refine same ?_
    unfold act
    dsimp only
    split <;> rfl

theorem run_expired (calls : Calls) (turns : List LinkTurn) : (run turn calls turns).state.expired = [] ↔
      calls.state.expired = [] ∧ Admits turn (Pool.Allowed enabled Patient) calls turns := by
  induction turns generalizing calls with
  | nil => rw [run_nil, Admits, and_true]
  | cons t turns ih =>
    rw [run_cons, ih, Admits, ← and_assoc]
    refine and_congr_left fun _ => ?_
    cases t with
    | start c => exact (and_true _).symm ▸ Iff.rfl
    | step i e =>
      unfold turn Pool.turn Pool.Allowed
      dsimp only
      cases there : calls.threads[i]? with
      | none => exact (and_iff_left trivial).symm
      | some p =>
        cases p with
        | done reply => exact (and_iff_left trivial).symm
        | call op next =>
          dsimp only
          rw [if_pos (show enabled op calls.state from trivial)]
          refine (act_expired op calls.state e).trans (and_congr_right fun _ => ?_)
          exact ⟨fun patient _ => patient, fun patient => patient trivial⟩

/-- Once all calls have ended, every slot is usable exactly when no destroy has given up. -/
theorem slots_usable (turns : List LinkTurn) (quiet : (Machine.run turn started turns).quiet = true) :
    (∀ i, (Machine.run turn started turns).state.Usable i) ↔
      Machine.Admits turn (Pool.Allowed enabled Patient) started turns := by
  obtain ⟨total, share, held⟩ := run_held turns
  obtain rfl := share.quiet quiet
  rw [held.usable_iff, run_expired]
  exact and_iff_right rfl

def sampleName : CString := .ofBytes [0x61]

def waitedTurns : List LinkTurn :=
  [.start (.create sampleName 1 32), .step 0 true, .start (.receive sampleName), .step 1 true,
    .start (.destroy sampleName), .step 2 true, .step 1 true, .step 1 true, .step 2 true, .step 2 true]

theorem slots_usable_waited : (∀ i, (Machine.run turn started waitedTurns).state.Usable i) ↔
      Machine.Admits turn (Pool.Allowed enabled Patient) started waitedTurns :=
  slots_usable waitedTurns (by decide)

def impatientTurns : List LinkTurn :=
  [.start (.create sampleName 1 32), .step 0 true, .start (.receive sampleName), .step 1 true,
    .start (.destroy sampleName), .step 2 true, .step 2 true, .step 1 true, .step 1 true]

/-- All calls have ended, and the slot is neither free nor found. -/
theorem impatient_slot_lost : (Machine.run turn started impatientTurns).quiet = true ∧
    ¬∀ i, (Machine.run turn started impatientTurns).state.Usable i := by
  refine ⟨by decide, fun usable => ?_⟩
  exact absurd (usable ⟨0, by decide⟩) (by decide)

/-- However the calls interleave, an active instance has a valid name and is the one found by it, and no
reference outlives the calls. -/
theorem instances_stand (turns : List LinkTurn) : (∀ i, ((run turn started turns).state.slots i).active = true →
      linkNameValid ((run turn started turns).state.slots i).name = true ∧
        (run turn started turns).state.linkFind ((run turn started turns).state.slots i).name = some i) ∧
      ((run turn started turns).quiet = true → ∀ i, ((run turn started turns).state.slots i).refs = 0) := by
  obtain ⟨total, share, held⟩ := run_held turns
  refine ⟨fun i active => ⟨(held.stands i).named active, held.found active⟩, fun quiet i => ?_⟩
  obtain rfl := share.quiet quiet
  exact (held.stands i).refs

end SolarOs.Link
