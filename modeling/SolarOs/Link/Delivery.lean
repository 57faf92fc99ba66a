import SolarOs.Link.SlotsKept

/-! Acknowledgements at the receiver: a message that is acknowledged was put into the receive queue,
as long as no message is taken for a different one with the same source, sequence and type. -/
namespace SolarOs.Link
open Program List Machine

structure SameMessage (message message' : Message) : Prop where
  source : message'.source = message.source
  sequence : message'.sequence = message.sequence
  type : message'.type = message.type
  payload : message'.payload = message.payload

def Known (slot : LinkInstance) (message : Message) : Prop := ∃ message' ∈ slot.delivered, SameMessage message message'

def Recognised {α : Type} : Op α → Links → Bool → Prop
  | .examine r message, s, _ => ∀ entry ∈ (s.slots r.index).duplicates, entry.matches message = true →
    entry.payload = message.payload
  | _, _, _ => True

/-- What is remembered was delivered, and what was answered too. -/
structure Truthful (slot : LinkInstance) : Prop where
  remembered : ∀ entry ∈ slot.duplicates, entry.active = true → ∃ message ∈ slot.delivered,
    message.source = entry.source ∧ message.sequence = entry.sequence ∧ message.type = entry.type ∧
      message.payload = entry.payload
  answered : ∀ message ∈ slot.answered, Known slot message

variable {s : Links} {rest held held' : Rights} {i : Fin instanceMax} {slot slot' : LinkInstance}
  {right right' : Right} {r : LinkRef} {message : Message}

structure Grown (slot slot' : LinkInstance) : Prop where
  duplicates : slot'.duplicates = slot.duplicates
  answered : slot'.answered = slot.answered
  delivered : ∀ message ∈ slot.delivered, message ∈ slot'.delivered

theorem Known.mono (h : Known slot message) (grown : ∀ message ∈ slot.delivered, message ∈ slot'.delivered) :
    Known slot' message := by
  obtain ⟨message', there, same⟩ := h
  exact ⟨message', grown message' there, same⟩

theorem Truthful.mono (h : Truthful slot) (grown : Grown slot slot') : Truthful slot' := by
  constructor
  · intro entry there active
    rw [grown.duplicates] at there
    obtain ⟨message, delivered, same⟩ := h.remembered entry there active
    exact ⟨message, grown.delivered message delivered, same⟩
  · intro message there
    rw [grown.answered] at there
    exact (h.answered message there).mono grown.delivered

/-- Every slot is truthful, and the calls know what was delivered. -/
structure Honest (s : Links) (held : Rights) : Prop where
  truthful : ∀ i, Truthful (s.slots i)
  known : ∀ r message, .knowing r message ∈ held → Known (s.slots r.index) message

theorem Honest.set (h : Honest s held) (truthful : Truthful slot) (known : ∀ r message, .knowing r message ∈ held' →
      if r.index = i then Known slot message else .knowing r message ∈ held) : Honest (s.set i slot) held' := by
  have here : (s.set i slot).slots i = slot := Function.update_self ..
  have there : ∀ j, j ≠ i → (s.set i slot).slots j = s.slots j := fun j other => Function.update_of_ne other ..
  constructor
  · intro j
    by_cases same : j = i
    · rw [same, here]
      exact truthful
    · rw [there j same]
      exact h.truthful j
  · intro r message member
    have told := known r message member
    by_cases same : r.index = i
    · rw [if_pos same] at told
      rw [same, here]
      exact told
    · rw [if_neg same] at told
      rw [there _ same]
      exact h.known r message told

theorem Honest.carry (h : Honest s held) (grown : Grown (s.slots i) slot)
    (fewer : ∀ r message, .knowing r message ∈ held' → .knowing r message ∈ held) : Honest (s.set i slot) held' := by
  refine h.set ((h.truthful i).mono grown) fun r message there => ?_
  split
  · rename_i same
    subst same
    exact (h.known r message (fewer r message there)).mono grown.delivered
  · exact fewer r message there

theorem fewer_of_plain (plain : ∀ r message, right' ≠ .knowing r message) (r : LinkRef) (message : Message)
    (there : .knowing r message ∈ rest + {right'}) : .knowing r message ∈ rest + {right} := by
  rcases Multiset.mem_add.mp there with old | new
  · exact mem_of_rest old
  · exact absurd (Multiset.mem_singleton.mp new).symm (plain r message)

theorem grown_of_notes (duplicates : slot'.duplicates = slot.duplicates) (answered : slot'.answered = slot.answered)
    (delivered : slot'.delivered = slot.delivered) : Grown slot slot' :=
  ⟨duplicates, answered, fun _ there => delivered ▸ there⟩

theorem truthful_zero (duplicates : slot.duplicates = LinkInstance.zero.duplicates) (answered : slot.answered = []) :
    Truthful slot := by
  constructor
  · intro entry there active
    rw [duplicates] at there
    rw [eq_of_mem_replicate there] at active
    cases active
  · intro message there
    rw [answered] at there
    exact absurd there not_mem_nil

theorem examine_grown (slot : LinkInstance) (message : Message) : Grown slot (slot.examine message).1 := by
  unfold LinkInstance.examine
  split
  · exact grown_of_notes rfl rfl rfl
  split
  · unfold LinkInstance.ackPending
    split <;> exact grown_of_notes rfl rfl rfl
  · dsimp only
    split <;> exact grown_of_notes rfl rfl rfl

theorem recordSend_grown (slot : LinkInstance) (message : Message) (ret : EspErr) :
    Grown slot (slot.recordSend message ret) := by
  unfold LinkInstance.recordSend LinkInstance.addPending
  dsimp only
  split
  · split
    · split <;> exact grown_of_notes rfl rfl rfl
    · exact grown_of_notes rfl rfl rfl
  · exact grown_of_notes rfl rfl rfl

theorem recordIngest_truthful (h : Truthful slot) (known : Known slot message) (ret ackRet : EspErr)
    (duplicate sendAck evicted : Bool) : Truthful (slot.recordIngest message ret ackRet duplicate sendAck evicted) := by
  have remembered : Truthful (slot.remember message) := by
    constructor
    · intro entry there active
      rcases mem_or_eq_of_mem_set there with old | rfl
      · exact h.remembered entry old active
      · obtain ⟨message', delivered, same⟩ := known
        exact ⟨message', delivered, same.source, same.sequence, same.type, same.payload⟩
    · exact h.answered
  unfold LinkInstance.recordIngest
  split
  · split
    · exact remembered.mono (grown_of_notes rfl rfl rfl)
    · exact h.mono (grown_of_notes rfl rfl rfl)
  · exact h.mono (grown_of_notes rfl rfl rfl)

theorem recordIngest_delivered (slot : LinkInstance) (message : Message) (ret ackRet : EspErr)
    (duplicate sendAck evicted : Bool) :
    (slot.recordIngest message ret ackRet duplicate sendAck evicted).delivered = slot.delivered := by
  unfold LinkInstance.recordIngest
  split
  · split <;> rfl
  · rfl

theorem recordIngest_grown {ret : EspErr} (other : ret ≠ .ok ∨ message.type = .stream) (slot : LinkInstance)
    (ackRet : EspErr) (duplicate sendAck evicted : Bool) :
    Grown slot (slot.recordIngest message ret ackRet duplicate sendAck evicted) := by
  unfold LinkInstance.recordIngest
  split
  · rename_i ok
    have stream := other.resolve_left fun failed => failed ok
    rw [if_neg fun both => both.2 stream]
    exact grown_of_notes rfl rfl rfl
  · exact grown_of_notes rfl rfl rfl

theorem known_of_duplicate (h : Truthful slot) (duplicate : slot.isDuplicate message = true)
    (recognised : ∀ entry ∈ slot.duplicates, entry.matches message = true → entry.payload = message.payload) :
    Known slot message := by
  obtain ⟨entry, there, matched⟩ := any_eq_true.mp duplicate
  have payload := recognised entry there matched
  unfold LinkDuplicate.matches at matched
  simp only [Bool.and_eq_true, decide_eq_true_eq] at matched
  obtain ⟨⟨⟨active, source⟩, sequence⟩, type⟩ := matched
  obtain ⟨message', delivered, same⟩ := h.remembered entry there active
  exact ⟨message', delivered, same.1.trans source, same.2.1.trans sequence, same.2.2.1.trans type,
    same.2.2.2.trans payload⟩

theorem operations_honest : Pool.Honours Deals act enabled Recognised fun s held => Held s held ∧ Honest s held := by
  intro β op s e deal rest hdeal inv can recognised
  obtain ⟨held, h⟩ := inv
  obtain ⟨brought, held'⟩ := operations_hold op s e deal rest hdeal held can trivial
  refine ⟨brought, held', ?_⟩
  have plain : ∀ {right right' : Right}, (∀ r message, right' ≠ .knowing r message) → ∀ r message,
      .knowing r message ∈ rest + {right'} → .knowing r message ∈ rest + {right} := fun not => fewer_of_plain not
  cases hdeal with
  | create name localId frameMtu valid =>
    rw [add_zero] at h held ⊢
    simp only [act]
    split
    · exact h
    split
    · exact h
    split
    · exact h
    · rename_i i free
      obtain ⟨inactive, open_⟩ := firstFree_some free
      have none := (held.stands i).idle inactive open_
      have created := @Honest.set s rest rest i { LinkInstance.zero with
        active := true
        generation := s.linkGeneration
        name := name.strlcpy nameMax
        localId
        frameMtu
        nextSequence := 1 } h (truthful_zero rfl rfl) fun r message there => by
          rw [if_neg (held.nobody none there rfl)]
          exact there
      exact ⟨created.truthful, created.known⟩
  | acquire name | close name =>
    rw [add_zero] at h
    simp only [act]
    split
    · exact (add_zero rest).symm ▸ h
    · refine h.carry (grown_of_notes rfl rfl rfl) fun r message there => ?_
      rcases Multiset.mem_add.mp there with old | new
      · exact old
      · cases Multiset.mem_singleton.mp new
  | release r =>
    simp only [act, if_pos (held.valid rfl)]
    rw [add_zero]
    exact h.carry (grown_of_notes rfl rfl rfl) fun _ _ there => mem_of_rest there
  | number r type destination | recordInvalid r ret =>
    simp only [act, if_pos (held.valid rfl)]
    exact h.carry (grown_of_notes rfl rfl rfl) fun _ _ there => there
  | frameMtu r => exact h
  | sendTx r message frame =>
    have quiet : ∀ queued r' message', queuedRight r message queued ≠ .knowing r' message' := by
      intro queued r' message'
      unfold queuedRight
      split <;> simp
    simp only [act]
    split
    · exact h.carry (grown_of_notes rfl rfl rfl) (plain (quiet true))
    · exact ⟨h.truthful, fun r message there => h.known r message (plain (quiet false) r message there)⟩
  | recordSent r message asks =>
    simp only [act, if_pos (held.valid rfl)]
    exact h.carry (recordSend_grown _ _ _) (plain (by simp))
  | recordOther r message ret other =>
    simp only [act, if_pos (held.valid rfl)]
    exact h.carry (recordSend_grown _ _ _) fun _ _ there => there
  | receiveTx r | receiveRx r =>
    simp only [act]
    split
    · split
      · exact h
      · exact h.carry (grown_of_notes rfl rfl rfl) fun _ _ there => there
    · exact h
  | examine r message =>
    simp only [act, if_pos (held.valid rfl)]
    have grown := examine_grown (s.slots r.index) message
    refine h.set ((h.truthful r.index).mono grown) fun r' message' there => ?_
    rcases Multiset.mem_add.mp there with old | new
    · split
      · rename_i same
        rw [← same] at grown ⊢
        exact (h.known r' message' (mem_of_rest old)).mono grown.delivered
      · exact mem_of_rest old
    · have new := Multiset.mem_singleton.mp new
      unfold examined at new
      split at new
      · rename_i sendAck told
        cases new
        rw [if_pos rfl]
        have duplicate := ((examine_received told).1 rfl).2
        exact (known_of_duplicate (h.truthful r.index) duplicate recognised).mono grown.delivered
      · cases new
  | sendRx r message =>
    simp only [act]
    split
    · have grown : ∀ message' ∈ (s.slots r.index).delivered, message' ∈ (s.slots r.index).delivered ++ [message] :=
        fun _ there => mem_append_left _ there
      refine h.set ((h.truthful r.index).mono ⟨rfl, rfl, grown⟩) fun r' message' there => ?_
      rcases Multiset.mem_add.mp there with old | new
      · split
        · rename_i same
          rw [← same] at grown ⊢
          exact (h.known r' message' (mem_of_rest old)).mono grown
        · exact mem_of_rest old
      · cases Multiset.mem_singleton.mp new
        rw [if_pos rfl]
        exact ⟨message, mem_append_right _ (mem_singleton_self _), rfl, rfl, rfl, rfl⟩
    · exact h
  | localId r right holds => exact h
  | sendAck r message frame =>
    simp only [act]
    split
    · have mine := h.known r message mem_of_last
      refine h.set ⟨(h.truthful r.index).remembered, fun message' there => ?_⟩ fun r' message' there => ?_
      · rcases mem_append.mp there with old | new
        · exact (h.truthful r.index).answered message' old
        · exact mem_singleton.mp new ▸ mine
      · split
        · rename_i same
          have known := h.known r' message' there
          rw [same] at known
          exact known
        · exact there
    · exact h
  | recordKnown r message ret ackRet duplicate sendAck evicted =>
    simp only [act, if_pos (held.valid rfl)]
    have mine := h.known r message mem_of_last
    refine h.set (recordIngest_truthful (h.truthful r.index) mine _ _ _ _ _) fun r' message' there => ?_
    have there : Right.knowing r' message' ∈ rest + {.knowing r message} :=
      @fewer_of_plain rest (.knowing r message) (.ref r) (by simp) r' message' there
    split
    · rename_i same
      have known := h.known r' message' there
      rw [same] at known
      exact known.mono fun _ there => (recordIngest_delivered _ _ _ _ _ _ _).symm ▸ there
    · exact there
  | recordUnknown r message ret ackRet duplicate sendAck evicted other =>
    simp only [act, if_pos (held.valid rfl)]
    exact h.carry (recordIngest_grown other _ _ _ _ _) fun _ _ there => there
  | refs index =>
    cases count : (s.slots index).refs with
    | zero =>
      simp only [act_refs_zero count]
      exact ⟨h.truthful, fun r message there => h.known r message
        (@fewer_of_plain rest (.closing index) (.drained index) (by simp) r message there)⟩
    | succ n =>
      simp only [act_refs_succ count]
      refine ⟨h.truthful, fun r message there => h.known r message (mem_of_rest ?_)⟩
      exact (add_zero rest) ▸ there
  | clear index =>
    simp only [act]
    rw [add_zero]
    refine h.set (truthful_zero rfl rfl) fun r message there => ?_
    have free : (s.slots index).refs = 0 := by
      refine (held.stands index).drained ?_
      simp only [tally_add, tally_singleton, Right.tally, if_true]
      exact Nat.succ_pos _
    rw [if_neg (held.nobody free (mem_of_rest there) rfl)]
    exact mem_of_rest there

/-- In every run in which messages are recognised, each message that is acknowledged was put into
the receive queue. -/
theorem answered_delivered (turns : List LinkTurn)
    (recognised : Machine.Admits turn (Pool.Allowed enabled Recognised) started turns) (i : Fin instanceMax) :
    ∀ message ∈ ((run turn started turns).state.slots i).answered,
      Known ((run turn started turns).state.slots i) message := by
  have honest : Honest started.state 0 :=
    ⟨fun _ => truthful_zero rfl rfl, fun _ _ there => absurd there (Multiset.notMem_zero _)⟩
  have start : Pool.Backed Deals (fun (_ : Reply) (held : Rights) => held = 0)
      (fun s held => Held s held ∧ Honest s held) started := ⟨0, rfl, started_held, honest⟩
  obtain ⟨total, -, -, honest⟩ := Pool.run_backed operations_honest body_clean start recognised
  exact (honest.truthful i).answered

instance {α : Type} (op : Op α) (s : Links) (e : Bool) : Decidable (Recognised op s e) := by
  apply Op.casesOn (motive := fun _ op => Decidable (Recognised op s e)) op <;> intros <;> dsimp only [Recognised] <;>
    infer_instance

instance (calls : Calls) (t : LinkTurn) : Decidable (Pool.Allowed enabled Recognised calls t) :=
  Pool.decideAllowed enabled Recognised (fun _ _ _ => inferInstance) calls t

def receiverName : CString := .ofBytes [0x62]

def firstFrame (payload : List UInt8) : List UInt8 :=
  rawFrame ⟨protocolVersion, flagAckRequested, .text, 1, 1, 2, payload⟩

def turnsOf (thread : Nat) (call : Call) (operations : Nat) : List LinkTurn :=
  .start call :: List.replicate operations (.step thread true)

def deliveryTurns : List LinkTurn :=
  turnsOf 0 (.create sampleName 1 32) 1 ++ turnsOf 1 (.create receiverName 2 32) 1 ++
    turnsOf 2 (.send sampleName .text 2 [0x68]) 6 ++ turnsOf 3 (.takeTx sampleName) 3 ++
    turnsOf 4 (.ingest receiverName (firstFrame [0x68])) 7 ++ turnsOf 5 (.ingest receiverName (firstFrame [0x68])) 6

set_option maxRecDepth 10000 in
theorem answered_delivered_twice : ((run turn started deliveryTurns).state.slots ⟨1, by decide⟩).answered ≠ [] ∧
      ∀ message ∈ ((run turn started deliveryTurns).state.slots ⟨1, by decide⟩).answered,
        Known ((run turn started deliveryTurns).state.slots ⟨1, by decide⟩) message :=
  ⟨by decide, answered_delivered deliveryTurns (by decide) ⟨1, by decide⟩⟩

def restartTurns : List LinkTurn :=
  turnsOf 0 (.create sampleName 1 32) 1 ++ turnsOf 1 (.create receiverName 2 32) 1 ++
    turnsOf 2 (.send sampleName .text 2 [0x68]) 6 ++ turnsOf 3 (.takeTx sampleName) 3 ++
    turnsOf 4 (.ingest receiverName (firstFrame [0x68])) 7 ++ turnsOf 5 (.destroy sampleName) 3 ++
    turnsOf 6 (.create sampleName 1 32) 1 ++ turnsOf 7 (.send sampleName .text 2 [0x69]) 6 ++
    turnsOf 8 (.takeTx sampleName) 3 ++ turnsOf 9 (.ingest receiverName (firstFrame [0x69])) 6

set_option maxRecDepth 10000 in
/-- The second message is acknowledged, and was never received. -/
theorem restart_acknowledges_lost :
    ¬∀ message ∈ ((run turn started restartTurns).state.slots ⟨1, by decide⟩).answered,
      Known ((run turn started restartTurns).state.slots ⟨1, by decide⟩) message := by
  intro known
  have answered : (⟨protocolVersion, flagAckRequested, .text, 1, 1, 2, [0x69]⟩ : Message) ∈
      ((run turn started restartTurns).state.slots ⟨1, by decide⟩).answered := by decide
  obtain ⟨message, delivered, same⟩ := known _ answered
  have never : ∀ message ∈ ((run turn started restartTurns).state.slots ⟨1, by decide⟩).delivered,
      message.payload ≠ [0x69] := by decide
  exact never message delivered same.payload

end SolarOs.Link
