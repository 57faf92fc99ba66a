import SolarOs.Link.Acknowledged

/-! Runs in which acknowledgements are prompt: the book of every instance is kept. -/
namespace SolarOs.Link
open Program List

def Right.sends (index : Fin instanceMax) (key : Key) : Right → Nat
  | .sending r key' => if r.index = index ∧ key' = key then 1 else 0
  | _ => 0

def Rights.sends (held : Rights) (index : Fin instanceMax) (key : Key) : Nat :=
  (held.map (Right.sends index key)).sum

variable {s : Links} {rest held held' : Rights} {i : Fin instanceMax} {slot slot' : LinkInstance}
  {right right' : Right} {r : LinkRef} {key : Key}

@[simp] theorem sends_add (first second : Rights) :
    (first + second).sends i key = first.sends i key + second.sends i key := by
  rw [Rights.sends, Multiset.map_add, Multiset.sum_add]
  rfl

@[simp] theorem sends_singleton (right : Right) : Rights.sends {right} i key = right.sends i key := by
  rw [Rights.sends, Multiset.map_singleton, Multiset.sum_singleton]

theorem sends_le (held : Rights) (i : Fin instanceMax) (key : Key) : held.sends i key ≤ (held.tally i).1 := by
  induction held using Multiset.induction_on with
  | empty => exact Nat.le_refl 0
  | cons right held ih =>
    rw [← Multiset.singleton_add, tally_add, sends_add, tally_singleton, sends_singleton]
    refine Nat.add_le_add ?_ ih
    cases right with
    | sending r key' =>
      unfold Right.sends Right.tally
      dsimp only
      split
      · rename_i both
        rw [if_pos both.1]
      · exact Nat.zero_le _
    | _ => exact Nat.zero_le _

/-- The books are kept, and the calls know which messages are not recorded yet. -/
structure Recorded (s : Links) (held : Rights) : Prop where
  booked : ∀ i, Booked (s.slots i)
  sends : ∀ i key, held.sends i key = (s.slots i).unrecorded.count key

theorem Recorded.set (h : Recorded s held) (booked : Booked slot)
    (sends : ∀ key, held'.sends i key = slot.unrecorded.count key)
    (elsewhere : ∀ j, j ≠ i → ∀ key, held'.sends j key = held.sends j key) : Recorded (s.set i slot) held' := by
  have here : (s.set i slot).slots i = slot := Function.update_self ..
  have there : ∀ j, j ≠ i → (s.set i slot).slots j = s.slots j := fun j other => Function.update_of_ne other ..
  constructor
  · intro j
    by_cases same : j = i
    · rw [same, here]
      exact booked
    · rw [there j same]
      exact h.booked j
  · intro j key
    by_cases same : j = i
    · rw [same, here]
      exact sends key
    · rw [there j same, elsewhere j same]
      exact h.sends j key

theorem Recorded.carry (h : Recorded s held) (same : SameBook (s.slots i) slot)
    (sends : ∀ j key, held'.sends j key = held.sends j key) : Recorded (s.set i slot) held' := by
  refine h.set ((h.booked i).congr same) (fun key => ?_) fun j _ key => sends j key
  rw [sends, same.unrecorded]
  exact h.sends i key

theorem Recorded.rights (h : Recorded s held) (sends : ∀ j key, held'.sends j key = held.sends j key) :
    Recorded s held' := ⟨h.booked, fun j key => (sends j key).trans (h.sends j key)⟩

theorem sends_exchange (plain : ∀ i key, right.sends i key = 0) (plain' : ∀ i key, right'.sends i key = 0)
    (i : Fin instanceMax) (key : Key) : (rest + {right'}).sends i key = (rest + {right}).sends i key := by
  rw [sends_add, sends_add, sends_singleton, sends_singleton, plain, plain']

theorem sends_drop (plain : ∀ i key, right.sends i key = 0) (i : Fin instanceMax) (key : Key) :
    rest.sends i key = (rest + {right}).sends i key := by
  rw [sends_add, sends_singleton, plain, Nat.add_zero]

theorem examined_plain (r : LinkRef) (message : Message) (verdict : Verdict) (i : Fin instanceMax) (key : Key) :
    (examined r message verdict).sends i key = 0 := by
  unfold examined
  split <;> rfl

theorem booked_zero (same : SameBook LinkInstance.zero slot) : Booked slot := by
  refine Booked.congr ⟨fun key => ?_, ?_, rfl⟩ same
  · exact iff_of_false not_mem_nil fun either => either.elim not_mem_nil not_mem_nil
  · exact nodup_nil

theorem examine_book (slot : LinkInstance) (message : Message) :
    (slot.examine message).1.unrecorded = slot.unrecorded := by
  unfold LinkInstance.examine
  split
  · rfl
  split
  · unfold LinkInstance.ackPending
    split <;> rfl
  · dsimp only
    split <;> rfl

theorem recordSend_book (slot : LinkInstance) (message : Message) (ret : EspErr) :
    (slot.recordSend message ret).unrecorded =
      if ret = .ok ∧ message.asks = true then slot.unrecorded.erase message.key else slot.unrecorded := by
  unfold LinkInstance.recordSend
  split
  · rename_i ok
    split
    · rename_i asks
      exact (if_pos ⟨ok, asks⟩).symm
    · rename_i quiet
      exact (if_neg fun both => quiet both.2).symm
  · rename_i failed
    exact (if_neg fun both => failed both.1).symm

theorem recordIngest_book (slot : LinkInstance) (message : Message) (ret ackRet : EspErr)
    (duplicate sendAck evicted : Bool) :
    SameBook slot (slot.recordIngest message ret ackRet duplicate sendAck evicted) := by
  unfold LinkInstance.recordIngest
  split
  · cases duplicate <;> cases sendAck <;> dsimp only <;> (repeat' split) <;> exact ⟨rfl, rfl, rfl, rfl⟩
  · exact ⟨rfl, rfl, rfl, rfl⟩

theorem operations_record : Pool.Honours Deals act enabled Prompt fun s held => Held s held ∧ Recorded s held := by
  intro β op s e deal rest hdeal inv can prompt
  obtain ⟨held, h⟩ := inv
  obtain ⟨brought, held'⟩ := operations_hold op s e deal rest hdeal held can trivial
  refine ⟨brought, held', ?_⟩
  cases hdeal with
  | create name localId frameMtu valid =>
    rw [add_zero] at h held ⊢
    simp only [act]
    split
    · exact h
    split
    · exact h
    split
    · exact h
    · rename_i i free
      obtain ⟨inactive, open_⟩ := firstFree_some free
      have none : (rest.tally i).1 = 0 := by
        rw [← (held.stands i).refs, (held.stands i).idle inactive open_]
      have created := @Recorded.set s rest rest i { LinkInstance.zero with
        active := true
        generation := s.linkGeneration
        name := name.strlcpy nameMax
        localId
        frameMtu
        nextSequence := 1 } h (booked_zero ⟨rfl, rfl, rfl, rfl⟩) (fun key => by
          have le := sends_le rest i key
          show rest.sends i key = 0
          omega) fun _ _ _ => rfl
      exact ⟨created.booked, created.sends⟩
  | acquire name =>
    rw [add_zero] at h
    simp only [act]
    split
    · exact (add_zero rest).symm ▸ h
    · rename_i i found
      exact h.carry ⟨rfl, rfl, rfl, rfl⟩ fun j key => (sends_drop (fun _ _ => rfl) j key).symm
  | release r =>
    simp only [act, if_pos (held.valid rfl)]
    rw [add_zero]
    exact h.carry ⟨rfl, rfl, rfl, rfl⟩ fun j key => sends_drop (fun _ _ => rfl) j key
  | number r type destination | recordInvalid r ret =>
    simp only [act, if_pos (held.valid rfl)]
    exact h.carry ⟨rfl, rfl, rfl, rfl⟩ fun _ _ => rfl
  | frameMtu r => exact h
  | sendTx r message frame =>
    simp only [act]
    split
    · cases asks : message.asks with
      | false =>
        have plain : queuedRight r message true = .ref r := if_neg fun both => Bool.false_ne_true (asks.symm.trans both.2)
        rw [plain]
        exact h.carry ⟨rfl, rfl, rfl, rfl⟩ fun _ _ => rfl
      | true =>
        have queued : queuedRight r message true = .sending r message.key := if_pos ⟨rfl, asks⟩
        rw [queued]
        refine h.set ((h.booked r.index).sent message.key rfl rfl rfl rfl) (fun key => ?_) fun j other key => ?_
        · have before : (rest + {.ref r}).sends r.index key = (s.slots r.index).unrecorded.count key :=
            h.sends r.index key
          rw [sends_add, sends_singleton, show Right.sends r.index key (.ref r) = 0 from rfl, Nat.add_zero] at before
          show _ = ((s.slots r.index).unrecorded ++ [message.key]).count key
          rw [sends_add, sends_singleton, before, count_append, count_singleton]
          simp only [Right.sends, true_and, beq_iff_eq]
        · rw [sends_add, sends_add, sends_singleton, sends_singleton]
          simp only [Right.sends, if_neg fun both : r.index = j ∧ message.key = key => other both.1.symm]
    · exact h
  | recordSent r message asks =>
    simp only [act, if_pos (held.valid rfl)]
    obtain ⟨free, new⟩ := prompt rfl asks
    have mine : (rest + {.sending r message.key}).sends r.index message.key =
        (s.slots r.index).unrecorded.count message.key := h.sends r.index message.key
    rw [sends_add, sends_singleton, Right.sends, if_pos ⟨rfl, rfl⟩] at mine
    have sent : message.key ∈ (s.slots r.index).unrecorded := count_pos_iff.mp (by omega)
    have unlisted : message.key ∉ activeKeys (s.slots r.index).pending := by
      intro there
      obtain ⟨entry, member, active, same⟩ := mem_activeKeys.mp there
      exact new entry member active same
    refine h.set ((h.booked r.index).record message .ok fun _ _ => ⟨sent, free, unlisted⟩) (fun key => ?_)
      fun j other key => ?_
    · rw [recordSend_book, if_pos ⟨rfl, asks⟩, count_erase]
      have before : (rest + {.sending r message.key}).sends r.index key =
        (s.slots r.index).unrecorded.count key := h.sends r.index key
      rw [sends_add, sends_singleton, Right.sends] at before
      rw [sends_add, sends_singleton, ← before]
      by_cases same : message.key = key
      · simp [same, Right.sends]
      · simp [same, Right.sends]
    · rw [sends_add, sends_add, sends_singleton, sends_singleton]
      simp only [Right.sends, if_neg fun both : r.index = j ∧ message.key = key => other both.1.symm]
  | recordOther r message ret other =>
    simp only [act, if_pos (held.valid rfl)]
    have not : ¬(ret = .ok ∧ message.asks = true) := by
      rintro ⟨ok, asks⟩
      rcases other with failed | quiet
      · exact failed ok
      · exact Bool.false_ne_true (quiet.symm.trans asks)
    refine h.set ((h.booked r.index).record message ret fun ok asks => absurd ⟨ok, asks⟩ not) (fun key => ?_)
      fun _ _ _ => rfl
    rw [recordSend_book, if_neg not]
    exact h.sends r.index key
  | receiveTx r | receiveRx r =>
    simp only [act]
    split
    · split
      · exact h
      · exact h.carry ⟨rfl, rfl, rfl, rfl⟩ fun _ _ => rfl
    · exact h
  | examine r message =>
    simp only [act, if_pos (held.valid rfl)]
    have plain : ∀ i key,
        (rest + {examined r message ((s.slots r.index).examine message).2}).sends i key =
          (rest + {.ref r}).sends i key :=
      sends_exchange (fun _ _ => rfl) (examined_plain r message _)
    refine h.set ((h.booked r.index).examine message prompt) (fun key => ?_) fun j _ key => plain j key
    rw [examine_book]
    exact (plain r.index key).trans (h.sends r.index key)
  | sendRx r message =>
    simp only [act]
    split
    · exact h.carry ⟨rfl, rfl, rfl, rfl⟩ (sends_exchange (fun _ _ => rfl) fun _ _ => rfl)
    · exact h
  | localId r right holds => exact h
  | sendAck r message frame =>
    simp only [act]
    split
    · exact h.carry ⟨rfl, rfl, rfl, rfl⟩ fun _ _ => rfl
    · exact h
  | recordKnown r message ret ackRet duplicate sendAck evicted =>
    simp only [act, if_pos (held.valid rfl)]
    exact h.carry (recordIngest_book _ _ _ _ _ _ _) (sends_exchange (fun _ _ => rfl) fun _ _ => rfl)
  | recordUnknown r message ret ackRet duplicate sendAck evicted other =>
    simp only [act, if_pos (held.valid rfl)]
    exact h.carry (recordIngest_book _ _ _ _ _ _ _) fun _ _ => rfl
  | close name =>
    rw [add_zero] at h
    simp only [act]
    split
    · exact (add_zero rest).symm ▸ h
    · exact h.carry ⟨rfl, rfl, rfl, rfl⟩ fun j key => (sends_drop (fun _ _ => rfl) j key).symm
  | refs index =>
    cases count : (s.slots index).refs with
    | zero =>
      simp only [act_refs_zero count]
      exact h.rights (sends_exchange (fun _ _ => rfl) fun _ _ => rfl)
    | succ n =>
      simp only [act_refs_succ count]
      have kept : Recorded s rest := h.rights (sends_drop fun _ _ => rfl)
      exact (add_zero rest).symm ▸ ⟨kept.booked, kept.sends⟩
  | clear index =>
    simp only [act]
    rw [add_zero]
    refine h.set (booked_zero ⟨rfl, rfl, rfl, rfl⟩) (fun key => ?_) fun j _ key => sends_drop (fun _ _ => rfl) j key
    have le := sends_le (rest + {.drained index}) index key
    have free : ((rest + {.drained index} : Rights).tally index).1 = 0 := by
      rw [← (held.stands index).refs]
      refine (held.stands index).drained ?_
      simp only [tally_add, tally_singleton, Right.tally, if_true]
      exact Nat.succ_pos _
    rw [sends_add] at le
    show rest.sends index key = 0
    omega

theorem started_recorded : Recorded started.state 0 :=
  ⟨fun _ => booked_zero ⟨rfl, rfl, rfl, rfl⟩, fun _ _ => rfl⟩

/-- In every run of prompt turns, a message whose acknowledgement was ingested has no active entry,
and was counted. -/
theorem acknowledgements_kept (turns : List LinkTurn)
    (prompt : Machine.Admits turn (Pool.Allowed enabled Prompt) started turns) (i : Fin instanceMax) :
    Acknowledged ((Machine.run turn started turns).state.slots i) := by
  have start : Pool.Backed Deals (fun (_ : Reply) (held : Rights) => held = 0)
      (fun s held => Held s held ∧ Recorded s held) started := ⟨0, rfl, started_held, started_recorded⟩
  obtain ⟨total, -, -, recorded⟩ := Pool.run_backed operations_record body_clean start prompt
  exact (recorded.booked i).acknowledged

def sampleAck : List UInt8 :=
  rawFrame ⟨protocolVersion, 0, .acknowledgement, 1, 2, 1, []⟩

def promptTurns : List LinkTurn :=
  [.start (.create sampleName 1 32), .step 0 true, .start (.send sampleName .text 2 [0x68]), .step 1 true,
    .step 1 true, .step 1 true, .step 1 true, .step 1 true, .step 1 true, .start (.takeTx sampleName), .step 2 true,
    .step 2 true, .step 2 true, .start (.ingest sampleName sampleAck), .step 3 true, .step 3 true, .step 3 true]

def hastyTurns : List LinkTurn :=
  [.start (.create sampleName 1 32), .step 0 true, .start (.send sampleName .text 2 [0x68]), .step 1 true,
    .step 1 true, .step 1 true, .step 1 true, .start (.takeTx sampleName), .step 2 true, .step 2 true, .step 2 true,
    .start (.ingest sampleName sampleAck), .step 3 true, .step 3 true, .step 3 true, .step 1 true, .step 1 true]

instance {α : Type} (op : Op α) (s : Links) (e : Bool) : Decidable (Prompt op s e) := by
  apply Op.casesOn (motive := fun _ op => Decidable (Prompt op s e)) op <;> intros <;> dsimp only [Prompt] <;>
    infer_instance

instance (calls : Calls) (t : LinkTurn) : Decidable (Pool.Allowed enabled Prompt calls t) :=
  Pool.decideAllowed enabled Prompt (fun _ _ _ => inferInstance) calls t

set_option maxRecDepth 10000 in
theorem acknowledgements_kept_prompt :
    Acknowledged ((Machine.run turn started promptTurns).state.slots ⟨0, by decide⟩) :=
  acknowledgements_kept promptTurns (by decide) ⟨0, by decide⟩

set_option maxRecDepth 10000 in
/-- The entry stays active for good, and the acknowledgement was not counted. -/
theorem hastyTurns_forget : ¬Acknowledged ((Machine.run turn started hastyTurns).state.slots ⟨0, by decide⟩) := by
  intro kept
  exact absurd kept.counted (by decide)

end SolarOs.Link
