import SolarOs.Messaging.Boot
import SolarOs.Library.QueueLog

/-! The outbox: what every critical section does to the waiting entries and to the
messages they stand for. -/
namespace SolarOs.Messaging
open Program QueueLog List SlotRing

def waiting (s : State) : List Nat := s.outbox.toList.map Outbound.id

def Slot.tag (slot : Slot) : Nat × ProviderId := (slot.message.key, slot.message.provider)

def Outbound.tag (outbound : Outbound) : Nat × ProviderId := (outbound.messageKey, outbound.provider)

/-- Every entry has an id of its own and a message in the ring. -/
structure Backed (s : State) : Prop where
  present : ∀ o ∈ s.outbox.toList, o.tag ∈ s.messages.toList.map Slot.tag
  distinct : (waiting s).Nodup
  nonzero : 0 ∉ waiting s

def OverwritesPending (s : State) : Prop :=
  s.messages.count = messageCapacity ∧ messagePending s (nextSlot s).message.key = true

variable {s s' : State}

/-- Sections that leave the outbox and the tags of the messages alone. -/
structure SameOutbox (s s' : State) : Prop where
  outbox : s'.outbox = s.outbox
  tags : s'.messages.toList.map Slot.tag = s.messages.toList.map Slot.tag

theorem SameOutbox.rfl : SameOutbox s s := ⟨Eq.refl _, Eq.refl _⟩

theorem SameOutbox.trans {s'' : State} (h : SameOutbox s s') (h' : SameOutbox s' s'') :
    SameOutbox s s'' := ⟨h'.outbox.trans h.outbox, h'.tags.trans h.tags⟩

/-- What a section may do: the outbox makes one move and stays backed. -/
structure Steps (s s' : State) : Prop where
  backed : Backed s'
  moves : Moves (waiting s) (waiting s')

theorem SameOutbox.steps (same : SameOutbox s s') (h : Backed s) : Steps s s' := by
  have line : waiting s' = waiting s := by rw [waiting, same.outbox, waiting]
  refine ⟨⟨?_, ?_, ?_⟩, ?_⟩
  · rw [same.outbox, same.tags]
    exact h.present
  · rw [line]
    exact h.distinct
  · rw [line]
    exact h.nonzero
  · rw [line]
    exact .stay

theorem Steps.trans_same {s'' : State} (h : Steps s s') (same : SameOutbox s' s'') : Steps s s'' := by
  have line : waiting s'' = waiting s' := by rw [waiting, same.outbox, waiting]
  refine ⟨(same.steps h.backed).backed, ?_⟩
  rw [line]
  exact h.moves

section
variable (s : State)

theorem publishEvent_outbox (type : EventType) (provider : ProviderId)
    (conversationId messageKey : Nat) (delivery : Delivery) (error : EspErr) :
    SameOutbox s (publishEvent s type provider conversationId messageKey delivery error) := ⟨rfl, rfl⟩

theorem noteGeneration_outbox : SameOutbox s (noteGeneration s) := ⟨rfl, rfl⟩

theorem modifyConversation_outbox (index : Option Nat) (f : Conversation → Conversation) :
    SameOutbox s (modifyConversation s index f) := by
  unfold modifyConversation
  split <;> exact ⟨rfl, rfl⟩

theorem upsertConversation_outbox (request : Upsert) (event : Bool) :
    SameOutbox s (upsertConversation s request event).1 ∧
      (upsertConversation s request event).1.messages = s.messages := by
  unfold upsertConversation
  dsimp only
  split
  · cases event <;> exact ⟨⟨rfl, rfl⟩, rfl⟩
  · split
    · exact ⟨.rfl, rfl⟩
    · cases event <;> exact ⟨⟨rfl, rfl⟩, rfl⟩

theorem removeConversation_outbox (provider : ProviderId) (providerKey : CString) :
    SameOutbox s (removeConversation s provider providerKey).1 := by
  unfold removeConversation
  split <;> exact ⟨rfl, rfl⟩

theorem evictForInbound_outbox : (evictForInbound s).outbox = s.outbox ∧ (evictForInbound s).messages = s.messages := by
  unfold evictForInbound
  split
  · dsimp only
    split
    · exact ⟨(modifyConversation_outbox _ _ _).outbox, modifyConversation_messages _ _ _⟩
    · exact ⟨rfl, rfl⟩
  · exact ⟨rfl, rfl⟩

theorem evictForSend_outbox : (evictForSend s).outbox = s.outbox ∧ (evictForSend s).messages = s.messages := by
  unfold evictForSend
  split <;> exact ⟨rfl, rfl⟩

end

theorem messagePending_iff {key : Nat} : messagePending s key = true ↔ ∃ o ∈ s.outbox.toList, o.messageKey = key := by
  unfold messagePending
  rw [find_eq, findIdx?_isSome, any_eq_true]
  simp

theorem Backed.survivors (h : Backed s) (calm : ¬OverwritesPending s) :
    ∀ o ∈ s.outbox.toList, o.tag ∈ s.messages.survivors.map Slot.tag := by
  intro o ho
  have here := h.present o ho
  by_cases full : s.messages.count = messageCapacity
  · rw [s.messages.toList_of_full full, map_cons, mem_cons] at here
    rw [SlotRing.survivors, if_pos full]
    rcases here with oldest | rest
    · exfalso
      apply calm
      refine ⟨full, messagePending_iff.mpr ⟨o, ho, ?_⟩⟩
      exact congrArg Prod.fst oldest
    · exact rest
  · rw [survivors_of_room full]
    exact here

theorem insertInbound_steps (h : Backed s) (request : Inbound) (tick : Nat)
    (calm : findMessage s (inboundKey request) = none →
      (upsertConversation s (inboundUpsert request) false).2 ≠ 0 → ¬OverwritesPending s) :
    Steps s (insertInbound s request tick).1 := by
  unfold insertInbound
  split
  · exact SameOutbox.rfl.steps h
  · rename_i new
    have quiet := calm (by simpa using new)
    obtain ⟨same, ring⟩ := upsertConversation_outbox s (inboundUpsert request) false
    cases hu : upsertConversation s (inboundUpsert request) false with
    | mk u conversationId =>
      rw [hu] at same ring quiet
      cases conversationId with
      | zero => exact same.steps h
      | succ n =>
        obtain ⟨outbox, messages⟩ := evictForInbound_outbox u
        have left := h.survivors (quiet (Nat.succ_ne_zero n))
        apply Steps.trans_same _ ((modifyConversation_outbox _ _ _).trans (noteGeneration_outbox _))
        have line : (evictForInbound u).outbox = s.outbox := outbox.trans same.outbox
        refine ⟨⟨?_, ?_, ?_⟩, ?_⟩
        · rw [line, toList_push, messages, ring, map_append]
          intro o ho
          exact mem_append_left _ (left o ho)
        · rw [line]
          exact h.distinct
        · rw [line]
          exact h.nonzero
        · rw [line]
          exact .stay

theorem messagingNext_pos (bits next : Nat) : (messagingNext bits next).1 ≠ 0 := by
  unfold messagingNext
  split
  · exact Nat.one_ne_zero
  · assumption

theorem checkSend_outbox (s : State) (conversationId : Nat) : SameOutbox s (checkSend s conversationId).1 := by
  unfold checkSend
  split
  · exact .rfl
  · split <;> exact ⟨rfl, rfl⟩

theorem checkSend_room {conversationId : Nat} (h : (checkSend s conversationId).2.isOk = true) :
    s.outbox.count < outboxCapacity := by
  unfold checkSend at h
  split at h
  · cases h
  · split at h
    · cases h
    · rename_i room
      exact Nat.lt_of_not_le room

theorem commitSend_steps (h : Backed s) (conversationId : Nat) (body : CString)
    (allowUntrusted : Bool) (tick : Nat) (calm : (checkSend s conversationId).2.isOk = true →
      ¬OverwritesPending s ∧ (messagingNext 32 s.nextOutboxId).1 ∉ waiting s) :
    Steps s (commitSend s conversationId body allowUntrusted tick).1 := by
  unfold commitSend
  cases hc : (checkSend s conversationId).2 with
  | error e =>
    rw [checkSend_error hc]
    exact (checkSend_outbox s conversationId).steps h
  | ok conversation =>
    have accepted : (checkSend s conversationId).2.isOk = true := by
      rw [hc]
      rfl
    obtain ⟨quiet, fresh⟩ := calm accepted
    have room := checkSend_room accepted
    have left := h.survivors quiet
    rw [checkSend_ok hc]
    obtain ⟨outbox, messages⟩ := evictForSend_outbox { s with nextMessageKey := (messagingNext 64 s.nextMessageKey).2 }
    have nextId : (evictForSend
        { s with nextMessageKey := (messagingNext 64 s.nextMessageKey).2 }).nextOutboxId =
        s.nextOutboxId := by
      unfold evictForSend
      split <;> rfl
    apply Steps.trans_same _ ((noteGeneration_outbox _).trans ((modifyConversation_outbox _ _ _).trans
      (publishEvent_outbox _ _ _ _ _ _ _)))
    have line : ∀ o, ((evictForSend
        { s with nextMessageKey := (messagingNext 64 s.nextMessageKey).2 }).outbox.push o).toList =
        s.outbox.toList ++ [o] := by
      intro o
      rw [outbox, toList_push_of_lt _ room]
    refine ⟨⟨?_, ?_, ?_⟩, ?_⟩
    · rw [line, toList_push, messages, map_append]
      intro o ho
      rcases mem_append.mp ho with old | new
      · exact mem_append_left _ (left o old)
      · cases mem_singleton.mp new
        exact mem_append_right _ mem_cons_self
    · show ((push _ _).toList.map Outbound.id).Nodup
      rw [line, map_append, nextId, nodup_append]
      refine ⟨h.distinct, nodup_singleton _, ?_⟩
      intro a ha b hb same
      have drawn : a = (messagingNext 32 s.nextOutboxId).1 := same.trans (mem_singleton.mp hb)
      exact fresh (drawn ▸ ha)
    · show 0 ∉ (push _ _).toList.map Outbound.id
      rw [line, map_append, nextId, mem_append]
      rintro (old | new)
      · exact h.nonzero old
      · exact messagingNext_pos 32 s.nextOutboxId (mem_singleton.mp new).symm
    · show Moves (waiting s) ((push _ _).toList.map Outbound.id)
      rw [line, map_append, nextId]
      exact .join _ fresh

theorem countMessages_outbox (slots : List Slot) (s : State) : (slots.foldl countMessage s).outbox = s.outbox ∧
      (slots.foldl countMessage s).messages = s.messages := by
  induction slots generalizing s with
  | nil => exact ⟨rfl, rfl⟩
  | cons slot slots ih =>
    have one : (countMessage s slot).outbox = s.outbox ∧ (countMessage s slot).messages = s.messages := by
      unfold countMessage
      dsimp only
      split
      · rw [(modifyConversation_outbox _ _ _).outbox, (modifyConversation_outbox _ _ _).outbox,
          modifyConversation_messages, modifyConversation_messages]
        exact ⟨rfl, rfl⟩
      · exact ⟨(modifyConversation_outbox _ _ _).outbox, modifyConversation_messages _ _ _⟩
    obtain ⟨outbox, messages⟩ := ih (countMessage s slot)
    exact ⟨outbox.trans one.1, messages.trans one.2⟩

theorem Backed.kept (h : Backed s) (outbox : s'.outbox = s.outbox)
    (kept : ∀ slot ∈ s.messages.toList, slot ∈ s'.messages.toList ∨
      ∀ o ∈ s.outbox.toList, o.tag ≠ slot.tag) : Steps s s' := by
  have line : waiting s' = waiting s := by rw [waiting, outbox, waiting]
  refine ⟨⟨?_, ?_, ?_⟩, ?_⟩
  · rw [outbox]
    intro o ho
    obtain ⟨slot, hslot, same⟩ := mem_map.mp (h.present o ho)
    rcases kept slot hslot with stays | free
    · exact mem_map.mpr ⟨slot, stays, same⟩
    · exact absurd same.symm (free o ho)
  · rw [line]
    exact h.distinct
  · rw [line]
    exact h.nonzero
  · rw [line]
    exact .stay

theorem recomputeSummaries_outbox (s : State) :
    (recomputeSummaries s).outbox = s.outbox ∧ (recomputeSummaries s).messages = s.messages :=
  countMessages_outbox _ _

theorem Backed.recompute {c : State} (h : Backed s) (outbox : c.outbox = s.outbox)
    (kept : ∀ slot ∈ s.messages.toList, slot ∈ c.messages.toList ∨
      ∀ o ∈ s.outbox.toList, o.tag ≠ slot.tag) : Steps s (recomputeSummaries c) := by
  obtain ⟨same, messages⟩ := recomputeSummaries_outbox c
  apply h.kept (same.trans outbox)
  rw [messages]
  exact kept

theorem deleteMessage_steps (h : Backed s) (key : Nat) : Steps s (deleteMessage s key).1 := by
  unfold deleteMessage
  split
  · exact SameOutbox.rfl.steps h
  · rename_i free
    cases hi : findMessage s key with
    | none => exact SameOutbox.rfl.steps h
    | some i =>
      obtain ⟨inside, hit⟩ := s.messages.find_some hi
      apply Steps.trans_same _ ((noteGeneration_outbox _).trans (publishEvent_outbox _ _ _ _ _ _ _))
      refine Backed.recompute h ?_ ?_
      · rfl
      rw [toList_remove _ inside]
      intro slot hslot
      -- the removed message has the key that no entry waits for
      by_cases removed : slot.message.key = key
      · right
        intro o ho same
        apply free
        exact messagePending_iff.mpr ⟨o, ho, (congrArg Prod.fst same).trans removed⟩
      · left
        obtain ⟨j, hj⟩ := getElem?_of_mem hslot
        have other : j ≠ i := by
          rintro rfl
          rw [s.messages.getElem?_toList inside] at hj
          cases hj
          exact removed (by simpa using hit)
        exact mem_eraseIdx_iff_getElem?.mpr ⟨j, other, hj⟩

theorem clearMessages_steps (h : Backed s) (provider : ProviderId) : Steps s (clearMessages s provider).1 := by
  unfold clearMessages
  split
  · exact SameOutbox.rfl.steps h
  · rename_i free
    dsimp only
    split
    · apply Steps.trans_same _ ((noteGeneration_outbox _).trans (publishEvent_outbox _ _ _ _ _ _ _))
      have none : ∀ o ∈ s.outbox.toList, provider ≠ 0 ∧ o.provider ≠ provider := by
        have found := s.outbox.find_none (p := fun o => provider = 0 || o.provider = provider) (by simpa using free)
        intro o ho
        simpa using found o ho
      refine Backed.recompute h ?_ ?_
      · rfl
      intro slot hslot
      rw [toList_ofList]
      by_cases taken : slot.message.provider = provider
      · right
        intro o ho same
        exact (none o ho).2 ((congrArg Prod.snd same).trans taken)
      · by_cases all : provider = 0
        · right
          intro o ho
          exact absurd all (none o ho).1
        · left
          exact mem_filter.mpr ⟨hslot, by simp [taken, all]⟩
    · exact SameOutbox.rfl.steps h

theorem tags_modify {r : SlotRing Slot messageCapacity} {f : Slot → Slot}
    (keep : ∀ slot, (f slot).tag = slot.tag) {i : Nat} (hi : i < r.count) :
    (r.modify i f).toList.map Slot.tag = r.toList.map Slot.tag := by
  rw [toList_modify _ hi]
  exact Keyed.map_modify keep i

theorem tags_modifyAll {r : SlotRing Slot messageCapacity} {f : Slot → Slot} (keep : ∀ slot, (f slot).tag = slot.tag) :
    (r.modifyAll f).toList.map Slot.tag = r.toList.map Slot.tag := by
  rw [toList_modifyAll]
  exact Keyed.map_map_keep keep

theorem SameOutbox.noted {p : Prop} [Decidable p] (h : SameOutbox s s') :
    SameOutbox s (if p then noteGeneration s' else s') := by
  split
  · exact h.trans (noteGeneration_outbox s')
  · exact h

theorem readMessages_outbox (s : State) (conversationId : Nat) : SameOutbox s (readMessages s conversationId).1 := by
  unfold readMessages
  split
  · exact .rfl
  · rename_i index _
    dsimp only
    refine SameOutbox.noted (SameOutbox.trans ?_ (modifyConversation_outbox _ (some index) _))
    refine ⟨rfl, tags_modifyAll fun slot => ?_⟩
    split <;> rfl

theorem linkProjection_outbox (s : State) (key revision inboxId : Nat) (present : Bool) :
    SameOutbox s (linkProjection s key revision inboxId present).1 := by
  unfold linkProjection
  cases hi : findMessage s key with
  | none => exact .rfl
  | some i =>
    dsimp only
    split
    · refine ⟨rfl, tags_modify ?_ (findMessage_lt hi)⟩
      intro slot
      rfl
    · exact .rfl

theorem setDelivery_outbox {i : Nat} (hi : i < s.messages.count) (delivery : Delivery)
    (error : Option CString) : SameOutbox s (setDelivery s i delivery error) := by
  refine ⟨rfl, tags_modify ?_ hi⟩
  intro slot
  rfl

theorem Backed.leave (h : Backed s) {j : Nat} (hj : j < s.outbox.count) :
    Steps s { s with outbox := s.outbox.remove j .blank } := by
  have line : (s.outbox.remove j .blank).toList = s.outbox.toList.eraseIdx j := toList_remove _ hj _
  have ids : waiting { s with outbox := s.outbox.remove j .blank } = (waiting s).eraseIdx j := by
    show (s.outbox.remove j .blank).toList.map Outbound.id = _
    rw [line, waiting, eraseIdx_map]
  refine ⟨⟨?_, ?_, ?_⟩, ?_⟩
  · rw [line]
    intro o ho
    exact h.present o (mem_of_mem_eraseIdx ho)
  · rw [ids]
    exact h.distinct.sublist (eraseIdx_sublist _ _)
  · rw [ids]
    exact fun mem => h.nonzero (mem_of_mem_eraseIdx mem)
  · rw [ids]
    apply Moves.eraseIdx
    rw [waiting, length_map, length_toList]
    exact hj

theorem cancelOutbound_steps (h : Backed s) (key : Nat) : Steps s (cancelOutbound s key).1 := by
  unfold cancelOutbound
  cases hi : findMessage s key with
  | none => exact SameOutbox.rfl.steps h
  | some i =>
    dsimp only
    split
    · exact SameOutbox.rfl.steps h
    · cases hj : s.outbox.find fun outbound => outbound.messageKey = key with
      | none => exact SameOutbox.rfl.steps h
      | some j =>
        have left := h.leave (s.outbox.find_some hj).1
        apply left.trans_same
        exact (setDelivery_outbox (s := { s with outbox := s.outbox.remove j .blank })
          (findMessage_lt hi) _ _).trans ((noteGeneration_outbox _).trans
            (publishEvent_outbox _ _ _ _ _ _ _))

theorem Backed.attempt (h : Backed s) {j : Nat} (hj : j < s.outbox.count) {f : Outbound → Outbound}
    (id : ∀ o, (f o).id = o.id) (tag : ∀ o, (f o).tag = o.tag) : Steps s { s with outbox := s.outbox.modify j f } := by
  have line : (s.outbox.modify j f).toList = s.outbox.toList.modify j f := toList_modify _ hj f
  have ids : waiting { s with outbox := s.outbox.modify j f } = waiting s := by
    show (s.outbox.modify j f).toList.map Outbound.id = _
    rw [line, Keyed.map_modify id]
    rfl
  refine ⟨⟨?_, ?_, ?_⟩, ?_⟩
  · intro o ho
    have mem : o.tag ∈ (s.outbox.modify j f).toList.map Outbound.tag := mem_map_of_mem ho
    rw [line, Keyed.map_modify tag] at mem
    obtain ⟨o', ho', same⟩ := mem_map.mp mem
    rw [← same]
    exact h.present o' ho'
  · rw [ids]
    exact h.distinct
  · rw [ids]
    exact h.nonzero
  · rw [ids]
    exact .stay

theorem updateOutbox_steps (h : Backed s) (requestId : Nat) (state : Delivery)
    (error : Option CString) : Steps s (updateOutbox s requestId state error).1 := by
  unfold updateOutbox
  cases hj : s.outbox.find fun outbound => outbound.id = requestId with
  | none => exact SameOutbox.rfl.steps h
  | some j =>
    have inside := (s.outbox.find_some hj).1
    dsimp only
    by_cases queued : state = .queued
    · rw [if_pos queued]
      have tried := h.attempt inside (f := fun o => { o with attempts := (o.attempts + 1) % 2 ^ 8 })
        (fun o => rfl) (fun o => rfl)
      cases hi : findMessage { s with
          outbox := s.outbox.modify j fun o => { o with attempts := (o.attempts + 1) % 2 ^ 8 } }
          (s.outbox.entry j).messageKey with
      | none => exact tried
      | some i =>
        have going : ¬(state = .sent ∨ state = .delivered ∨ state = .failed) := by
          subst queued
          decide
        simp only [if_neg going]
        exact tried.trans_same ((setDelivery_outbox (findMessage_lt hi) _ _).trans
          ((noteGeneration_outbox _).trans (publishEvent_outbox _ _ _ _ _ _ _)))
    · rw [if_neg queued]
      cases hi : findMessage s (s.outbox.entry j).messageKey with
      | none => exact SameOutbox.rfl.steps h
      | some i =>
        have set := setDelivery_outbox (findMessage_lt hi) state (some ((orEmpty error).strlcpy errorMax))
        apply Steps.trans_same _ ((noteGeneration_outbox _).trans (publishEvent_outbox _ _ _ _ _ _ _))
        split
        · exact (h.leave inside).trans_same ⟨rfl, set.tags⟩
        · exact set.steps h

def Terminal (state : Delivery) : Prop := state = .sent ∨ state = .delivered ∨ state = .failed

instance (state : Delivery) : Decidable (Terminal state) := inferInstanceAs (Decidable (_ ∨ _ ∨ _))

theorem updateOutbox_terminal (h : Backed s) {o : Outbound} (ho : o ∈ s.outbox.toList)
    {state : Delivery} (terminal : Terminal state) (error : Option CString) :
    (updateOutbox s o.id state error).2 = .ok o.messageKey ∧
      (updateOutbox s o.id state error).1.outbox.toList =
        s.outbox.toList.filter fun other => other.id ≠ o.id := by
  have going : state ≠ .queued := by
    rintro rfl
    revert terminal
    decide
  obtain ⟨k, hk⟩ := getElem?_of_mem ho
  obtain ⟨j, hj⟩ : ∃ j, s.outbox.find (fun outbound => outbound.id = o.id) = some j := by
    cases hfind : s.outbox.find fun outbound => outbound.id = o.id with
    | some j => exact ⟨j, rfl⟩
    | none => exact absurd (s.outbox.find_none hfind o ho) (by simp)
  obtain ⟨inside, hit⟩ := s.outbox.find_some hj
  have same : s.outbox.entry j = o := Keyed.eq_of_key h.distinct (s.outbox.entry_mem inside) ho (by simpa using hit)
  obtain ⟨i, hi⟩ : ∃ i, findMessage s o.messageKey = some i := by
    cases hfind : findMessage s o.messageKey with
    | some i => exact ⟨i, rfl⟩
    | none =>
      obtain ⟨slot, hslot, tag⟩ := mem_map.mp (h.present o ho)
      have key : slot.message.key = o.messageKey := congrArg Prod.fst tag
      exact absurd (s.messages.find_none hfind slot hslot) (by simp [key])
  have past : state = .sent ∨ state = .delivered ∨ state = .failed := terminal
  unfold updateOutbox
  simp only [hj, same, if_neg going, hi, if_pos past]
  refine ⟨trivial, ?_⟩
  show (s.outbox.remove j .blank).toList = _
  rw [toList_remove _ inside]
  exact Keyed.eraseIdx_eq_filter h.distinct (same ▸ s.outbox.getElem?_toList inside)

end SolarOs.Messaging
