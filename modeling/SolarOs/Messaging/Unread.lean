import SolarOs.Messaging.Calls
import SolarOs.Library.Keyed

/-! The unread counters: what every critical section does to them, and the two events
that put them out of step with the ring. -/
namespace SolarOs.Messaging
open Program List SlotRing

def unreadIds (slots : List Slot) : List Nat :=
  (slots.filter fun slot => slot.message.unread).map fun slot => slot.message.conversationId

structure Counts (s : State) (ids : List Nat) : Prop where
  total : s.messageUnread = ids.length
  each : ∀ c ∈ s.conversations, c.unreadCount = ids.count c.id
  distinct : (s.conversations.map Conversation.id).Nodup

def Accounted (s : State) : Prop := Counts s (unreadIds s.messages.toList)

variable {s s' : State} {ids : List Nat}

theorem unreadIds_append (slots slots' : List Slot) :
    unreadIds (slots ++ slots') = unreadIds slots ++ unreadIds slots' := by
  rw [unreadIds, filter_append, map_append]
  rfl

theorem unreadIds_cons (slot : Slot) (slots : List Slot) : unreadIds (slot :: slots) =
      (if slot.message.unread then [slot.message.conversationId] else []) ++ unreadIds slots := by
  rw [unreadIds, filter_cons]
  split <;> rfl

def Slot.mark (slot : Slot) : Bool × Nat := (slot.message.unread, slot.message.conversationId)

variable (slots : List Slot)

theorem unreadIds_eq : unreadIds slots = ((slots.map Slot.mark).filter Prod.fst).map Prod.snd := by
  rw [filter_map, map_map]
  rfl

/-- Sections that touch neither the counters nor what is counted. -/
structure SameCounts (s s' : State) : Prop where
  conversations : s'.conversations = s.conversations
  unread : s'.messageUnread = s.messageUnread
  ids : unreadIds s'.messages.toList = unreadIds s.messages.toList

theorem Accounted.congr (h : Accounted s) (same : SameCounts s s') : Accounted s' := by
  have counts : Counts s (unreadIds s.messages.toList) := h
  rw [← same.ids] at counts
  refine ⟨same.unread.trans counts.total, ?_, ?_⟩
  · rw [same.conversations]
    exact counts.each
  · rw [same.conversations]
    exact counts.distinct

theorem Counts.congr (h : Counts s ids) (conversations : s'.conversations = s.conversations)
    (unread : s'.messageUnread = s.messageUnread) : Counts s' ids where
  total := unread.trans h.total
  each := by
    rw [conversations]
    exact h.each
  distinct := by
    rw [conversations]
    exact h.distinct

theorem Counts.modify (h : Counts s ids) (id : Nat) (f : Conversation → Conversation) :
    (modifyConversation s (conversationIdIndex s id) f).conversations =
      s.conversations.map fun c => if c.id = id then f c else c := by
  unfold modifyConversation
  cases hi : conversationIdIndex s id with
  | none => exact (Keyed.map_eq_self hi f).symm
  | some i => exact Keyed.modify_eq_map h.distinct hi f

theorem modifyConversation_conversations (s : State) (index : Option Nat)
    (f : Conversation → Conversation) : (modifyConversation s index f).conversations =
      index.elim s.conversations fun i => s.conversations.modify i f := by
  unfold modifyConversation
  cases index <;> rfl

@[simp] theorem modifyConversation_messages (s : State) (index : Option Nat)
    (f : Conversation → Conversation) : (modifyConversation s index f).messages = s.messages := by
  unfold modifyConversation
  split <;> rfl

@[simp] theorem modifyConversation_messageUnread (s : State) (index : Option Nat)
    (f : Conversation → Conversation) :
    (modifyConversation s index f).messageUnread = s.messageUnread := by
  unfold modifyConversation
  split <;> rfl

theorem Counts.adjust {ids' : List Nat} {index : Option Nat} {f : Conversation → Conversation}
    (h : Counts s ids) (id : Nat) (hindex : index = conversationIdIndex s id)
    (keep : ∀ c, (f c).id = c.id) (total : s'.messageUnread = ids'.length)
    (conversations : s'.conversations = (modifyConversation s index f).conversations)
    (here : ∀ c ∈ s.conversations, c.id = id → (f c).unreadCount = ids'.count id)
    (there : ∀ c ∈ s.conversations, c.id ≠ id → ids'.count c.id = ids.count c.id) : Counts s' ids' := by
  subst hindex
  rw [h.modify] at conversations
  refine ⟨total, ?_, ?_⟩
  · rw [conversations]
    intro c' hc'
    obtain ⟨c, hc, rfl⟩ := mem_map.mp hc'
    split
    · rename_i hit
      rw [keep, hit]
      exact here c hc hit
    · rename_i miss
      rw [there c hc miss]
      exact h.each c hc
  · rw [conversations, Keyed.map_map_keep]
    · exact h.distinct
    · intro c
      split
      · exact keep c
      · rfl

theorem Counts.touch (h : Counts s ids) (index : Option Nat) {f : Conversation → Conversation}
    (keep : ∀ c, (f c).id = c.id) (count : ∀ c, (f c).unreadCount = c.unreadCount)
    (total : s'.messageUnread = s.messageUnread)
    (conversations : s'.conversations = (modifyConversation s index f).conversations) : Counts s' ids := by
  rw [modifyConversation_conversations] at conversations
  cases index with
  | none => exact h.congr conversations total
  | some i =>
    refine ⟨total.trans h.total, ?_, ?_⟩
    · rw [conversations]
      intro c hc
      obtain ⟨j, hj⟩ := getElem?_of_mem hc
      rw [Option.elim_some, getElem?_modify] at hj
      obtain ⟨d, hd, rfl⟩ := Option.map_eq_some_iff.mp hj
      have old := h.each d (mem_of_getElem? hd)
      split
      · rw [count, keep]
        exact old
      · exact old
    · rw [conversations, Option.elim_some, Keyed.map_modify keep]
      exact h.distinct

theorem publishEvent_same (s : State) (type : EventType) (provider : ProviderId)
    (conversationId messageKey : Nat) (delivery : Delivery) (error : EspErr) :
    SameCounts s (publishEvent s type provider conversationId messageKey delivery error) :=
  ⟨rfl, rfl, rfl⟩

theorem noteGeneration_same (s : State) : SameCounts s (noteGeneration s) := ⟨rfl, rfl, rfl⟩

theorem SameCounts.trans {s'' : State} (h : SameCounts s s') (h' : SameCounts s' s'') : SameCounts s s'' where
  conversations := h'.conversations.trans h.conversations
  unread := h'.unread.trans h.unread
  ids := h'.ids.trans h.ids

def FreshId (s : State) (id : Nat) : Prop :=
  (∀ c ∈ s.conversations, c.id ≠ id) ∧ id ∉ unreadIds s.messages.toList

def DrawsFreshId (s : State) (request : Upsert) : Prop :=
  conversationIndex s request.provider request.providerKey = none →
    s.conversations.length < conversationCapacity → FreshId s (messagingNext 32 s.nextConversationId).1

def OverwritesUnread (s : State) : Prop :=
  s.messages.count = messageCapacity ∧ (nextSlot s).message.unread = true ∧
    (nextSlot s).message.conversationId ∈ s.conversations.map Conversation.id

theorem upsertConversation_spec (h : Accounted s) (request : Upsert) (event : Bool)
    (fresh : DrawsFreshId s request) : Accounted (upsertConversation s request event).1 ∧
      (upsertConversation s request event).1.messages = s.messages := by
  have counts : Counts s (unreadIds s.messages.toList) := h
  unfold upsertConversation
  cases hi : conversationIndex s request.provider request.providerKey with
  | some i =>
    have changed : Accounted { s with conversations := s.conversations.modify i request.apply } :=
      counts.touch (some i) (f := request.apply) (fun c => rfl) (fun c => rfl) rfl rfl
    cases event with
    | false => exact ⟨changed.congr (noteGeneration_same _), rfl⟩
    | true => exact ⟨changed.congr ((noteGeneration_same _).trans (publishEvent_same _ _ _ _ _ _ _)), rfl⟩
  | none =>
    dsimp only
    split
    · exact ⟨h, rfl⟩
    · rename_i room
      obtain ⟨others, unread⟩ := fresh hi (Nat.lt_of_not_le room)
      have created : Accounted
          { s with
            conversations := s.conversations ++
              [request.apply (.blank (messagingNext 32 s.nextConversationId).1)]
            nextConversationId := (messagingNext 32 s.nextConversationId).2 } := by
        refine ⟨counts.total, ?_, ?_⟩
        · intro c hc
          rcases mem_append.mp hc with old | new
          · exact counts.each c old
          · cases mem_singleton.mp new
            exact (count_eq_zero.mpr unread).symm
        · rw [map_append, nodup_append]
          refine ⟨counts.distinct, nodup_singleton _, ?_⟩
          intro a ha b hb
          obtain ⟨c, hc, rfl⟩ := mem_map.mp ha
          rw [map_singleton, mem_singleton] at hb
          rw [hb]
          exact others c hc
      cases event with
      | false => exact ⟨created.congr (noteGeneration_same _), rfl⟩
      | true =>
        exact ⟨created.congr ((noteGeneration_same _).trans (publishEvent_same _ _ _ _ _ _ _)), rfl⟩

theorem unreadIds_of_full (full : s.messages.count = messageCapacity) : unreadIds s.messages.toList =
      (if (nextSlot s).message.unread then [(nextSlot s).message.conversationId] else []) ++
        unreadIds s.messages.survivors := by
  rw [s.messages.toList_of_full full, unreadIds_cons, survivors, if_pos full]
  rfl

theorem survivors_of_room (room : s.messages.count ≠ messageCapacity) :
    s.messages.survivors = s.messages.toList := if_neg room

theorem evictForInbound_spec (h : Accounted s) : Counts (evictForInbound s) (unreadIds s.messages.survivors) ∧
      (evictForInbound s).messages = s.messages := by
  have counts : Counts s (unreadIds s.messages.toList) := h
  unfold evictForInbound
  by_cases full : s.messages.count = messageCapacity
  · rw [if_pos full]
    have ids := unreadIds_of_full full
    by_cases unread : (nextSlot s).message.unread = true
    · simp only [unread, if_true, singleton_append] at ids ⊢
      rw [ids] at counts
      refine ⟨?_, modifyConversation_messages _ _ _⟩
      apply counts.adjust (nextSlot s).message.conversationId 
        (f := fun c => { c with unreadCount := c.unreadCount - 1 }) rfl (fun c => rfl)
      · rw [modifyConversation_messageUnread]
        rw [counts.total]
        rfl
      · rw [modifyConversation_conversations, modifyConversation_conversations]
        rfl
      · intro c hc hit
        have old := counts.each c hc
        rw [hit, count_cons_self] at old
        exact Nat.sub_eq_of_eq_add old
      · intro c hc miss
        exact (count_cons_of_ne (Ne.symm miss)).symm
    · rw [if_neg unread, nil_append] at ids
      rw [ids] at counts
      simp only [unread]
      exact ⟨counts.congr rfl rfl, rfl⟩
  · rw [if_neg full, survivors_of_room full]
    exact ⟨counts, rfl⟩

theorem evictForSend_spec (h : Accounted s) (calm : ¬OverwritesUnread s) :
    Counts (evictForSend s) (unreadIds s.messages.survivors) ∧
      (evictForSend s).messages = s.messages := by
  have counts : Counts s (unreadIds s.messages.toList) := h
  unfold evictForSend
  by_cases full : s.messages.count = messageCapacity
  · rw [if_pos full]
    have ids := unreadIds_of_full full
    by_cases unread : (nextSlot s).message.unread = true
    · simp only [unread, if_true, singleton_append] at ids ⊢
      rw [ids] at counts
      refine ⟨⟨?_, ?_, counts.distinct⟩, trivial⟩
      · rw [counts.total]
        rfl
      · intro c hc
        have other : c.id ≠ (nextSlot s).message.conversationId := fun hit =>
          calm ⟨full, unread, mem_map.mpr ⟨c, hc, hit⟩⟩
        exact (counts.each c hc).trans (count_cons_of_ne (Ne.symm other))
    · rw [if_neg unread, nil_append] at ids
      rw [ids] at counts
      simp only [unread]
      exact ⟨counts.congr rfl rfl, trivial⟩
  · rw [if_neg full, survivors_of_room full]
    exact ⟨counts, rfl⟩

theorem insertInbound_spec (h : Accounted s) (request : Inbound) (tick : Nat)
    (fresh : findMessage s (inboundKey request) = none → DrawsFreshId s (inboundUpsert request)) :
    Accounted (insertInbound s request tick).1 := by
  unfold insertInbound
  split
  · exact h
  · rename_i new
    obtain ⟨upserted, ring⟩ := upsertConversation_spec h (inboundUpsert request) false (fresh (by simpa using new))
    cases hu : upsertConversation s (inboundUpsert request) false with
    | mk u conversationId =>
      rw [hu] at upserted ring
      cases conversationId with
      | zero => exact upserted
      | succ n =>
        have counted : Accounted u := upserted
        obtain ⟨counts, kept⟩ := evictForInbound_spec counted
        apply Accounted.congr _ (noteGeneration_same _)
        have found : conversationIdIndex (evictForInbound u) (n + 1) =
            conversationIdIndex (evictForInbound u) (n + 1) := rfl
        apply counts.adjust (n + 1)
          (f := fun c => { c with
            unreadCount := c.unreadCount + 1
            lastMessageMs := request.timestampMs
            securityFlags := c.securityFlags ||| request.securityFlags }) found (fun c => rfl)
        · rw [modifyConversation_messageUnread, modifyConversation_messages, toList_push, kept,
            unreadIds_append, length_append, ← counts.total]
          rfl
        · rw [modifyConversation_conversations, modifyConversation_conversations]
          rfl
        · intro c hc hit
          rw [modifyConversation_messages, toList_push, kept, unreadIds_append, count_append]
          rw [counts.each c hc, hit]
          simp [unreadIds, inboundMessage]
        · intro c hc miss
          rw [modifyConversation_messages, toList_push, kept, unreadIds_append, count_append]
          have none : (unreadIds [⟨inboundMessage request (n + 1) tick, none,
              (noteGeneration (evictForInbound u)).generation⟩]).count c.id = 0 := by
            simp [unreadIds, inboundMessage, Ne.symm miss]
          rw [none, Nat.add_zero]

theorem checkSend_error {conversationId : Nat} {e : EspErr} (h : (checkSend s conversationId).2 = .error e) :
    checkSend s conversationId = ((checkSend s conversationId).1, .error e) := Prod.ext rfl h

theorem checkSend_ok {conversationId : Nat} {conversation : Conversation}
    (h : (checkSend s conversationId).2 = .ok conversation) : checkSend s conversationId = (s, .ok conversation) := by
  unfold checkSend at h ⊢
  split at h
  · cases h
  · split at h
    · cases h
    · rename_i room
      cases h
      rw [if_neg room]

theorem checkSend_same (s : State) (conversationId : Nat) : SameCounts s (checkSend s conversationId).1 := by
  unfold checkSend
  split
  · exact ⟨rfl, rfl, rfl⟩
  · split <;> exact ⟨rfl, rfl, rfl⟩

theorem commitSend_spec (h : Accounted s) (conversationId : Nat) (body : CString) (allowUntrusted : Bool) (tick : Nat)
    (calm : (checkSend s conversationId).2.isOk = true → ¬OverwritesUnread s) :
    Accounted (commitSend s conversationId body allowUntrusted tick).1 := by
  unfold commitSend
  cases hc : (checkSend s conversationId).2 with
  | error e =>
    rw [checkSend_error hc]
    exact h.congr (checkSend_same s conversationId)
  | ok conversation =>
    rw [checkSend_ok hc]
    obtain ⟨counts, kept⟩ := evictForSend_spec
      (s := { s with nextMessageKey := (messagingNext 64 s.nextMessageKey).2 }) (h.congr ⟨rfl, rfl, rfl⟩)
      (calm (by rw [hc]; rfl))
    apply Accounted.congr _ (publishEvent_same _ _ _ _ _ _ _)
    have none : ∀ slot : Slot, slot.message.unread = false → unreadIds [slot] = [] := by
      intro slot hslot
      simp [unreadIds, hslot]
    unfold Accounted
    rw [modifyConversation_messages]
    show Counts _ (unreadIds (push _ _).toList)
    rw [toList_push, unreadIds_append, none _ rfl, append_nil, kept]
    apply counts.touch (conversationIdIndex s conversationId) (f := fun c => { c with lastMessageMs := tick })
      (fun c => rfl) (fun c => rfl)
    · rw [modifyConversation_messageUnread]
      rfl
    · rw [modifyConversation_conversations, modifyConversation_conversations]
      rfl

theorem removeConversation_spec (h : Accounted s) (provider : ProviderId) (providerKey : CString) :
    Accounted (removeConversation s provider providerKey).1 := by
  have counts : Counts s (unreadIds s.messages.toList) := h
  unfold removeConversation
  cases conversationIndex s provider providerKey with
  | none => exact h
  | some i =>
    apply Accounted.congr _ ((noteGeneration_same _).trans (publishEvent_same _ _ _ _ _ _ _))
    refine ⟨counts.total, ?_, ?_⟩
    · intro c hc
      exact counts.each c (mem_of_mem_eraseIdx hc)
    · exact counts.distinct.sublist ((eraseIdx_sublist _ _).map Conversation.id)

theorem countMessage_spec (h : Counts s ids) (slot : Slot) : Counts (countMessage s slot) (ids ++ unreadIds [slot]) ∧
      (countMessage s slot).messages = s.messages := by
  unfold countMessage
  dsimp only
  by_cases unread : slot.message.unread = true
  · rw [if_pos unread]
    have one : unreadIds [slot] = [slot.message.conversationId] := by simp [unreadIds, unread]
    rw [one]
    constructor
    · apply Counts.touch (s := modifyConversation { s with messageUnread := s.messageUnread + 1 }
        (conversationIdIndex s slot.message.conversationId) fun c =>
          { c with unreadCount := c.unreadCount + 1 })
        (f := fun c => { c with lastMessageMs := max c.lastMessageMs slot.message.timestampMs })
        _ (conversationIdIndex s slot.message.conversationId) (fun c => rfl) (fun c => rfl)
      · rw [modifyConversation_messageUnread]
      · rfl
      · apply h.adjust slot.message.conversationId
          (f := fun c => { c with unreadCount := c.unreadCount + 1 }) rfl (fun c => rfl)
        · rw [modifyConversation_messageUnread, length_append, ← h.total]
          rfl
        · rw [modifyConversation_conversations, modifyConversation_conversations]
        · intro c hc hit
          rw [count_append, ← hit, count_singleton_self, ← h.each c hc]
        · intro c hc miss
          rw [count_append, count_singleton]
          simp [Ne.symm miss]
    · rw [modifyConversation_messages, modifyConversation_messages]
  · rw [if_neg unread]
    have none : unreadIds [slot] = [] := by simp [unreadIds, unread]
    rw [none, append_nil]
    constructor
    · apply h.touch (conversationIdIndex s slot.message.conversationId)
        (f := fun c => { c with lastMessageMs := max c.lastMessageMs slot.message.timestampMs })
        (fun c => rfl) (fun c => rfl)
      · rw [modifyConversation_messageUnread]
      · rfl
    · rw [modifyConversation_messages]

theorem recomputeSummaries_spec (distinct : (s.conversations.map Conversation.id).Nodup) :
    Accounted (recomputeSummaries s) := by
  have walk : ∀ (slots : List Slot) (s : State) (ids : List Nat), Counts s ids →
      Counts (slots.foldl countMessage s) (ids ++ unreadIds slots) ∧
        (slots.foldl countMessage s).messages = s.messages := by
    intro slots
    induction slots with
    | nil =>
      intro s ids h
      exact ⟨by simpa [unreadIds] using h, rfl⟩
    | cons slot slots ih =>
      intro s ids h
      obtain ⟨counts, kept⟩ := countMessage_spec h slot
      obtain ⟨counts', kept'⟩ := ih _ _ counts
      rw [foldl_cons]
      refine ⟨?_, kept'.trans kept⟩
      rwa [append_assoc, ← unreadIds_append] at counts'
  have zero : Counts { s with
      messageUnread := 0
      conversations := s.conversations.map fun c => { c with unreadCount := 0, lastMessageMs := 0 } } [] := by
    refine ⟨rfl, ?_, ?_⟩
    · intro c hc
      obtain ⟨d, -, rfl⟩ := mem_map.mp hc
      rfl
    · rw [map_map]
      exact distinct
  obtain ⟨counts, kept⟩ := walk s.messages.toList _ _ zero
  unfold Accounted recomputeSummaries
  rw [kept]
  exact counts

theorem deleteMessage_spec (h : Accounted s) (key : Nat) : Accounted (deleteMessage s key).1 := by
  unfold deleteMessage
  split
  · exact h
  · cases findMessage s key with
    | none => exact h
    | some i =>
      have counts : Counts s (unreadIds s.messages.toList) := h
      apply Accounted.congr _ ((noteGeneration_same _).trans (publishEvent_same _ _ _ _ _ _ _))
      exact recomputeSummaries_spec (s := { s with messages := s.messages.remove i .blank }) counts.distinct

theorem clearMessages_spec (h : Accounted s) (provider : ProviderId) : Accounted (clearMessages s provider).1 := by
  have counts : Counts s (unreadIds s.messages.toList) := h
  unfold clearMessages
  split
  · exact h
  · dsimp only
    split
    · apply Accounted.congr _ ((noteGeneration_same _).trans (publishEvent_same _ _ _ _ _ _ _))
      apply recomputeSummaries_spec
      exact counts.distinct
    · exact h

theorem Accounted.marks (h : Accounted s) (conversations : s'.conversations = s.conversations)
    (unread : s'.messageUnread = s.messageUnread)
    (marks : s'.messages.toList.map Slot.mark = s.messages.toList.map Slot.mark) : Accounted s' := by
  apply h.congr ⟨conversations, unread, ?_⟩
  rw [unreadIds_eq, unreadIds_eq, marks]

theorem findMessage_lt {key i : Nat} (h : findMessage s key = some i) : i < s.messages.count :=
  (s.messages.find_some h).1

theorem linkProjection_spec (h : Accounted s) (key revision inboxId : Nat) (present : Bool) :
    Accounted (linkProjection s key revision inboxId present).1 := by
  unfold linkProjection
  cases hi : findMessage s key with
  | none => exact h
  | some i =>
    dsimp only
    split
    · apply Accounted.marks h
      · rfl
      · rfl
      · rw [toList_modify _ (findMessage_lt hi)]
        apply Keyed.map_modify
        intro slot
        rfl
    · exact h

theorem setDelivery_spec (h : Accounted s) {i : Nat} (hi : i < s.messages.count) (delivery : Delivery)
    (error : Option CString) : Accounted (setDelivery s i delivery error) := by
  apply Accounted.marks h
  · rfl
  · rfl
  · unfold setDelivery
    rw [toList_modify _ hi]
    apply Keyed.map_modify
    intro slot
    rfl

theorem cancelOutbound_spec (h : Accounted s) (key : Nat) : Accounted (cancelOutbound s key).1 := by
  unfold cancelOutbound
  cases hi : findMessage s key with
  | none => exact h
  | some i =>
    dsimp only
    split
    · exact h
    · split
      · exact h
      · rename_i j _
        apply Accounted.congr _ ((noteGeneration_same _).trans (publishEvent_same _ _ _ _ _ _ _))
        exact setDelivery_spec (s := { s with outbox := s.outbox.remove j .blank })
          (h.congr ⟨rfl, rfl, rfl⟩) (findMessage_lt hi) _ _

theorem updateOutbox_spec (h : Accounted s) (requestId : Nat) (state : Delivery)
    (error : Option CString) : Accounted (updateOutbox s requestId state error).1 := by
  unfold updateOutbox
  split
  · exact h
  · rename_i j _
    dsimp only
    have tried : Accounted (if state = .queued then
        { s with outbox := s.outbox.modify j fun o => { o with attempts := (o.attempts + 1) % 2 ^ 8 } }
        else s) := by
      split
      · exact h.congr ⟨rfl, rfl, rfl⟩
      · exact h
    generalize (if state = .queued then
      { s with outbox := s.outbox.modify j fun o => { o with attempts := (o.attempts + 1) % 2 ^ 8 } }
      else s) = t at tried ⊢
    cases hi : findMessage t (s.outbox.entry j).messageKey with
    | none => exact tried
    | some i =>
      have set := setDelivery_spec tried (findMessage_lt hi) state (some ((orEmpty error).strlcpy errorMax))
      apply Accounted.congr _ ((noteGeneration_same _).trans (publishEvent_same _ _ _ _ _ _ _))
      split
      · exact set.congr ⟨rfl, rfl, rfl⟩
      · exact set

theorem unreadIds_read (id : Nat) : unreadIds (slots.map fun slot =>
      if slot.message.conversationId = id && slot.message.unread then
        { slot with
          message := { slot.message with unread := false }
          revision := (slot.revision + 1) % 2 ^ 32 }
      else slot) = (unreadIds slots).filter fun other => other ≠ id := by
  induction slots with
  | nil => rfl
  | cons slot slots ih =>
    rw [map_cons, unreadIds_cons, unreadIds_cons, filter_append, ih]
    congr 1
    by_cases here : slot.message.conversationId = id
    · by_cases unread : slot.message.unread = true <;> simp [here, unread]
    · by_cases unread : slot.message.unread = true <;> simp [here, unread]

theorem length_read (id : Nat) :
    (slots.filter fun slot => slot.message.conversationId = id && slot.message.unread).length =
      (unreadIds slots).count id := by
  rw [unreadIds, count_eq_countP, countP_map, countP_filter, countP_eq_length_filter]
  congr 1

theorem length_sub_count (ids : List Nat) (id : Nat) :
    ids.length - ids.count id = (ids.filter fun other => other ≠ id).length := by
  induction ids with
  | nil => rfl
  | cons other ids ih =>
    have limit := count_le_length (a := id) (l := ids)
    by_cases here : other = id
    · subst here
      rw [count_cons_self, length_cons, Nat.add_sub_add_right, ih, filter_cons_of_neg (by simp)]
    · rw [count_cons_of_ne here, length_cons, filter_cons_of_pos (by simpa using here),
        length_cons, ← ih]
      omega

theorem Accounted.noted {p : Prop} [Decidable p] (h : Accounted s) : Accounted (if p then noteGeneration s else s) := by
  split
  · exact h.congr (noteGeneration_same s)
  · exact h

theorem readMessages_spec (h : Accounted s) (conversationId : Nat) : Accounted (readMessages s conversationId).1 := by
  have counts : Counts s (unreadIds s.messages.toList) := h
  unfold readMessages
  cases hi : conversationIdIndex s conversationId with
  | none => exact h
  | some index =>
    dsimp only
    refine Accounted.noted ?_
    unfold Accounted
    rw [modifyConversation_messages, toList_modifyAll, unreadIds_read]
    apply counts.adjust conversationId (f := fun c => { c with unreadCount := 0 }) hi.symm (fun c => rfl)
    · rw [modifyConversation_messageUnread, length_read, counts.total]
      exact length_sub_count _ _
    · rw [modifyConversation_conversations, modifyConversation_conversations]
    · intro c _ _
      exact (count_eq_zero.mpr fun mem => by simpa using (mem_filter.mp mem).2).symm
    · intro c _ miss
      exact count_filter (by simpa using miss)

end SolarOs.Messaging
