import SolarOs.Messaging.Outbox

/-! The conversations that messages belong to: what every critical section keeps. -/
namespace SolarOs.Messaging
open Program List SlotRing

def Conversation.home (c : Conversation) : Nat × ProviderId × CString := (c.id, c.provider, c.providerKey)

def Slot.home (slot : Slot) : Nat × ProviderId := (slot.message.conversationId, slot.message.provider)

def Nameable (home : Nat × ProviderId × CString) : Prop :=
  messagingProviderValid home.2.1 = true ∧ home.2.2.bytes ≠ []

/-- Every message belongs to a conversation, and both can be written to the history file. -/
structure Homed (s : State) : Prop where
  members : ∀ home ∈ s.messages.toList.map Slot.home, home.1 ∈ s.conversations.map Conversation.id
  providers : ∀ home ∈ s.messages.toList.map Slot.home, messagingProviderValid home.2 = true
  named : ∀ home ∈ s.conversations.map Conversation.home, Nameable home

variable {s s' : State}

/-- Sections that keep the conversations, apart from their counters, and add no message. -/
structure KeepsHomes (s s' : State) : Prop where
  conversations : s'.conversations.map Conversation.home = s.conversations.map Conversation.home
  messages : s'.messages.toList.map Slot.home ⊆ s.messages.toList.map Slot.home

theorem KeepsHomes.rfl : KeepsHomes s s := ⟨Eq.refl _, List.Subset.refl _⟩

theorem KeepsHomes.trans {s'' : State} (h : KeepsHomes s s') (h' : KeepsHomes s' s'') : KeepsHomes s s'' :=
  ⟨h'.conversations.trans h.conversations, List.Subset.trans h'.messages h.messages⟩

theorem ids_of_homes (cs : List Conversation) : cs.map Conversation.id = (cs.map Conversation.home).map Prod.fst := by
  rw [map_map]
  rfl

theorem KeepsHomes.homed (keeps : KeepsHomes s s') (h : Homed s) : Homed s' where
  members home hhome := by
    rw [ids_of_homes, keeps.conversations, ← ids_of_homes]
    exact h.members home (keeps.messages hhome)
  providers home hhome := h.providers home (keeps.messages hhome)
  named := by
    rw [keeps.conversations]
    exact h.named

theorem KeepsHomes.of_eq (conversations : s'.conversations = s.conversations)
    (messages : s'.messages = s.messages) : KeepsHomes s s' := by
  refine ⟨?_, ?_⟩
  · rw [conversations]
  · rw [messages]
    exact List.Subset.refl _

theorem Homed.congr (h : Homed s) (conversations : s'.conversations = s.conversations)
    (messages : s'.messages = s.messages) : Homed s' := (KeepsHomes.of_eq conversations messages).homed h

theorem publishEvent_homes (s : State) (type : EventType) (provider : ProviderId)
    (conversationId messageKey : Nat) (delivery : Delivery) (error : EspErr) :
    KeepsHomes s (publishEvent s type provider conversationId messageKey delivery error) := .of_eq rfl rfl

theorem noteGeneration_homes (s : State) : KeepsHomes s (noteGeneration s) := .of_eq rfl rfl

theorem modifyConversation_homes (s : State) (index : Option Nat) {f : Conversation → Conversation}
    (keep : ∀ c, (f c).home = c.home) : KeepsHomes s (modifyConversation s index f) := by
  cases index with
  | none => exact .rfl
  | some i => exact ⟨Keyed.map_modify keep i, List.Subset.refl _⟩

variable {r : SlotRing Slot messageCapacity}

theorem messages_homes (conversations : s'.conversations = s.conversations) (messages : s'.messages = r)
    (same : r.toList.map Slot.home = s.messages.toList.map Slot.home) : KeepsHomes s s' := by
  refine ⟨?_, ?_⟩
  · rw [conversations]
  · rw [messages, same]
    exact List.Subset.refl _

theorem homes_modify {f : Slot → Slot} (keep : ∀ slot, (f slot).home = slot.home) {i : Nat} (hi : i < r.count) :
    (r.modify i f).toList.map Slot.home = r.toList.map Slot.home := by
  rw [toList_modify _ hi]
  exact Keyed.map_modify keep i

theorem homes_modifyAll {f : Slot → Slot} (keep : ∀ slot, (f slot).home = slot.home) :
    (r.modifyAll f).toList.map Slot.home = r.toList.map Slot.home := by
  rw [toList_modifyAll]
  exact Keyed.map_map_keep keep

theorem strlcpy_nonempty {text : CString} {size : Nat} (h : text.bytes ≠ []) (hsize : 1 < size) :
    (text.strlcpy size).bytes ≠ [] := by
  show text.bytes.take (size - 1) ≠ []
  rw [ne_eq, take_eq_nil_iff, not_or]
  exact ⟨Nat.sub_ne_zero_of_lt hsize, h⟩

def Upsert.Sensible (request : Upsert) : Prop :=
  messagingProviderValid request.provider = true ∧ request.providerKey.bytes ≠ []

theorem Upsert.Sensible.nameable {request : Upsert} (h : request.Sensible) (c : Conversation) :
    Nameable (request.apply c).home := ⟨h.1, strlcpy_nonempty h.2 (by decide)⟩

/-- An upsert names no conversation badly, and the one it returns is there. -/
theorem upsertConversation_homed (h : Homed s) {request : Upsert} (sensible : request.Sensible)
    (event : Bool) : Homed (upsertConversation s request event).1 ∧
      (upsertConversation s request event).1.messages = s.messages ∧
      ((upsertConversation s request event).2 ≠ 0 → (upsertConversation s request event).2 ∈
        (upsertConversation s request event).1.conversations.map Conversation.id) := by
  unfold upsertConversation
  cases hi : conversationIndex s request.provider request.providerKey with
  | some i =>
    have ids : (s.conversations.modify i request.apply).map Conversation.id =
        s.conversations.map Conversation.id := by
      apply Keyed.map_modify
      intro c
      rfl
    have changed : Homed { s with conversations := s.conversations.modify i request.apply } := by
      refine ⟨?_, h.providers, ?_⟩
      · rw [ids]
        exact h.members
      · intro home hhome
        obtain ⟨c, hc, rfl⟩ := mem_map.mp hhome
        obtain ⟨d, hd, same | same⟩ := mem_modify hc
        · rw [same]
          exact h.named _ (mem_map_of_mem hd)
        · rw [same]
          exact sensible.nameable d
    have here : (s.conversations[i]?.map Conversation.id).getD 0 ≠ 0 →
        (s.conversations[i]?.map Conversation.id).getD 0 ∈
          (s.conversations.modify i request.apply).map Conversation.id := by
      intro nonzero
      rw [ids]
      cases hc : s.conversations[i]? with
      | none =>
        rw [hc] at nonzero
        exact absurd rfl nonzero
      | some c => exact mem_map_of_mem (mem_of_getElem? hc)
    cases event with
    | false => exact ⟨(noteGeneration_homes _).homed changed, rfl, here⟩
    | true =>
      exact ⟨((noteGeneration_homes _).trans (publishEvent_homes _ _ _ _ _ _ _)).homed changed, rfl, here⟩
  | none =>
    dsimp only
    split
    · exact ⟨h, rfl, fun nonzero => absurd rfl nonzero⟩
    · have created : Homed
          { s with
            conversations := s.conversations ++
              [request.apply (.blank (messagingNext 32 s.nextConversationId).1)]
            nextConversationId := (messagingNext 32 s.nextConversationId).2 } := by
        refine ⟨?_, h.providers, ?_⟩
        · intro home hhome
          rw [map_append, mem_append]
          exact .inl (h.members home hhome)
        · intro home hhome
          rw [map_append, mem_append] at hhome
          rcases hhome with old | new
          · exact h.named home old
          · cases mem_singleton.mp new
            exact sensible.nameable _
      have here : (messagingNext 32 s.nextConversationId).1 ∈ (s.conversations ++
          [request.apply (.blank (messagingNext 32 s.nextConversationId).1)]).map Conversation.id := by
        rw [map_append, mem_append]
        exact .inr (mem_singleton.mpr rfl)
      cases event with
      | false => exact ⟨(noteGeneration_homes _).homed created, rfl, fun _ => here⟩
      | true =>
        exact ⟨((noteGeneration_homes _).trans (publishEvent_homes _ _ _ _ _ _ _)).homed created, rfl, fun _ => here⟩

theorem Homed.push (h : Homed s) {slot : Slot} (member : slot.message.conversationId ∈
    s.conversations.map Conversation.id) (provider : messagingProviderValid slot.message.provider = true)
    (conversations : s'.conversations.map Conversation.home = s.conversations.map Conversation.home)
    (messages : s'.messages.toList = s.messages.survivors ++ [slot]) : Homed s' := by
  have ids : s'.conversations.map Conversation.id = s.conversations.map Conversation.id := by
    rw [ids_of_homes, conversations, ← ids_of_homes]
  have homes : ∀ home ∈ s'.messages.toList.map Slot.home,
      home ∈ s.messages.toList.map Slot.home ∨ home = slot.home := by
    rw [messages, map_append]
    intro home hhome
    rcases mem_append.mp hhome with old | new
    · obtain ⟨other, hother, rfl⟩ := mem_map.mp old
      exact .inl (mem_map_of_mem (s.messages.survivors_suffix.subset hother))
    · exact .inr (mem_singleton.mp new)
  refine ⟨?_, ?_, ?_⟩
  · rw [ids]
    intro home hhome
    rcases homes home hhome with old | rfl
    · exact h.members home old
    · exact member
  · intro home hhome
    rcases homes home hhome with old | rfl
    · exact h.providers home old
    · exact provider
  · rw [conversations]
    exact h.named

theorem evictForInbound_homes (s : State) :
    (evictForInbound s).conversations.map Conversation.home = s.conversations.map Conversation.home := by
  unfold evictForInbound
  split
  · dsimp only
    split
    · refine (modifyConversation_homes _ _ ?_).conversations
      intro c
      rfl
    · rfl
  · rfl

theorem evictForSend_homes (s : State) : (evictForSend s).conversations = s.conversations := by
  unfold evictForSend
  split <;> rfl

theorem insertInbound_homed (h : Homed s) {request : Inbound} (tick : Nat)
    (sensible : (inboundUpsert request).Sensible) : Homed (insertInbound s request tick).1 := by
  unfold insertInbound
  split
  · exact h
  · obtain ⟨homed, -, member⟩ := upsertConversation_homed h sensible false
    cases hu : upsertConversation s (inboundUpsert request) false with
    | mk u conversationId =>
      rw [hu] at homed member
      cases conversationId with
      | zero => exact homed
      | succ n =>
        refine KeepsHomes.homed ((modifyConversation_homes _ _ ?_).trans (noteGeneration_homes _)) ?_
        · intro c
          rfl
        · let slot : Slot := ⟨inboundMessage request (n + 1) tick, none,
            (noteGeneration (evictForInbound u)).generation⟩
          have owner : slot.message.conversationId ∈ u.conversations.map Conversation.id := member (Nat.succ_ne_zero n)
          apply homed.push owner sensible.1
          · exact evictForInbound_homes u
          · rw [toList_push, (evictForInbound_outbox u).2]

theorem conversationIdIndex_mem {conversationId : Nat} {conversation : Conversation}
    (h : (conversationIdIndex s conversationId).bind (s.conversations[·]?) = some conversation) :
    conversation ∈ s.conversations ∧ conversation.id = conversationId := by
  obtain ⟨i, hi, hc⟩ := Option.bind_eq_some_iff.mp h
  obtain ⟨c, hc', hid⟩ := Keyed.findIdx?_some hi
  rw [hc] at hc'
  cases hc'
  exact ⟨mem_of_getElem? hc, hid⟩

theorem checkSend_homes (s : State) (conversationId : Nat) : KeepsHomes s (checkSend s conversationId).1 := by
  unfold checkSend
  split
  · exact .rfl
  · split <;> exact .of_eq rfl rfl

theorem checkSend_conversation {conversationId : Nat} {conversation : Conversation}
    (h : (checkSend s conversationId).2 = .ok conversation) :
    conversation ∈ s.conversations ∧ conversation.id = conversationId := by
  unfold checkSend at h
  split at h
  · cases h
  · rename_i found hfound
    split at h
    · cases h
    · cases h
      exact conversationIdIndex_mem hfound

theorem commitSend_homed (h : Homed s) (conversationId : Nat) (body : CString) (allowUntrusted : Bool) (tick : Nat) :
    Homed (commitSend s conversationId body allowUntrusted tick).1 := by
  unfold commitSend
  cases hc : (checkSend s conversationId).2 with
  | error e =>
    rw [checkSend_error hc]
    exact (checkSend_homes s conversationId).homed h
  | ok conversation =>
    obtain ⟨found, id⟩ := checkSend_conversation hc
    rw [checkSend_ok hc]
    refine KeepsHomes.homed ((noteGeneration_homes _).trans ((modifyConversation_homes _ _ ?_).trans
      (publishEvent_homes _ _ _ _ _ _ _))) ?_
    · intro c
      rfl
    · let slot : Slot :=
        { message := outboundMessage conversation conversationId (messagingNext 64 s.nextMessageKey).1
            body tick
          diskIndex := none
          revision := (noteGeneration (evictForSend
            { s with nextMessageKey := (messagingNext 64 s.nextMessageKey).2 })).generation }
      have owner : slot.message.conversationId ∈ s.conversations.map Conversation.id := by
        show conversationId ∈ _
        rw [← id]
        exact mem_map_of_mem found
      have provider : messagingProviderValid slot.message.provider = true := (h.named _ (mem_map_of_mem found)).1
      apply h.push owner provider
      · rw [evictForSend_homes]
      · rw [toList_push, (evictForSend_outbox _).2]

def Strands (s : State) (provider : ProviderId) (providerKey : CString) : Prop :=
  ∃ i ∈ conversationIndex s provider providerKey, ∃ slot ∈ s.messages.toList,
    some slot.message.conversationId = s.conversations[i]?.map Conversation.id ∧
      slot.message.conversationId ∉ (s.conversations.eraseIdx i).map Conversation.id

theorem removeConversation_homed (h : Homed s) {provider : ProviderId} {providerKey : CString}
    (calm : ¬Strands s provider providerKey) : Homed (removeConversation s provider providerKey).1 := by
  unfold removeConversation
  cases hi : conversationIndex s provider providerKey with
  | none => exact h
  | some i =>
    refine KeepsHomes.homed ((noteGeneration_homes _).trans (publishEvent_homes _ _ _ _ _ _ _)) ?_
    refine ⟨?_, h.providers, ?_⟩
    · intro home hhome
      obtain ⟨slot, hslot, rfl⟩ := mem_map.mp hhome
      show slot.message.conversationId ∈ (s.conversations.eraseIdx i).map Conversation.id
      have member := h.members _ hhome
      obtain ⟨c, hc, id⟩ := mem_map.mp member
      obtain ⟨j, hj⟩ := getElem?_of_mem hc
      by_cases removed : j = i
      · by_contra stranded
        apply calm
        refine ⟨i, hi, slot, hslot, ?_, stranded⟩
        rw [← removed, hj]
        exact congrArg some id.symm
      · have id : c.id = slot.message.conversationId := id
        rw [← id]
        exact mem_map_of_mem (mem_eraseIdx_iff_getElem?.mpr ⟨j, removed, hj⟩)
    · intro home hhome
      obtain ⟨c, hc, rfl⟩ := mem_map.mp hhome
      exact h.named _ (mem_map_of_mem (mem_of_mem_eraseIdx hc))

section
variable (s : State)

theorem countMessage_homes (slot : Slot) : KeepsHomes s (countMessage s slot) := by
  unfold countMessage
  dsimp only
  split
  · refine KeepsHomes.trans (KeepsHomes.trans ?_ (modifyConversation_homes _ _ ?_)) (modifyConversation_homes _ _ ?_)
    · exact .of_eq rfl rfl
    · intro c
      rfl
    · intro c
      rfl
  · apply modifyConversation_homes
    intro c
    rfl

theorem countMessages_homes (slots : List Slot) (s : State) : KeepsHomes s (slots.foldl countMessage s) := by
  induction slots generalizing s with
  | nil => exact .rfl
  | cons slot slots ih => exact (countMessage_homes s slot).trans (ih _)

theorem recomputeSummaries_homes : KeepsHomes s (recomputeSummaries s) := by
  refine KeepsHomes.trans ?_ (countMessages_homes _ _)
  refine ⟨?_, List.Subset.refl _⟩
  apply Keyed.map_map_keep
  intro c
  rfl

theorem deleteMessage_homes (key : Nat) : KeepsHomes s (deleteMessage s key).1 := by
  unfold deleteMessage
  split
  · exact .rfl
  · cases hi : findMessage s key with
    | none => exact .rfl
    | some i =>
      refine KeepsHomes.trans (KeepsHomes.trans ?_ (recomputeSummaries_homes _))
        ((noteGeneration_homes _).trans (publishEvent_homes _ _ _ _ _ _ _))
      refine ⟨rfl, ?_⟩
      rw [toList_remove _ (findMessage_lt hi)]
      exact map_subset _ (eraseIdx_subset)

theorem clearMessages_homes (provider : ProviderId) : KeepsHomes s (clearMessages s provider).1 := by
  unfold clearMessages
  split
  · exact .rfl
  · dsimp only
    split
    · refine KeepsHomes.trans (KeepsHomes.trans ?_ (recomputeSummaries_homes _))
        ((noteGeneration_homes _).trans (publishEvent_homes _ _ _ _ _ _ _))
      refine ⟨rfl, ?_⟩
      rw [toList_ofList]
      exact map_subset _ (filter_subset_self _)
    · exact .rfl

theorem KeepsHomes.noted {p : Prop} [Decidable p] (h : KeepsHomes s s') : KeepsHomes s (if p then noteGeneration s' else s') := by
  split
  · exact h.trans (noteGeneration_homes s')
  · exact h

theorem readMessages_homes (conversationId : Nat) : KeepsHomes s (readMessages s conversationId).1 := by
  unfold readMessages
  split
  · exact .rfl
  · rename_i index _
    dsimp only
    refine KeepsHomes.noted s (KeepsHomes.trans ?_ (modifyConversation_homes _ (some index) ?_))
    · refine messages_homes rfl rfl (homes_modifyAll fun slot => ?_)
      split <;> rfl
    · exact fun c => rfl

theorem linkProjection_homes (key revision inboxId : Nat) (present : Bool) :
    KeepsHomes s (linkProjection s key revision inboxId present).1 := by
  unfold linkProjection
  cases hi : findMessage s key with
  | none => exact .rfl
  | some i =>
    dsimp only
    split
    · refine messages_homes rfl rfl (homes_modify ?_ (findMessage_lt hi))
      intro slot
      rfl
    · exact .rfl

end

theorem setDelivery_homes {i : Nat} (hi : i < s.messages.count) (delivery : Delivery)
    (error : Option CString) : KeepsHomes s (setDelivery s i delivery error) := by
  refine messages_homes rfl rfl (homes_modify ?_ hi)
  intro slot
  rfl

section
variable (s : State)

theorem cancelOutbound_homes (key : Nat) : KeepsHomes s (cancelOutbound s key).1 := by
  unfold cancelOutbound
  cases hi : findMessage s key with
  | none => exact .rfl
  | some i =>
    dsimp only
    split
    · exact .rfl
    · cases hj : s.outbox.find fun outbound => outbound.messageKey = key with
      | none => exact .rfl
      | some j =>
        have emptied : KeepsHomes s { s with outbox := s.outbox.remove j .blank } := .of_eq rfl rfl
        have delivered := setDelivery_homes (s := { s with outbox := s.outbox.remove j .blank })
          (findMessage_lt hi) .cancelled none
        exact emptied.trans (delivered.trans ((noteGeneration_homes _).trans (publishEvent_homes _ _ _ _ _ _ _)))

theorem updateOutbox_homes (requestId : Nat) (state : Delivery) (error : Option CString) :
    KeepsHomes s (updateOutbox s requestId state error).1 := by
  unfold updateOutbox
  cases hj : s.outbox.find fun outbound => outbound.id = requestId with
  | none => exact .rfl
  | some j =>
    dsimp only
    generalize hu : (if state = .queued then
        { s with outbox := s.outbox.modify j fun o => { o with attempts := (o.attempts + 1) % 2 ^ 8 } }
      else s) = u
    have tried : KeepsHomes s u := by
      rw [← hu]
      split <;> exact .of_eq rfl rfl
    cases hi : findMessage u (s.outbox.entry j).messageKey with
    | none => exact tried
    | some i =>
      apply tried.trans
      refine KeepsHomes.trans ?_ ((noteGeneration_homes _).trans (publishEvent_homes _ _ _ _ _ _ _))
      split
      · exact (setDelivery_homes (findMessage_lt hi) _ _).trans (.of_eq rfl rfl)
      · exact setDelivery_homes (findMessage_lt hi) _ _

theorem clearDiskMapping_homes (diskIndex : Nat) : KeepsHomes s (clearDiskMapping s diskIndex) := by
  refine messages_homes rfl rfl (homes_modifyAll ?_)
  intro slot
  split <;> rfl

theorem finishTombstones_homes (diskIndexes : List (Option Nat)) (error : EspErr) :
    KeepsHomes s (finishTombstones s diskIndexes error) := by
  have cleared : ∀ (places : List Nat) (s : State), KeepsHomes s (places.foldl clearDiskMapping s) := by
    intro places
    induction places with
    | nil => exact fun s => .rfl
    | cons place places ih => exact fun s => (clearDiskMapping_homes s place).trans (ih _)
  unfold finishTombstones
  split
  · exact (cleared _ s).trans (.of_eq rfl rfl)
  · exact .of_eq rfl rfl

theorem beginWrite_homes (key : Nat) : KeepsHomes s (beginWrite s key).1 := by
  unfold beginWrite
  split
  · exact .rfl
  · split <;> exact .of_eq rfl rfl

theorem finishWrite_homes (key : Nat) (pending : PendingWrite) (error : EspErr) :
    KeepsHomes s (finishWrite s key pending error) := by
  unfold finishWrite
  split
  · have cleared := clearDiskMapping_homes s pending.diskIndex
    cases hi : findMessage s key with
    | none => exact cleared.trans (.of_eq rfl rfl)
    | some i =>
      apply cleared.trans
      refine messages_homes rfl rfl (homes_modify ?_ ?_)
      · intro slot
        rfl
      · show i < (s.messages.modifyAll _).count
        rw [count_modifyAll]
        exact findMessage_lt hi
  · exact .of_eq rfl rfl

end

theorem makeRecord_valid (h : Homed s) {slot : Slot} (mem : slot ∈ s.messages.toList) :
    recordValid (makeRecord s slot) = true := by
  have home := mem_map_of_mem (f := Slot.home) mem
  have provider := h.providers _ home
  obtain ⟨c, hc, id⟩ := mem_map.mp (h.members _ home)
  unfold makeRecord
  cases hf : (conversationIdIndex s slot.message.conversationId).bind (s.conversations[·]?) with
  | some conversation =>
    obtain ⟨found, -⟩ := conversationIdIndex_mem hf
    have key := strlcpy_nonempty (h.named _ (mem_map_of_mem found)).2 (show 1 < providerKeyMax by decide)
    have key : (conversation.providerKey.strlcpy providerKeyMax).bytes ≠ [] := key
    have valid : messagingProviderValid slot.message.provider = true := provider
    simp [recordValid, valid, key]
  | none =>
    exfalso
    cases hi : conversationIdIndex s slot.message.conversationId with
    | none => exact Keyed.findIdx?_none hi c hc id
    | some i =>
      obtain ⟨d, hd, -⟩ := Keyed.findIdx?_some hi
      rw [hi, Option.bind_some, hd] at hf
      cases hf

end SolarOs.Messaging
