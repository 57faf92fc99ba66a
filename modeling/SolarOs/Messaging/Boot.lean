import SolarOs.Messaging.Unread

/-! The counters after init: messages are restored into a ring that has room for all of
them, under conversations that draw their first ids. -/
namespace SolarOs.Messaging
open Program List

variable {s s' : State}

/-- After at most `n` restored messages: the ring may hold `m`, and every id in use is
below the next one. -/
structure Booting (n m : Nat) (s : State) : Prop where
  accounted : Accounted s
  positive : 0 < s.nextConversationId
  drawn : s.nextConversationId ≤ n + 1
  ids : ∀ c ∈ s.conversations, c.id < s.nextConversationId
  owners : ∀ slot ∈ s.messages.toList, slot.message.conversationId < s.nextConversationId
  count : s.messages.count ≤ m

theorem initial_accounted : Accounted initial where
  total := rfl
  each c hc := by cases hc
  distinct := nodup_nil

theorem initial_booting (n m : Nat) : Booting n m initial where
  accounted := initial_accounted
  positive := Nat.zero_lt_one
  drawn := Nat.le_add_left 1 n
  ids c hc := by cases hc
  owners slot hslot := by cases hslot
  count := Nat.zero_le m

theorem mem_unreadIds {slots : List Slot} {id : Nat} (h : id ∈ unreadIds slots) :
    ∃ slot ∈ slots, slot.message.conversationId = id := by
  obtain ⟨slot, hslot, hid⟩ := mem_map.mp h
  exact ⟨slot, mem_of_mem_filter hslot, hid⟩

variable {n m : Nat}

theorem Booting.fresh (h : Booting n m s) (small : n < 2 ^ 31) :
    messagingNext 32 s.nextConversationId = (s.nextConversationId, s.nextConversationId + 1) ∧
      FreshId s s.nextConversationId := by
  have hdrawn := h.drawn
  refine ⟨?_, ?_, ?_⟩
  · rw [messagingNext, if_neg (ne_of_gt h.positive), Nat.mod_eq_of_lt (by omega)]
  · intro c hc
    exact ne_of_lt (h.ids c hc)
  · intro used
    obtain ⟨slot, hslot, hid⟩ := mem_unreadIds used
    exact ne_of_lt (h.owners slot hslot) hid

theorem mem_modify {α : Type*} {xs : List α} {i : Nat} {f : α → α} {y : α} (h : y ∈ xs.modify i f) :
    ∃ x ∈ xs, y = x ∨ y = f x := by
  obtain ⟨j, hj⟩ := getElem?_of_mem h
  rw [getElem?_modify] at hj
  obtain ⟨x, hx, rfl⟩ := Option.map_eq_some_iff.mp hj
  refine ⟨x, mem_of_getElem? hx, ?_⟩
  split
  · exact .inr rfl
  · exact .inl rfl

theorem Booting.upsert (h : Booting n m s) (small : n < 2 ^ 31) (request : Upsert) :
    Booting (n + 1) m (upsertConversation s request false).1 ∧
      (upsertConversation s request false).2 < (upsertConversation s request false).1.nextConversationId := by
  obtain ⟨next, fresh⟩ := h.fresh small
  have draws : DrawsFreshId s request := by
    intro _ _
    rw [next]
    exact fresh
  obtain ⟨accounted, -⟩ := upsertConversation_spec h.accounted request false draws
  have hdrawn := h.drawn
  unfold upsertConversation at accounted ⊢
  cases hi : conversationIndex s request.provider request.providerKey with
  | some i =>
    rw [hi] at accounted
    refine ⟨⟨accounted, h.positive, Nat.le_succ_of_le hdrawn, ?_, h.owners, h.count⟩, ?_⟩
    · intro c hc
      obtain ⟨d, hd, same | same⟩ := mem_modify hc
      · exact same ▸ h.ids d hd
      · exact same ▸ h.ids d hd
    · show ((s.conversations[i]?).map Conversation.id).getD 0 < s.nextConversationId
      cases hc : s.conversations[i]? with
      | none => exact h.positive
      | some c => exact h.ids c (mem_of_getElem? hc)
  | none =>
    rw [hi] at accounted
    dsimp only at accounted ⊢
    rw [next] at accounted ⊢
    by_cases full : conversationCapacity ≤ s.conversations.length
    · rw [if_pos full]
      exact ⟨⟨h.accounted, h.positive, Nat.le_succ_of_le hdrawn, h.ids, h.owners, h.count⟩, h.positive⟩
    · rw [if_neg full] at accounted ⊢
      refine ⟨⟨accounted, Nat.succ_pos _, Nat.succ_le_succ hdrawn, ?_, ?_, h.count⟩,
        Nat.lt_succ_self s.nextConversationId⟩
      · intro c hc
        rcases mem_append.mp hc with old | new
        · exact Nat.lt_succ_of_lt (h.ids c old)
        · cases mem_singleton.mp new
          exact Nat.lt_succ_self s.nextConversationId
      · intro slot hslot
        exact Nat.lt_succ_of_lt (h.owners slot hslot)

theorem Booting.restore (h : Booting n m s) (room : m < messageCapacity) (slot : Slot)
    (owner : slot.message.conversationId < s.nextConversationId)
    {f : Conversation → Conversation} (keep : ∀ c, (f c).id = c.id) (count : ∀ c, (f c).unreadCount =
      if slot.message.unread then c.unreadCount + 1 else c.unreadCount) :
    Booting n (m + 1) (modifyConversation (restoreMessage s slot)
      (conversationIdIndex s slot.message.conversationId) f) := by
  have hcount := h.count
  have notFull : s.messages.count ≠ messageCapacity := by omega
  have counts : Counts s (unreadIds s.messages.toList) := h.accounted
  have ring : (restoreMessage s slot).messages.toList = s.messages.toList ++ [slot] := by
    show (s.messages.push slot).toList = _
    rw [SlotRing.toList_push, survivors_of_room notFull]
  have sameCount : (restoreMessage s slot).messages.count ≤ m + 1 := by
    show (s.messages.push slot).count ≤ m + 1
    simp only [SlotRing.push]
    split <;> omega
  have total : (restoreMessage s slot).messageUnread =
      if slot.message.unread then s.messageUnread + 1 else s.messageUnread := by
    simp only [restoreMessage, notFull, false_and, if_false]
  have conversations : (modifyConversation (restoreMessage s slot)
      (conversationIdIndex s slot.message.conversationId) f).conversations =
      (modifyConversation s (conversationIdIndex s slot.message.conversationId) f).conversations := by
    rw [modifyConversation_conversations, modifyConversation_conversations]
    rfl
  have next : (modifyConversation (restoreMessage s slot)
      (conversationIdIndex s slot.message.conversationId) f).nextConversationId =
      s.nextConversationId := by
    unfold modifyConversation
    split <;> rfl
  refine ⟨?_, by rw [next]; exact h.positive, by rw [next]; exact h.drawn, ?_, ?_, ?_⟩
  · unfold Accounted
    rw [modifyConversation_messages, ring, unreadIds_append]
    by_cases unread : slot.message.unread = true
    · have one : unreadIds [slot] = [slot.message.conversationId] := by simp [unreadIds, unread]
      rw [one]
      apply counts.adjust slot.message.conversationId rfl keep
      · rw [modifyConversation_messageUnread, total, if_pos unread, length_append, counts.total]
        rfl
      · exact conversations
      · intro c hc hit
        rw [count, if_pos unread, counts.each c hc, count_append, ← hit, count_singleton_self]
      · intro c _ miss
        rw [count_append, count_singleton]
        simp [Ne.symm miss]
    · have none : unreadIds [slot] = [] := by simp [unreadIds, unread]
      rw [none, append_nil]
      apply counts.touch (conversationIdIndex s slot.message.conversationId) keep
      · intro c
        rw [count, if_neg unread]
      · rw [modifyConversation_messageUnread, total, if_neg unread]
      · exact conversations
  · rw [conversations, modifyConversation_conversations, next]
    intro c hc
    cases hi : conversationIdIndex s slot.message.conversationId with
    | none =>
      rw [hi] at hc
      exact h.ids c hc
    | some i =>
      rw [hi] at hc
      obtain ⟨d, hd, same | same⟩ := mem_modify hc
      · exact same ▸ h.ids d hd
      · rw [same, keep]
        exact h.ids d hd
  · rw [modifyConversation_messages, ring, next]
    intro other hother
    rcases mem_append.mp hother with old | new
    · exact h.owners other old
    · cases mem_singleton.mp new
      exact owner
  · rw [modifyConversation_messages]
    exact sameCount

theorem modifyConversation_id (s : State) (index : Option Nat) : modifyConversation s index (fun c => c) = s := by
  cases index with
  | none => rfl
  | some i =>
    have same : s.conversations.modify i (fun c => c) = s.conversations := modify_id i s.conversations
    simp only [modifyConversation, same]

theorem Booting.mono {n m m' : Nat} (h : Booting n m s) (le : m ≤ m') : Booting n m' s :=
  ⟨h.accounted, h.positive, h.drawn, h.ids, h.owners, le_trans h.count le⟩

theorem Booting.later (h : Booting n m s) (k : Nat) : Booting (n + k) (m + k) s :=
  ⟨h.accounted, h.positive, by have := h.drawn; omega, h.ids, h.owners, by have := h.count; omega⟩

theorem restoreRecord_booting (h : Booting n m s) (small : n < 2 ^ 31) (room : m < messageCapacity)
    (record : Record) (diskIndex : Nat) : Booting (n + 1) (m + 1) (restoreRecord s record diskIndex) := by
  unfold restoreRecord
  obtain ⟨upserted, used⟩ := h.upsert small (recordUpsert record)
  cases hu : upsertConversation s (recordUpsert record) false with
  | mk u id =>
    rw [hu] at upserted used
    cases id with
    | zero => exact upserted.mono (Nat.le_succ m)
    | succ id =>
      exact upserted.restore room
        { message := { record.message with conversationId := id + 1 }
          diskIndex := some diskIndex
          revision := u.generation } used (fun c => rfl) (fun c => rfl)

theorem restoreEntry_booting (h : Booting n m s) (small : n < 2 ^ 31) (room : m < messageCapacity)
    (entry : InboxEntry) : Booting (n + 1) (m + 1) (restoreEntry s entry) := by
  have stay := h.later 1
  unfold restoreEntry
  split
  · exact stay
  · rename_i provider _
    split
    · exact stay
    · obtain ⟨upserted, used⟩ := h.upsert small (inboxUpsert entry provider)
      cases hu : upsertConversation s (inboxUpsert entry provider) false with
      | mk u id =>
        rw [hu] at upserted used
        cases id with
        | zero => exact upserted.mono (Nat.le_succ m)
        | succ id =>
          show Booting (n + 1) (m + 1) (if entry.unread = true then _ else _)
          split
          · rename_i unread
            exact upserted.restore room _ used (f := fun c => { c with unreadCount := c.unreadCount + 1 })
              (fun c => rfl) (fun c => (if_pos unread).symm)
          · rename_i read
            exact (modifyConversation_id _ _).subst (motive := Booting (n + 1) (m + 1))
              (upserted.restore room _ used (f := fun c => c) (fun c => rfl) fun c => (if_neg read).symm)

theorem loadRecords_booting (file : StoreFile) (places : List Nat) (h : Booting n m s)
    (small : n + places.length < 2 ^ 31) (room : m + places.length ≤ messageCapacity) :
    Booting (n + places.length) (m + places.length) (loadRecords file places s).1 := by
  induction places generalizing s n m with
  | nil => exact h
  | cons place places ih =>
    have stay := h.later (place :: places).length
    rw [length_cons] at small room stay ⊢
    unfold loadRecords
    split
    · exact stay
    · rename_i record _
      split
      · exact stay
      · split
        · have next := ih (restoreRecord_booting h (by omega) (by omega) record place) (by omega)
            (by omega)
          rwa [add_right_comm, add_assoc, add_right_comm m, add_assoc m] at next
        · have next := ih (h.later 1) (by omega) (by omega)
          rwa [add_right_comm, add_assoc, add_right_comm m, add_assoc m] at next

theorem restoreInbox_accounted {n : Nat} (entries : List InboxEntry) (h : Booting n 0 s)
    (small : n + entries.length < 2 ^ 31) (room : entries.length ≤ messageCapacity) :
    Accounted (restoreInbox s entries) := by
  have walk : ∀ (entries : List InboxEntry) {s : State} {n m : Nat}, Booting n m s →
      n + entries.length < 2 ^ 31 → m + entries.length ≤ messageCapacity →
      Accounted (entries.foldl restoreEntry s) := by
    intro entries
    induction entries with
    | nil => exact fun h _ _ => h.accounted
    | cons entry entries ih =>
      intro s n m h small room
      rw [length_cons] at small room
      exact ih (restoreEntry_booting h (by omega) (by omega) entry) (by omega) (by omega)
  apply Accounted.congr _ (noteGeneration_same _)
  exact walk entries.reverse h (by rwa [length_reverse]) (by rwa [length_reverse, zero_add])

theorem headerValid_count {header : Header} (h : headerValid header = true) : header.count ≤ messageCapacity := by
  simp only [headerValid, Bool.and_eq_true, decide_eq_true_eq] at h
  omega

theorem newestHeader_valid {file : StoreFile} {header : Header} (h : newestHeader file = some header) :
    headerValid header = true := by
  have valid : ∀ place, (file.headers place).filter headerValid = some header →
      headerValid header = true := by
    intro place hplace
    exact (Option.filter_eq_some_iff.mp hplace).2
  unfold newestHeader at h
  split at h
  · exact valid 1 h
  · rename_i first _ _
    exact valid 0 (by rw [h])
  · rename_i first second hfirst hsecond
    split at h
    · exact valid 1 (hsecond.trans h)
    · exact valid 0 (hfirst.trans h)

theorem storeReset_booting (h : Booting n m s) (capacity : Nat) (written : Bool) :
    Booting n m (storeReset s capacity written).1 := by
  have same : ∀ s' : State, s'.conversations = s.conversations → s'.messages = s.messages →
      s'.messageUnread = s.messageUnread → s'.nextConversationId = s.nextConversationId →
      Booting n m s' := by
    intro s' conversations messages unread next
    refine ⟨h.accounted.congr ⟨conversations, unread, by rw [messages]⟩, ?_, ?_, ?_, ?_, ?_⟩
    · rw [next]
      exact h.positive
    · rw [next]
      exact h.drawn
    · rw [conversations, next]
      exact h.ids
    · rw [messages, next]
      exact h.owners
    · rw [messages]
      exact h.count
  unfold storeReset
  split
  · exact same _ rfl rfl rfl rfl
  · split <;> exact same _ rfl rfl rfl rfl

abbrev State.headed (s : State) (header : Header) : State :=
  { s with
    diskCapacity := header.capacity
    diskHead := header.head
    diskCount := header.count
    diskGeneration := header.generation
    droppedMessages := header.dropped
    nextMessageKey := header.nextMessageKey }

/-- After loading, the counters are right; a store that could not be loaded leaves an
empty ring. -/
theorem storeLoad_booting (boot : Boot) : Booting messageCapacity messageCapacity (storeLoad initial boot).1 ∧
      ((storeLoad initial boot).2 ≠ .ok → Booting messageCapacity 0 (storeLoad initial boot).1) := by
  have empty : Booting messageCapacity 0 initial := initial_booting _ _
  have both : ∀ {r : State × EspErr}, Booting messageCapacity 0 r.1 →
      Booting messageCapacity messageCapacity r.1 ∧ (r.2 ≠ .ok → Booting messageCapacity 0 r.1) :=
    fun h => ⟨h.mono (Nat.zero_le _), fun _ => h⟩
  unfold storeLoad
  split
  · exact both ⟨empty.accounted.congr ⟨rfl, rfl, rfl⟩, empty.positive, empty.drawn, empty.ids,
      empty.owners, empty.count⟩
  · split
    · exact both (storeReset_booting empty _ _)
    · rename_i file _
      split
      · exact both (storeReset_booting empty _ _)
      · rename_i header hheader
        have count := headerValid_count (newestHeader_valid hheader)
        have places : (coveredPlaces header).length = header.count := by
          rw [coveredPlaces, length_map, length_range]
        dsimp only
        have start : Booting 0 0 (initial.headed header) := ⟨initial_accounted.congr ⟨rfl, rfl, rfl⟩, Nat.zero_lt_one, Nat.le_refl 1,
            (initial_booting 0 0).ids, (initial_booting 0 0).owners, Nat.le_refl 0⟩
        have loaded := loadRecords_booting file (coveredPlaces header) start
          (by rw [places, zero_add]; exact lt_of_le_of_lt count (by decide))
          (by rw [places, zero_add]; exact count)
        rw [places, zero_add] at loaded
        have grown : Booting messageCapacity messageCapacity
            (loadRecords file (coveredPlaces header) (initial.headed header)).1 := by
          have := loaded.later (messageCapacity - header.count)
          rwa [Nat.add_sub_cancel' count] at this
        split
        · rename_i s hload
          rw [hload] at grown
          exact ⟨⟨grown.accounted.congr ⟨rfl, rfl, rfl⟩, grown.positive, grown.drawn, grown.ids,
            grown.owners, grown.count⟩, fun no => absurd rfl no⟩
        · rename_i s hload
          rw [hload] at grown
          apply both
          apply storeReset_booting
          refine ⟨⟨rfl, ?_, nodup_nil⟩, grown.positive, grown.drawn, ?_, ?_, Nat.le_refl 0⟩
          · intro c hc
            cases hc
          · intro c hc
            cases hc
          · intro slot hslot
            cases hslot

theorem reconcileInbox_accounted (h : Accounted s) (inInbox : Nat → Nat → Bool) :
    Accounted (reconcileInbox s inInbox) := by
  have marked : Accounted { s with
      messages := s.messages.modifyAll fun slot =>
        if slot.message.inboxId ≠ 0 && !inInbox slot.message.inboxId slot.message.key then
          { slot with
            message := { slot.message with inboxId := 0 }
            revision := (slot.revision + 1) % 2 ^ 32 }
        else slot } := by
    apply h.marks
    · rfl
    · rfl
    · rw [SlotRing.toList_modifyAll]
      apply Keyed.map_map_keep
      intro slot
      split <;> rfl
  unfold reconcileInbox
  dsimp only
  split
  · exact marked.congr (noteGeneration_same _)
  · exact marked

theorem init_accounted (boot : Boot) : Accounted (init boot) := by
  obtain ⟨loaded, failed⟩ := storeLoad_booting boot
  unfold init
  apply reconcileInbox_accounted
  split
  · rename_i s hload
    rw [hload] at loaded
    exact loaded.accounted
  · rename_i s e no hload
    rw [hload] at loaded failed
    split
    · rename_i entries hentries
      have room := boot.inbox_le entries hentries
      apply restoreInbox_accounted entries (failed fun same => ?_)
        (lt_of_le_of_lt (Nat.add_le_add_left room _) (by decide)) room
      exact no same
    · exact loaded.accounted

end SolarOs.Messaging
