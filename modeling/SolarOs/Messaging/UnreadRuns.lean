import SolarOs.Messaging.Boot

/-! The unread counters over whole runs: they are right after init, and they stay right
as long as no sent message overwrites an unread one and new conversations draw new ids. -/
namespace SolarOs.Messaging
open Program

variable {s s' : State}

theorem clearDiskMapping_spec (h : Accounted s) (diskIndex : Nat) : Accounted (clearDiskMapping s diskIndex) := by
  apply h.marks
  · rfl
  · rfl
  · unfold clearDiskMapping
    rw [SlotRing.toList_modifyAll]
    apply Keyed.map_map_keep
    intro slot
    split <;> rfl

theorem finishTombstones_spec (h : Accounted s) (diskIndexes : List (Option Nat)) (error : EspErr) :
    Accounted (finishTombstones s diskIndexes error) := by
  have cleared : ∀ (places : List Nat) (s : State), Accounted s →
      Accounted (places.foldl clearDiskMapping s) := by
    intro places
    induction places with
    | nil => exact fun s h => h
    | cons place places ih => exact fun s h => ih _ (clearDiskMapping_spec h place)
  unfold finishTombstones
  split
  · exact (cleared _ _ h).congr ⟨rfl, rfl, rfl⟩
  · exact h.congr ⟨rfl, rfl, rfl⟩

theorem beginWrite_spec (h : Accounted s) (key : Nat) : Accounted (beginWrite s key).1 := by
  unfold beginWrite
  split
  · exact h
  · split
    · exact h
    · exact h.congr ⟨rfl, rfl, rfl⟩

theorem finishWrite_spec (h : Accounted s) (key : Nat) (pending : PendingWrite) (error : EspErr) :
    Accounted (finishWrite s key pending error) := by
  unfold finishWrite
  split
  · have cleared := clearDiskMapping_spec h pending.diskIndex
    cases hi : findMessage s key with
    | none => exact cleared.congr ⟨rfl, rfl, rfl⟩
    | some i =>
      apply cleared.marks
      · rfl
      · rfl
      · have inside : i < (clearDiskMapping s pending.diskIndex).messages.count := by
          show i < (s.messages.modifyAll _).count
          rw [SlotRing.count_modifyAll]
          exact findMessage_lt hi
        rw [SlotRing.toList_modify _ inside]
        apply Keyed.map_modify
        intro slot
        rfl
  · exact h.congr ⟨rfl, rfl, rfl⟩

/-- What a section needs to keep the counters right. -/
def Orderly {α : Type} : Op α → World → Env → Prop
  | .upsert request, w, _ => DrawsFreshId w.state request
  | .insertInbound request, w, _ =>
    Messaging.findMessage w.state (inboundKey request) = none →
      DrawsFreshId w.state (inboundUpsert request)
  | .commitSend conversationId _ _, w, _ =>
    (Messaging.checkSend w.state conversationId).2.isOk = true → ¬OverwritesUnread w.state
  | _, _, _ => True

instance (s : State) (id : Nat) : Decidable (FreshId s id) := inferInstanceAs (Decidable (_ ∧ _))

instance (s : State) (request : Upsert) : Decidable (DrawsFreshId s request) :=
  inferInstanceAs (Decidable (_ → _ → _))

instance (s : State) : Decidable (OverwritesUnread s) := inferInstanceAs (Decidable (_ ∧ _ ∧ _))

instance {α : Type} (op : Op α) (w : World) (e : Env) : Decidable (Orderly op w e) := by
  apply Op.casesOn (motive := fun _ op => Decidable (Orderly op w e)) op <;> intros <;> dsimp only [Orderly] <;>
    infer_instance

theorem act_keeps_accounted : Keeps act Orderly fun w => Accounted w.state := by
  intro β op w e h orderly
  cases op with
  | upsert request => exact (upsertConversation_spec h request true orderly).1
  | removeConversation provider providerKey => exact removeConversation_spec h provider providerKey
  | insertInbound request => exact insertInbound_spec h request e.tick orderly
  | linkProjection key revision inboxId present =>
    exact linkProjection_spec h key revision inboxId present
  | announce provider conversationId key => exact h.congr (publishEvent_same _ _ _ _ _ _ _)
  | checkSend conversationId => exact h.congr (checkSend_same _ _)
  | commitSend conversationId body allowUntrusted =>
    exact commitSend_spec h conversationId body allowUntrusted e.tick orderly
  | deleteMessage key => exact deleteMessage_spec h key
  | clearMessages provider => exact clearMessages_spec h provider
  | readMessages conversationId => exact readMessages_spec h conversationId
  | cancelOutbound key => exact cancelOutbound_spec h key
  | updateOutbox requestId state error => exact updateOutbox_spec h requestId state error
  | beginWrite key => exact beginWrite_spec h key
  | finishWrite key pending error => exact finishWrite_spec h key pending error
  | finishUpdate error => exact h.congr ⟨rfl, rfl, rfl⟩
  | finishTombstones diskIndexes error => exact finishTombstones_spec h diskIndexes error
  | _ => exact h

structure UnreadCounted (s : State) : Prop where
  total : s.messageUnread = s.messages.toList.countP fun slot => slot.message.unread
  each : ∀ c ∈ s.conversations, c.unreadCount = s.messages.toList.countP fun slot =>
    slot.message.unread && slot.message.conversationId = c.id

theorem Accounted.counted (h : Accounted s) : UnreadCounted s where
  total := by
    rw [h.total, unreadIds, List.length_map, List.countP_eq_length_filter]
  each c hc := by
    rw [h.each c hc, ← length_read, List.countP_eq_length_filter]
    congr 1
    apply List.filter_congr
    intro slot _
    exact Bool.and_comm _ _

def OrderlyCall (w : World) (c : Call × (Nat → Env)) : Prop := Meets act Orderly c.1.body w c.2

instance (w : World) (c : Call × (Nat → Env)) : Decidable (OrderlyCall w c) :=
  decideMeets act Orderly (fun _ _ _ => inferInstance) c.1.body w c.2

/-- The counters are right after any calls, from any start, as long as no sent message
overwrites an unread message of a conversation and no new conversation draws an id that
is still in use. -/
theorem unread_counted (boot : Boot) (file : StoreFile) (calls : List (Call × (Nat → Env)))
    (orderly : Machine.Admits runCall OrderlyCall ⟨init boot, file, false⟩ calls) :
    UnreadCounted (Machine.run runCall ⟨init boot, file, false⟩ calls).state := by
  apply Accounted.counted
  apply Machine.run_induct (P := fun w => Accounted w.state) _ (init_accounted boot) orderly
  intro w c h hc
  exact finish_keeps act_keeps_accounted h hc

/-- A start without a card and without a persistent inbox. -/
def bareBoot : Boot where
  reachable := false
  file := none
  capacity := 0
  capacity_le := Nat.zero_le _
  written := false
  inbox := none
  inbox_le := nofun
  inInbox _ _ := false

def bareFile : StoreFile where
  headers _ := none
  records _ := none

/-- Every operation succeeds, and the inbox takes nothing. -/
def calm : Env where
  tick := 0
  endpoint := .ok .trusted
  published := .error .noMem
  present := false
  removed := .ok
  memory := true
  done := true
  landed := .new

def lobby : CString := ⟨[0x6C, 0x6F, 0x62, 0x62, 0x79], by decide⟩

def office : CString := ⟨[0x6F, 0x66, 0x66, 0x69, 0x63, 0x65], by decide⟩

/-- A message in the lobby. -/
def notice (number : Nat) : Inbound where
  provider := providerGateway
  conversationKey := lobby
  conversationKind := .room
  conversationTitle := none
  contactId := 0
  endpointId := 0
  groupRef := 0
  providerMessageKey := number
  timestampMs := 0
  securityFlags := 0
  sender := none
  body := office
  truncated := false

def openOffice : Upsert where
  provider := providerGateway
  providerKey := office
  kind := .room
  title := none
  contactId := 0
  endpointId := 0
  groupRef := 0
  securityFlags := 0

def noticesAndReply (notices : Nat) : List (Call × (Nat → Env)) :=
  (List.range notices).map (fun i => (Call.publishInbound (notice (i + 1)), fun _ => calm)) ++
    [(.conversationUpsert openOffice, fun _ => calm), (.send 2 lobby false, fun _ => calm)]

theorem unread_counted_reply :
    UnreadCounted (Machine.run runCall ⟨init bareBoot, bareFile, false⟩ (noticesAndReply 3)).state :=
  unread_counted bareBoot bareFile (noticesAndReply 3) (by decide)

/-- With a full ring of unread messages, the reply overwrites one of them and leaves the
counter of the lobby one too high. -/
theorem send_miscounts : ¬∀ (boot : Boot) (file : StoreFile) (calls : List (Call × (Nat → Env))),
    UnreadCounted (Machine.run runCall ⟨init boot, file, false⟩ calls).state := by
  intro always
  have each := (always bareBoot bareFile (noticesAndReply messageCapacity)).each
  exact absurd each (by decide +kernel)

end SolarOs.Messaging
