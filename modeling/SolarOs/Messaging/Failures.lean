import SolarOs.Messaging.OutboxRuns

/-! Publishing and sending that fail: what is left in memory when the history file cannot
be written, and what the next attempt makes of it. -/
namespace SolarOs.Messaging
open Program List SlotRing

variable {s : State} {w : World}

section
variable (s : State)

def HasRoom (request : Upsert) : Prop :=
  match conversationIndex s request.provider request.providerKey with
  | some index => (s.conversations[index]?.map Conversation.id).getD 0 ≠ 0
  | none => s.conversations.length < conversationCapacity

/-- The four file operations of a write succeed, from operation `first` on. -/
def WritesDone (env : Nat → Env) (first : Nat) : Prop := ∀ i < 4, (env (first + i)).done = true

/-- The publication gets as far as to put its message into the ring. -/
structure Inserts (request : Inbound) (env : Nat → Env) : Prop where
  valid : inboundValid request = true
  fresh : findMessage s (inboundKey request) = none
  endpoint : request.endpointId ≠ 0 → ∃ trust, (env 1).endpoint = .ok trust ∧ trust ≠ .blocked
  room : HasRoom s (inboundUpsert request)

def PublishStored (request : Inbound) (env : Nat → Env) : Prop :=
  Inserts s request env → s.persistent = true →
    s.diskCapacity ≠ 0 ∧ WritesDone env (if request.endpointId = 0 then 4 else 6)

def AsksEndpoint (conversation : Conversation) : Prop :=
  conversation.kind = .direct ∧ conversation.endpointId ≠ 0

instance (conversation : Conversation) : Decidable (AsksEndpoint conversation) :=
  inferInstanceAs (Decidable (_ ∧ _))

/-- What a send makes of the reply about the endpoint. -/
def endpointVerdict (conversation : Conversation) (allowUntrusted : Bool)
    (reply : Except EspErr Trust) : EspErr :=
  if AsksEndpoint conversation then
    match reply with
    | .error e => e
    | .ok trust =>
      if trust = .blocked ∨ (trust = .discovered ∧ allowUntrusted = false) then .invalidState else .ok
  else .ok

structure Accepts (conversationId : Nat) (body : CString) (allowUntrusted : Bool)
    (env : Nat → Env) (conversation : Conversation) : Prop where
  valid : conversationId ≠ 0 ∧ messagingTextValid body bodyMax false = true
  known : (conversationIdIndex s conversationId).bind (s.conversations[·]?) = some conversation
  room : s.outbox.count < outboxCapacity
  endpoint : endpointVerdict conversation allowUntrusted (env 1).endpoint = .ok

def SendStored (conversationId : Nat) (body : CString) (allowUntrusted : Bool)
    (env : Nat → Env) : Prop :=
  ∀ conversation, Accepts s conversationId body allowUntrusted env conversation →
    s.persistent = true →
      s.diskCapacity ≠ 0 ∧ WritesDone env (if AsksEndpoint conversation then 6 else 5)

structure NothingAdded (s s' : State) : Prop where
  messages : s'.messages = s.messages
  outbox : s'.outbox = s.outbox

def Announced (key : Nat) : Prop :=
  ∃ event, s.events.toList.getLast? = some event ∧ event.type = .message ∧ event.messageKey = key

end

def Honest (env : Nat → Env) : Prop := ∀ n, (env n).endpoint ≠ .error .ok

/-- A publication that fails adds nothing, and the next attempt is not taken for a duplicate. -/
def PublishAtomic (w : World) (request : Inbound) (env : Nat → Env) : Prop :=
  let first := finish act (publishInbound request) w env
  first.2 ≠ .ok →
    NothingAdded w.state first.1.state ∧
      ∀ later, Honest later →
        let again := finish act (publishInbound request) first.1 later
        again.2 = .ok → Announced again.1.state (inboundKey request)

/-- A send that fails adds nothing, and the next attempt queues the message once. -/
def SendAtomic (w : World) (conversationId : Nat) (body : CString) (allowUntrusted : Bool)
    (env : Nat → Env) : Prop :=
  let first := finish act (send conversationId body allowUntrusted) w env
  first.2 ≠ .ok →
    NothingAdded w.state first.1.state ∧
      ∀ later,
        let again := finish act (send conversationId body allowUntrusted) first.1 later
        again.2 = .ok → Queues w.state again.1.state conversationId body

theorem NothingAdded.rfl : NothingAdded s s := ⟨Eq.refl _, Eq.refl _⟩

theorem upsertConversation_room (s : State) (request : Upsert) (event : Bool) :
    (upsertConversation s request event).2 ≠ 0 ↔ HasRoom s request := by
  unfold upsertConversation HasRoom
  cases conversationIndex s request.provider request.providerKey with
  | some index => exact Iff.rfl
  | none =>
    dsimp only
    split
    · rename_i full
      exact ⟨fun h => absurd rfl h, fun h => absurd h (Nat.not_lt.mpr full)⟩
    · rename_i room
      exact ⟨fun _ => Nat.lt_of_not_le room, fun _ => messagingNext_pos _ _⟩

theorem upsertConversation_store (s : State) (request : Upsert) (event : Bool) :
    (upsertConversation s request event).1.persistent = s.persistent ∧
      (upsertConversation s request event).1.diskCapacity = s.diskCapacity := by
  unfold upsertConversation
  dsimp only
  split
  · cases event <;> exact ⟨rfl, rfl⟩
  · split
    · exact ⟨rfl, rfl⟩
    · cases event <;> exact ⟨rfl, rfl⟩

theorem findMessage_tag {key : Nat} : (findMessage s key).isSome = true ↔
    ∃ tag ∈ s.messages.toList.map Slot.tag, tag.1 = key := by
  rw [findMessage, find_eq, findIdx?_isSome, any_eq_true]
  simp [Slot.tag]

structure Holds (s s' : State) (key : Nat) : Prop where
  found : (findMessage s' key).isSome = true
  persistent : s'.persistent = s.persistent
  diskCapacity : s'.diskCapacity = s.diskCapacity

theorem modifyConversation_store (s : State) (index : Option Nat) (f : Conversation → Conversation) :
    (modifyConversation s index f).persistent = s.persistent ∧
      (modifyConversation s index f).diskCapacity = s.diskCapacity := by
  unfold modifyConversation
  split <;> exact ⟨rfl, rfl⟩

theorem evictForInbound_store (s : State) : (evictForInbound s).persistent = s.persistent ∧
      (evictForInbound s).diskCapacity = s.diskCapacity := by
  unfold evictForInbound
  split
  · dsimp only
    split
    · exact modifyConversation_store _ _ _
    · exact ⟨rfl, rfl⟩
  · exact ⟨rfl, rfl⟩

theorem evictForSend_store (s : State) :
    (evictForSend s).persistent = s.persistent ∧ (evictForSend s).diskCapacity = s.diskCapacity := by
  unfold evictForSend
  split <;> exact ⟨rfl, rfl⟩

theorem insertInbound_outcome (s : State) (request : Inbound) (tick : Nat) : match (insertInbound s request tick).2 with
    | .duplicate => (findMessage s (inboundKey request)).isSome = true
    | .full => ¬HasRoom s (inboundUpsert request) ∧ NothingAdded s (insertInbound s request tick).1
    | .inserted _ _ => findMessage s (inboundKey request) = none ∧ HasRoom s (inboundUpsert request) ∧
        Holds s (insertInbound s request tick).1 (inboundKey request) := by
  unfold insertInbound
  by_cases found : (findMessage s (inboundKey request)).isSome = true
  · rw [if_pos found]
    exact found
  · rw [if_neg found]
    have room := upsertConversation_room s (inboundUpsert request) false
    have store := upsertConversation_store s (inboundUpsert request) false
    obtain ⟨same, ring⟩ := upsertConversation_outbox s (inboundUpsert request) false
    cases hu : upsertConversation s (inboundUpsert request) false with
    | mk u conversationId =>
      rw [hu] at room store same ring
      cases conversationId with
      | zero => exact ⟨fun has => room.mpr has rfl, ring, same.outbox⟩
      | succ n =>
        refine ⟨by simpa using found, room.mp (Nat.succ_ne_zero n), ?_, ?_, ?_⟩
        · apply findMessage_tag.mpr
          refine ⟨(inboundKey request, request.provider), ?_, rfl⟩
          show _ ∈ (modifyConversation _ _ _).messages.toList.map Slot.tag
          rw [modifyConversation_messages, toList_push, map_append]
          exact mem_append_right _ mem_cons_self
        · exact (modifyConversation_store _ _ _).1.trans ((evictForInbound_store u).1.trans store.1)
        · exact (modifyConversation_store _ _ _).2.trans ((evictForInbound_store u).2.trans store.2)

theorem writesDone_iff {env : Nat → Env} {first : Nat} :
    WritesDone env first ↔ (env first).done = true ∧ (env (first + 1)).done = true ∧
      (env (first + 2)).done = true ∧ (env (first + 3)).done = true := by
  constructor
  · intro h
    exact ⟨h 0 (by decide), h 1 (by decide), h 2 (by decide), h 3 (by decide)⟩
  · rintro ⟨first, second, third, fourth⟩ i hi
    match i, hi with
    | 0, _ => exact first
    | 1, _ => exact second
    | 2, _ => exact third
    | 3, _ => exact fourth

/-- Between taking the place and noting the result, a write opens the file, writes the record
and the header, and closes the file. -/
def writeFile (pending : PendingWrite) : Prog EspErr := do
  if ← invoke .openStore then
    let error ← (do
      if ← invoke (.writeRecord pending.diskIndex pending.record) then
        if ← invoke (.writeHeader (pending.header.generation % storeHeaderCopies) pending.header) then
          return .ok
        else
          return .fail
      else
        return .fail)
    closing error
  else
    return .fail

theorem invoke_bind_bind {α β γ : Type} (op : Op α) (g : α → Prog β) (f : β → Prog γ) :
    (invoke op >>= g) >>= f = invoke op >>= fun reply => g reply >>= f := rfl

theorem writeFile_ok (pending : PendingWrite) (w : World) (env : Nat → Env) :
    (finish act (writeFile pending) w env).2 = .ok ↔ WritesDone env 0 := by
  rw [writesDone_iff]
  unfold writeFile
  rw [finish_invoke_bind]
  have opened : (act .openStore w (env 0)).2 = (env 0).done := rfl
  rw [opened]
  cases (env 0).done with
  | false => exact ⟨nofun, nofun⟩
  | true =>
    rw [if_pos rfl, invoke_bind_bind, finish_invoke_bind]
    have recorded : ∀ w, (act (.writeRecord pending.diskIndex pending.record) w (env (0 + 1))).2 =
        (env 1).done := fun _ => rfl
    rw [recorded]
    cases (env 1).done with
    | false => exact ⟨nofun, fun h => nomatch h.2.1⟩
    | true =>
      rw [if_pos rfl, invoke_bind_bind, finish_invoke_bind]
      have headed : ∀ w, (act (.writeHeader (pending.header.generation % storeHeaderCopies)
          pending.header) w (env (0 + 1 + 1))).2 = (env 2).done := fun _ => rfl
      rw [headed]
      cases (env 2).done with
      | false => exact ⟨nofun, fun h => nomatch h.2.2.1⟩
      | true =>
        rw [if_pos rfl]
        show (if EspErr.ok = .ok ∧ (env 3).done = false then EspErr.fail else .ok) = .ok ↔ _
        cases (env 3).done <;> simp

theorem storeWrite_ok {key : Nat} (found : (findMessage w.state key).isSome = true)
    (persistent : w.state.persistent = true) (env : Nat → Env) :
    (finish act (storeWrite key) w env).2 = .ok ↔ w.state.diskCapacity ≠ 0 ∧ WritesDone env 2 := by
  obtain ⟨i, hi⟩ := Option.isSome_iff_exists.mp found
  unfold storeWrite
  rw [finish_invoke_bind, finish_invoke_bind]
  have begun : (act (.beginWrite key) (act .takeIo w (env 0)).1 (env (0 + 1))).2 = (beginWrite w.state key).2 := rfl
  rw [begun]
  by_cases empty : w.state.diskCapacity = 0
  · have refused : (beginWrite w.state key).2 = none := by
      unfold beginWrite
      rw [hi]
      dsimp only
      rw [if_pos (.inr empty)]
    rw [refused]
    exact ⟨nofun, fun h => absurd empty h.1⟩
  · obtain ⟨pending, taken⟩ : ∃ pending, (beginWrite w.state key).2 = some pending := by
      unfold beginWrite
      rw [hi]
      dsimp only
      rw [if_neg (by simp [persistent, empty])]
      exact ⟨_, rfl⟩
    rw [taken]
    obtain ⟨later, ended⟩ := @finish_bind _ _ _ _ _ act (writeFile pending) (fun error => do
        invoke (.finishWrite key pending error)
        invoke .giveIo
        return error)
      (act (.beginWrite key) (act .takeIo w (env 0)).1 (env (0 + 1))).1 (fun n => env (n + 1 + 1))
    have result := congrArg Prod.snd ended
    refine Iff.trans (Eq.congr result rfl) ?_
    have done := writeFile_ok pending
      (act (.beginWrite key) (act .takeIo w (env 0)).1 (env (0 + 1))).1 fun n => env (n + 1 + 1)
    rw [writesDone_iff] at done ⊢
    exact done.trans ⟨fun h => ⟨empty, h⟩, fun h => h.2⟩

theorem Holds.kept {s' s'' : State} {key : Nat} (h : Holds s s' key) (same : SameOutbox s' s'')
    (fresh : findMessage s key = none) : ¬NothingAdded s s'' := by
  intro nothing
  obtain ⟨tag, mem, hkey⟩ := findMessage_tag.mp h.found
  rw [← same.tags, nothing.messages] at mem
  have found := findMessage_tag.mpr ⟨tag, mem, hkey⟩
  rw [fresh] at found
  cases found

section Publish

variable (request : Inbound) (w : World) (env : Nat → Env)

theorem insertAndAnnounce_inserted {conversationId revision : Nat}
    (inserted : (insertInbound w.state request (env 0).tick).2 = .inserted conversationId revision) :
    finish act (insertAndAnnounce request) w env =
      finish act (do
        let error ← (do
          if ← invoke .isPersistent then
            storeWrite (inboundKey request)
          else
            return .ok)
        if error = .ok then
          publishInboxProjection request (inboundKey request) revision
          invoke (.announce request.provider conversationId (inboundKey request))
          return .ok
        else
          return error) { w with state := (insertInbound w.state request (env 0).tick).1 }
        fun n => env (n + 1) := by
  unfold insertAndAnnounce
  rw [finish_invoke_bind]
  have outcome : (act (.insertInbound request) w (env 0)).2 = (insertInbound w.state request (env 0).tick).2 := rfl
  rw [outcome, inserted]
  rfl

theorem storeIfPersistent_ok {key : Nat} {w : World} (found : (findMessage w.state key).isSome = true)
    (env : Nat → Env) :
    (finish act (do
        if ← invoke .isPersistent then
          storeWrite key
        else
          return .ok : Prog EspErr) w env).2 = .ok ↔
      (w.state.persistent = true → w.state.diskCapacity ≠ 0 ∧ WritesDone env 3) := by
  rw [finish_invoke_bind]
  have asked : (act .isPersistent w (env 0)).2 = w.state.persistent := rfl
  rw [asked]
  cases persistent : w.state.persistent with
  | false => exact ⟨fun _ => nofun, fun _ => rfl⟩
  | true =>
    rw [if_pos rfl]
    have done := storeWrite_ok found persistent fun n => env (n + 1)
    rw [writesDone_iff] at done ⊢
    exact done.trans ⟨fun h _ => h, fun h => h rfl⟩

theorem storeIfPersistent_aside (key : Nat) : Only Aside (do
    if ← invoke .isPersistent then
      storeWrite key
    else
      return .ok : Prog EspErr) := by
  refine ⟨trivial, fun persistent => ?_⟩
  cases persistent with
  | false => trivial
  | true => exact storeWrite_aside key

variable {final : World × EspErr}

theorem finish_announce {α : Type} (p : Prog α) (provider : ProviderId) (conversationId key : Nat)
    (result : EspErr)
    (h : finish act (do
      let _ ← p
      invoke (.announce provider conversationId key)
      return result : Prog EspErr) w env = final) :
    final.2 = result ∧ Announced final.1.state key := by
  obtain ⟨later, ended⟩ := @finish_bind _ _ _ _ _ act p (fun _ => do
    invoke (.announce provider conversationId key)
    return result) w env
  rw [← h, ended]
  refine ⟨rfl, ⟨(messagingNext 32 (finish act p w env).1.state.nextEventId).1, .message, provider,
    conversationId, key, .received, .ok⟩, ?_, rfl, rfl⟩
  show (push _ _).toList.getLast? = _
  rw [toList_push, getLast?_append]
  rfl

theorem insertAndAnnounce_after {conversationId revision : Nat}
    (inserted : (insertInbound w.state request (env 0).tick).2 = .inserted conversationId revision)
    (fresh : findMessage w.state (inboundKey request) = none)
    (holds : Holds w.state (insertInbound w.state request (env 0).tick).1 (inboundKey request))
    (h : finish act (insertAndAnnounce request) w env = final) : (final.2 = .ok ↔
        (w.state.persistent = true → w.state.diskCapacity ≠ 0 ∧ WritesDone env 4)) ∧
      (final.2 = .ok → Announced final.1.state (inboundKey request)) ∧
        (final.2 ≠ .ok → ¬NothingAdded w.state final.1.state) := by
  rw [insertAndAnnounce_inserted request w env inserted] at h
  have stored := storeIfPersistent_ok (w := { w with
    state := (insertInbound w.state request (env 0).tick).1 }) holds.found fun n => env (n + 1)
  have same := aside_outbox (storeIfPersistent_aside (inboundKey request)) { w with
    state := (insertInbound w.state request (env 0).tick).1 } fun n => env (n + 1)
  rw [holds.persistent, holds.diskCapacity] at stored
  obtain ⟨later, ended⟩ := @finish_bind _ _ _ _ _ act (do
      if ← invoke .isPersistent then
        storeWrite (inboundKey request)
      else
        return .ok : Prog EspErr) (fun error => do
      if error = .ok then
        publishInboxProjection request (inboundKey request) revision
        invoke (.announce request.provider conversationId (inboundKey request))
        return .ok
      else
        return error)
    { w with state := (insertInbound w.state request (env 0).tick).1 } fun n => env (n + 1)
  rw [ended] at h
  generalize finish act (do
      if ← invoke .isPersistent then
        storeWrite (inboundKey request)
      else
        return .ok : Prog EspErr) { w with
    state := (insertInbound w.state request (env 0).tick).1 } (fun n => env (n + 1)) = written
    at stored same h
  obtain ⟨w', error⟩ := written
  have writes : WritesDone (fun n => env (n + 1)) 3 ↔ WritesDone env 4 := by
    rw [writesDone_iff, writesDone_iff]
  rw [writes] at stored
  by_cases done : error = .ok
  · rw [if_pos done] at h
    obtain ⟨result, announced⟩ := finish_announce w' later
      (publishInboxProjection request (inboundKey request) revision) _ _ _ _ h
    exact ⟨iff_of_true result (stored.mp done), fun _ => announced, fun failed => absurd result failed⟩
  · rw [if_neg done] at h
    rw [← h]
    exact ⟨iff_of_false done fun fits => done (stored.mpr fits), fun result => absurd result done,
      fun _ => holds.kept same fresh⟩

/-- From the insertion on, a publication fails cleanly just when the file takes what it inserts,
and one that does not find its message announces it. -/
theorem insertAndAnnounce_atomic (h : finish act (insertAndAnnounce request) w env = final) :
    ((final.2 ≠ .ok → NothingAdded w.state final.1.state) ↔
      (findMessage w.state (inboundKey request) = none → HasRoom w.state (inboundUpsert request) →
        w.state.persistent = true → w.state.diskCapacity ≠ 0 ∧ WritesDone env 4)) ∧
      (final.2 = .ok → findMessage w.state (inboundKey request) = none →
        Announced final.1.state (inboundKey request)) ∧
      (final.2 ≠ .ok → findMessage w.state (inboundKey request) = none) := by
  have outcome := insertInbound_outcome w.state request (env 0).tick
  cases ho : (insertInbound w.state request (env 0).tick).2 with
  | duplicate =>
    rw [ho] at outcome
    have result : final.2 = .ok := by
      rw [← h]
      unfold insertAndAnnounce
      rw [finish_invoke_bind]
      have reply : (act (.insertInbound request) w (env 0)).2 = .duplicate := ho
      rw [reply]
      rfl
    have known : findMessage w.state (inboundKey request) ≠ none := by
      intro fresh
      rw [fresh] at outcome
      cases outcome
    exact ⟨⟨fun _ fresh => absurd fresh known, fun _ failed => absurd result failed⟩,
      fun _ fresh => absurd fresh known, fun failed => absurd result failed⟩
  | full =>
    rw [ho] at outcome
    have fresh : findMessage w.state (inboundKey request) = none := by
      unfold insertInbound at ho
      split at ho
      · cases ho
      · rename_i new
        simpa using new
    have ended : final =
        ({ w with state := (insertInbound w.state request (env 0).tick).1 }, .noMem) := by
      rw [← h]
      unfold insertAndAnnounce
      rw [finish_invoke_bind]
      have reply : (act (.insertInbound request) w (env 0)).2 = .full := ho
      rw [reply]
      rfl
    rw [ended]
    exact ⟨⟨fun _ _ room => absurd room outcome.1, fun _ _ => outcome.2⟩, nofun, fun _ => fresh⟩
  | inserted conversationId revision =>
    rw [ho] at outcome
    obtain ⟨fresh, room, holds⟩ := outcome
    obtain ⟨result, announced, failed⟩ := insertAndAnnounce_after request w env ho fresh holds h
    refine ⟨⟨fun clean _ _ => ?_, fun fits bad => absurd (result.mpr (fits fresh room)) bad⟩,
      fun done _ => announced done, fun _ => fresh⟩
    apply result.mp
    by_contra bad
    exact failed bad (clean bad)

def lookups (request : Inbound) : Nat := if request.endpointId = 0 then 0 else 2

structure Stops (w : World) (request : Inbound) (env : Nat → Env) (error : EspErr) : Prop where
  final : finish act (publishInbound request) w env = (w, error)
  without : ¬Inserts w.state request env
  duplicate : error = .ok → Honest env →
    inboundValid request = true ∧ (findMessage w.state (inboundKey request)).isSome = true
  fresh : error ≠ .ok → inboundValid request = true → findMessage w.state (inboundKey request) = none

structure Goes (w : World) (request : Inbound) (env : Nat → Env) : Prop where
  valid : inboundValid request = true
  final : finish act (publishInbound request) w env =
    finish act (insertAndAnnounce request) w fun n => env (n + lookups request)
  inserts : Inserts w.state request env ↔
    findMessage w.state (inboundKey request) = none ∧ HasRoom w.state (inboundUpsert request)

theorem publishInbound_route : (∃ error, Stops w request env error) ∨ Goes w request env := by
  by_cases valid : inboundValid request = true
  · by_cases local_ : request.endpointId = 0
    · right
      refine ⟨valid, ?_, fun h => ⟨h.fresh, h.room⟩, fun h => ⟨valid, h.1, fun asks => absurd local_ asks, h.2⟩⟩
      rw [lookups, if_pos local_]
      unfold publishInbound
      rw [if_pos valid, if_pos local_]
      rfl
    · have found : (act (.findMessage (inboundKey request)) w (env 0)).2 =
          (findMessage w.state (inboundKey request)).isSome := rfl
      cases hfound : (findMessage w.state (inboundKey request)).isSome with
      | true =>
        refine .inl ⟨.ok, ?_, ?_, fun _ _ => ⟨valid, hfound⟩, fun bad => absurd rfl bad⟩
        · unfold publishInbound
          rw [if_pos valid, if_neg local_, finish_invoke_bind, found, hfound]
          rfl
        · intro h
          rw [h.fresh] at hfound
          cases hfound
      | false =>
        have fresh : findMessage w.state (inboundKey request) = none := by simpa using hfound
        have asked : finish act (publishInbound request) w env =
            finish act (match (env 1).endpoint with
              | .error e => return e
              | .ok trust =>
                if trust = .blocked then return .invalidState else insertAndAnnounce request) w
              fun n => env (n + 2) := by
          unfold publishInbound
          rw [if_pos valid, if_neg local_, finish_invoke_bind, found, hfound, if_neg nofun, finish_invoke_bind]
          rfl
        cases hreply : (env 1).endpoint with
        | error e =>
          rw [hreply] at asked
          refine .inl ⟨e, asked, ?_, ?_, fun _ _ => fresh⟩
          · intro h
            obtain ⟨trust, known, -⟩ := h.endpoint local_
            rw [hreply] at known
            cases known
          · rintro rfl honest
            exact absurd hreply (honest 1)
        | ok trust =>
          rw [hreply] at asked
          dsimp only at asked
          by_cases blocked : trust = .blocked
          · rw [if_pos blocked] at asked
            refine .inl ⟨.invalidState, asked, ?_, nofun, fun _ _ => fresh⟩
            intro h
            obtain ⟨other, known, allowed⟩ := h.endpoint local_
            rw [hreply] at known
            cases known
            exact allowed blocked
          · rw [if_neg blocked] at asked
            right
            refine ⟨valid, ?_, fun h => ⟨h.fresh, h.room⟩,
              fun h => ⟨valid, h.1, fun _ => ⟨trust, hreply, blocked⟩, h.2⟩⟩
            rw [lookups, if_neg local_]
            exact asked
  · refine .inl ⟨.invalidArg, ?_, fun h => valid h.valid, nofun, fun _ h => absurd h valid⟩
    unfold publishInbound
    rw [if_neg valid]
    rfl

theorem publishInbound_announced (honest : Honest env)
    (fresh : inboundValid request = true → findMessage w.state (inboundKey request) = none)
    (h : finish act (publishInbound request) w env = final) (done : final.2 = .ok) :
    Announced final.1.state (inboundKey request) := by
  rcases publishInbound_route request w env with ⟨error, stops⟩ | goes
  · rw [stops.final] at h
    subst h
    obtain ⟨valid, found⟩ := stops.duplicate done honest
    rw [fresh valid] at found
    cases found
  · rw [goes.final] at h
    exact (insertAndAnnounce_atomic request w _ h).2.1 done (fresh goes.valid)

theorem publishInbound_atomic : PublishAtomic w request env ↔ PublishStored w.state request env := by
  rcases publishInbound_route request w env with ⟨error, stops⟩ | goes
  · refine iff_of_true ?_ fun inserts => absurd inserts stops.without
    unfold PublishAtomic
    rw [stops.final]
    intro first failed
    exact ⟨.rfl, fun later honest done =>
      publishInbound_announced request w later honest (stops.fresh failed) rfl done⟩
  · have atomic := insertAndAnnounce_atomic request w _ goes.final.symm
    have writes : WritesDone (fun n => env (n + lookups request)) 4 ↔
        WritesDone env (if request.endpointId = 0 then 4 else 6) := by
      rw [writesDone_iff, writesDone_iff, lookups]
      split <;> exact Iff.rfl
    rw [writes] at atomic
    obtain ⟨clean, -, fresh⟩ := atomic
    constructor
    · intro h inserts
      obtain ⟨new, room⟩ := goes.inserts.mp inserts
      exact clean.mp (fun failed => (h failed).1) new room
    · intro fits failed
      have nothing := clean.mpr (fun new room => fits (goes.inserts.mpr ⟨new, room⟩)) failed
      refine ⟨nothing, fun later honest done => ?_⟩
      refine publishInbound_announced request _ later honest (fun _ => ?_) rfl done
      unfold findMessage
      rw [nothing.messages]
      exact fresh failed

end Publish

section Send

variable (conversationId : Nat) (body : CString) (allowUntrusted : Bool) (w : World)
  (env : Nat → Env)

theorem endpointAllows_bind {α : Type} (conversation : Conversation) (f : EspErr → Prog α) :
    finish act (endpointAllows conversation allowUntrusted >>= f) w env =
      finish act (f (endpointVerdict conversation allowUntrusted (env 0).endpoint)) w
        fun n => env (n + if AsksEndpoint conversation then 1 else 0) := by
  unfold endpointAllows endpointVerdict
  by_cases asks : conversation.kind = .direct ∧ conversation.endpointId ≠ 0
  · have looked : AsksEndpoint conversation := asks
    rw [if_pos asks, if_pos looked, if_pos looked, invoke_bind_bind, finish_invoke_bind]
    have reply : (act (.getEndpoint conversation.endpointId) w (env 0)).2 = (env 0).endpoint := rfl
    rw [reply]
    cases (env 0).endpoint with
    | error e => rfl
    | ok trust =>
      dsimp only
      split <;> rfl
  · have skipped : ¬AsksEndpoint conversation := asks
    rw [if_neg asks, if_neg skipped, if_neg skipped]
    rfl

variable {conversation : Conversation}

theorem checkSend_known {s : State} {conversationId : Nat} : (checkSend s conversationId).2 = .ok conversation ↔
      (conversationIdIndex s conversationId).bind (s.conversations[·]?) = some conversation ∧
        s.outbox.count < outboxCapacity := by
  unfold checkSend
  cases (conversationIdIndex s conversationId).bind (s.conversations[·]?) with
  | none => exact ⟨nofun, fun h => nomatch h.1⟩
  | some known =>
    dsimp only
    split
    · rename_i full
      exact ⟨nofun, fun h => absurd h.2 (Nat.not_lt.mpr full)⟩
    · rename_i room
      constructor
      · intro h
        cases h
        exact ⟨rfl, Nat.lt_of_not_le room⟩
      · rintro ⟨same, -⟩
        cases same
        rfl

theorem checkSend_messages (s : State) (conversationId : Nat) : NothingAdded s (checkSend s conversationId).1 := by
  unfold checkSend
  split
  · exact .rfl
  · split <;> exact ⟨rfl, rfl⟩

theorem commitSend_commits {s : State} (allowed : (checkSend s conversationId).2 = .ok conversation) (tick : Nat) :
    ∃ key, (commitSend s conversationId body allowUntrusted tick).2 = .ok key ∧
      Holds s (commitSend s conversationId body allowUntrusted tick).1 key := by
  unfold commitSend
  rw [checkSend_ok allowed]
  refine ⟨_, rfl, ?_, ?_, ?_⟩
  · apply findMessage_tag.mpr
    refine ⟨((messagingNext 64 s.nextMessageKey).1, conversation.provider), ?_, rfl⟩
    show _ ∈ (modifyConversation _ _ _).messages.toList.map Slot.tag
    rw [modifyConversation_messages]
    show _ ∈ (push _ _).toList.map Slot.tag
    rw [toList_push, map_append]
    exact mem_append_right _ mem_cons_self
  · exact (modifyConversation_store _ _ _).1.trans (evictForSend_store _).1
  · exact (modifyConversation_store _ _ _).2.trans (evictForSend_store _).2

structure Refuses (w : World) (conversationId : Nat) (body : CString) (allowUntrusted : Bool)
    (env : Nat → Env) : Prop where
  nothing : NothingAdded w.state
    (finish act (send conversationId body allowUntrusted) w env).1.state
  without : ∀ conversation, ¬Accepts w.state conversationId body allowUntrusted env conversation

/-- What a send does from its commit on. -/
def commitAndStore : Prog EspErr := do
  match ← invoke (.commitSend conversationId body allowUntrusted) with
  | .error e => return e
  | .ok key =>
    if ← invoke .isPersistent then
      storeWrite key
    else
      return .ok

theorem send_route : Refuses w conversationId body allowUntrusted env ∨
    ∃ conversation, Accepts w.state conversationId body allowUntrusted env conversation ∧
      finish act (send conversationId body allowUntrusted) w env =
        finish act (commitAndStore conversationId body allowUntrusted) w
          fun n => env (n + (if AsksEndpoint conversation then 1 else 0) + 1) := by
  by_cases valid : conversationId ≠ 0 ∧ messagingTextValid body bodyMax false = true
  · cases checked : (checkSend w.state conversationId).2 with
    | error e =>
      refine .inl ⟨?_, ?_⟩
      · unfold send
        rw [if_pos valid, finish_invoke_bind]
        have reply : (act (.checkSend conversationId) w (env 0)).2 = .error e := checked
        rw [reply]
        exact checkSend_messages w.state conversationId
      · intro conversation h
        rw [checkSend_known.mpr ⟨h.known, h.room⟩] at checked
        cases checked
    | ok conversation =>
      obtain ⟨known, room⟩ := checkSend_known.mp checked
      have asked : finish act (send conversationId body allowUntrusted) w env =
          finish act (if endpointVerdict conversation allowUntrusted (env 1).endpoint = .ok then
              commitAndStore conversationId body allowUntrusted
            else
              return endpointVerdict conversation allowUntrusted (env 1).endpoint) w
            fun n => env (n + (if AsksEndpoint conversation then 1 else 0) + 1) := by
        unfold send
        rw [if_pos valid, finish_invoke_bind]
        have same : act (.checkSend conversationId) w (env 0) = (w, .ok conversation) := by
          show w.section (checkSend w.state conversationId) = _
          rw [checkSend_ok checked]
          rfl
        rw [same]
        rw [endpointAllows_bind]
        rfl
      by_cases allowed : endpointVerdict conversation allowUntrusted (env 1).endpoint = .ok
      · rw [if_pos allowed] at asked
        exact .inr ⟨conversation, ⟨valid, known, room, allowed⟩, asked⟩
      · rw [if_neg allowed] at asked
        refine .inl ⟨?_, ?_⟩
        · rw [asked]
          exact .rfl
        · intro other h
          have same := h.known
          rw [known] at same
          cases same
          exact allowed h.endpoint
  · refine .inl ⟨?_, fun _ h => valid h.valid⟩
    unfold send
    rw [if_neg valid]
    exact .rfl

theorem commitAndStore_ok (allowed : (checkSend w.state conversationId).2 = .ok conversation) :
    ((finish act (commitAndStore conversationId body allowUntrusted) w env).2 = .ok ↔
        (w.state.persistent = true → w.state.diskCapacity ≠ 0 ∧ WritesDone env 4)) ∧
      ¬NothingAdded w.state
        (finish act (commitAndStore conversationId body allowUntrusted) w env).1.state := by
  obtain ⟨key, committed, holds⟩ := commitSend_commits conversationId body allowUntrusted allowed (env 0).tick
  have queued : Queues w.state (commitSend w.state conversationId body allowUntrusted (env 0).tick).1
      conversationId body := commitSend_queues (by rw [committed]; rfl)
  unfold commitAndStore
  rw [finish_invoke_bind]
  have reply : (act (.commitSend conversationId body allowUntrusted) w (env 0)).2 = .ok key := committed
  rw [reply]
  have stored := storeIfPersistent_ok (w := { w with
    state := (commitSend w.state conversationId body allowUntrusted (env 0).tick).1 }) holds.found
    fun n => env (n + 1)
  have same := aside_outbox (storeIfPersistent_aside key) { w with
    state := (commitSend w.state conversationId body allowUntrusted (env 0).tick).1 }
    fun n => env (n + 1)
  rw [holds.persistent, holds.diskCapacity] at stored
  have writes : WritesDone (fun n => env (n + 1)) 3 ↔ WritesDone env 4 := by
    rw [writesDone_iff, writesDone_iff]
  rw [writes] at stored
  refine ⟨stored, ?_⟩
  intro nothing
  obtain ⟨o, line, -⟩ := queued
  have after : (commitSend w.state conversationId body allowUntrusted (env 0).tick).1.outbox =
      w.state.outbox := same.outbox.symm.trans nothing.outbox
  rw [after] at line
  have := congrArg List.length line
  rw [length_append] at this
  simp at this

theorem send_atomic : SendAtomic w conversationId body allowUntrusted env ↔
    SendStored w.state conversationId body allowUntrusted env := by
  rcases send_route conversationId body allowUntrusted w env with
    refuses | ⟨conversation, accepts, final⟩
  · refine iff_of_true ?_ fun conversation h => absurd h (refuses.without conversation)
    intro failed
    refine ⟨refuses.nothing, fun later done => ?_⟩
    obtain ⟨o, line, rest⟩ := send_queues done
    exact ⟨o, by rw [line, refuses.nothing.outbox], rest⟩
  · obtain ⟨stored, added⟩ := commitAndStore_ok conversationId body allowUntrusted w
      (fun n => env (n + (if AsksEndpoint conversation then 1 else 0) + 1))
      (checkSend_known.mpr ⟨accepts.known, accepts.room⟩)
    have writes : WritesDone (fun n => env (n + (if AsksEndpoint conversation then 1 else 0) + 1)) 4 ↔
        WritesDone env (if AsksEndpoint conversation then 6 else 5) := by
      rw [writesDone_iff, writesDone_iff]
      split <;> exact Iff.rfl
    rw [writes] at stored
    rw [← final] at stored added
    constructor
    · intro h other accepted
      have same := accepted.known
      rw [accepts.known] at same
      cases same
      apply stored.mp
      by_contra failed
      exact added (h failed).1
    · intro fits failed
      exact absurd (stored.mpr (fits conversation accepts)) failed

end Send

/-- Publications and sends that fail leave nothing behind, and the next attempt is as good as the
first one, exactly when the history file takes every message that is put into the ring. -/
theorem failed_adds_nothing_iff (w : World) (env : Nat → Env) :
    (∀ request, PublishAtomic w request env ↔ PublishStored w.state request env) ∧
      ∀ conversationId body allowUntrusted, SendAtomic w conversationId body allowUntrusted env ↔
        SendStored w.state conversationId body allowUntrusted env :=
  ⟨fun request => publishInbound_atomic request w env,
    fun conversationId body allowUntrusted => send_atomic conversationId body allowUntrusted w env⟩

/-- A service that starts with a new history file. -/
def freshBoot : Boot where
  reachable := true
  file := none
  capacity := messageCapacity
  capacity_le := Nat.le_refl _
  written := true
  inbox := none
  inbox_le := bareBoot.inbox_le
  inInbox _ _ := false

def failing : Env := { calm with done := false }

/-- A notice that cannot be stored stays in the ring, and its next attempt is taken for a
duplicate; a reply that cannot be stored is queued again by the next attempt. -/
theorem failed_adds : (¬∀ (w : World) (request : Inbound) (env : Nat → Env), PublishAtomic w request env) ∧
      ¬∀ (w : World) (conversationId : Nat) (body : CString) (allowUntrusted : Bool)
        (env : Nat → Env), SendAtomic w conversationId body allowUntrusted env := by
  constructor
  · intro always
    have announced := (always ⟨init freshBoot, bareFile, false⟩ (notice 1) (fun _ => failing)
      (by decide)).2 (fun _ => calm) (fun _ => nofun) (by decide)
    obtain ⟨event, last, -⟩ := announced
    have silent : (finish act (publishInbound (notice 1)) (finish act (publishInbound (notice 1))
        ⟨init freshBoot, bareFile, false⟩ fun _ => failing).1 fun _ => calm).1.state.events.toList =
        [] := by
      decide
    rw [silent] at last
    cases last
  · intro always
    have nothing := (always (runCall ⟨init freshBoot, bareFile, false⟩
      (.publishInbound (notice 1), fun _ => calm)) 1 office false (fun _ => failing)
      (by decide)).1
    have before : (runCall ⟨init freshBoot, bareFile, false⟩
        (.publishInbound (notice 1), fun _ => calm)).state.outbox.toList.length = 0 := by
      decide
    rw [← nothing.outbox] at before
    exact absurd before (by decide)

end SolarOs.Messaging
