import SolarOs.Messaging.Homes
import SolarOs.Messaging.OutboxRuns

/-! Messages and their conversations under any interleaving of the calls, and what the
history file then holds. -/
namespace SolarOs.Messaging
open Program

variable {s : State}

theorem initial_homed : Homed initial := ⟨nofun, nofun, nofun⟩

theorem restoreMessage_toList {r : State} (s : State) (slot : Slot)
    (messages : r.messages = (restoreMessage s slot).messages) :
    r.messages.toList = s.messages.survivors ++ [slot] := by
  rw [messages]
  exact SlotRing.toList_push _ slot

theorem recordUpsert_sensible {record : Record} (valid : recordValid record = true)
    (live : record.message.key ≠ 0) : (recordUpsert record).Sensible := by
  simpa [recordValid, live, Upsert.Sensible, recordUpsert] using valid

theorem restoreRecord_homed (h : Homed s) {record : Record} (valid : recordValid record = true)
    (live : record.message.key ≠ 0) (diskIndex : Nat) : Homed (restoreRecord s record diskIndex) := by
  have sensible := recordUpsert_sensible valid live
  obtain ⟨homed, -, member⟩ := upsertConversation_homed h sensible false
  unfold restoreRecord
  cases hu : upsertConversation s (recordUpsert record) false with
  | mk u id =>
    rw [hu] at homed member
    cases id with
    | zero => exact homed
    | succ id =>
      refine KeepsHomes.homed (modifyConversation_homes (restoreMessage u _) _ ?_) ?_
      · intro c
        rfl
      · let slot : Slot :=
          { message := { record.message with conversationId := id + 1 }
            diskIndex := some diskIndex
            revision := u.generation }
        have owner : slot.message.conversationId ∈ u.conversations.map Conversation.id := member (Nat.succ_ne_zero id)
        exact homed.push owner sensible.1 rfl (restoreMessage_toList u slot rfl)

theorem inboxUpsert_sensible {entry : InboxEntry} {provider : ProviderId}
    (h : inboxProvider entry = some provider) : (inboxUpsert entry provider).Sensible := by
  refine ⟨?_, ?_⟩
  · unfold inboxProvider at h
    split at h
    · cases h
      rfl
    · split at h
      · cases h
        rfl
      · split at h
        · cases h
          rfl
        · cases h
  · show (if entry.topic.bytes ≠ [] then entry.topic else general).bytes ≠ []
    split
    · assumption
    · exact List.cons_ne_nil _ _

theorem restoreEntry_homed (h : Homed s) (entry : InboxEntry) : Homed (restoreEntry s entry) := by
  unfold restoreEntry
  split
  · exact h
  · rename_i provider hprovider
    split
    · exact h
    · have sensible := inboxUpsert_sensible hprovider
      obtain ⟨homed, -, member⟩ := upsertConversation_homed h sensible false
      cases hu : upsertConversation s (inboxUpsert entry provider) false with
      | mk u id =>
        rw [hu] at homed member
        cases id with
        | zero => exact homed
        | succ id =>
          have restored : ∀ slot : Slot, slot.message.conversationId = id + 1 →
              messagingProviderValid slot.message.provider = true → Homed (restoreMessage u slot) :=
            fun slot owner known =>
              homed.push (owner ▸ member (Nat.succ_ne_zero id)) known rfl (restoreMessage_toList u slot rfl)
          show Homed (if entry.unread = true then _ else _)
          split
          · exact KeepsHomes.homed (modifyConversation_homes _ _ fun c => rfl) (restored _ rfl sensible.1)
          · exact restored _ rfl sensible.1

theorem loadRecords_homed (file : StoreFile) (places : List Nat) (h : Homed s) :
    Homed (loadRecords file places s).1 := by
  induction places generalizing s with
  | nil => exact h
  | cons place places ih =>
    unfold loadRecords
    split
    · exact h
    · split
      · exact h
      · rename_i record _ valid
        split
        · rename_i live
          exact ih (restoreRecord_homed h (by simpa using valid) live place)
        · exact ih h

theorem storeReset_homes (s : State) (capacity : Nat) (written : Bool) :
    KeepsHomes s (storeReset s capacity written).1 := by
  unfold storeReset
  split
  · exact .of_eq rfl rfl
  · split <;> exact .of_eq rfl rfl

theorem storeLoad_homed (boot : Boot) : Homed (storeLoad initial boot).1 := by
  unfold storeLoad
  split
  · exact initial_homed.congr rfl rfl
  · split
    · exact (storeReset_homes _ _ _).homed initial_homed
    · rename_i file _
      split
      · exact (storeReset_homes _ _ _).homed initial_homed
      · rename_i header _
        have loaded := @loadRecords_homed (initial.headed header) file (coveredPlaces header) (initial_homed.congr rfl rfl)
        dsimp only
        split
        · rename_i s hload
          rw [hload] at loaded
          exact loaded.congr rfl rfl
        · apply (storeReset_homes _ _ _).homed
          exact initial_homed.congr rfl rfl

theorem restoreInbox_homed (h : Homed s) (entries : List InboxEntry) : Homed (restoreInbox s entries) := by
  have walk : ∀ (entries : List InboxEntry) {s : State}, Homed s →
      Homed (entries.foldl restoreEntry s) := by
    intro entries
    induction entries with
    | nil => exact fun h => h
    | cons entry entries ih => exact fun h => ih (restoreEntry_homed h entry)
  exact (noteGeneration_homes _).homed (walk entries.reverse h)

theorem reconcileInbox_homes (s : State) (inInbox : Nat → Nat → Bool) : KeepsHomes s (reconcileInbox s inInbox) := by
  have marked : KeepsHomes s { s with
      messages := s.messages.modifyAll fun slot =>
        if slot.message.inboxId ≠ 0 && !inInbox slot.message.inboxId slot.message.key then
          { slot with
            message := { slot.message with inboxId := 0 }
            revision := (slot.revision + 1) % 2 ^ 32 }
        else slot } := by
    refine messages_homes rfl rfl (homes_modifyAll ?_)
    intro slot
    split <;> rfl
  unfold reconcileInbox
  dsimp only
  split
  · exact marked.trans (noteGeneration_homes _)
  · exact marked

theorem init_homed (boot : Boot) : Homed (init boot) := by
  have loaded := storeLoad_homed boot
  apply (reconcileInbox_homes _ _).homed
  split
  · rename_i s hload
    rw [hload] at loaded
    exact loaded
  · rename_i s e _ hload
    rw [hload] at loaded
    split
    · exact restoreInbox_homed loaded _
    · exact loaded

def Careful {α : Type} : Op α → Prop
  | .upsert request => request.Sensible
  | .insertInbound request => (inboundUpsert request).Sensible
  | .writeRecord _ record => recordValid record = true
  | _ => True

def Promised {α : Type} : Op α → α → Prop
  | .beginWrite _, reply => ∀ pending ∈ reply, recordValid pending.record = true
  | .beginUpdate _, reply => ∀ place ∈ reply, recordValid place.2 = true
  | _, _ => True

def Settled {α : Type} : Op α → World → Env → Prop
  | .removeConversation provider providerKey, w, _ => ¬Strands w.state provider providerKey
  | _, _, _ => True

variable (start : StoreFile)

def Readable (file : StoreFile) : Prop :=
  ∀ i record, file.records i = some record → recordValid record = true ∨ start.records i = some record

def Tidy (w : World) : Prop := Homed w.state ∧ Readable start w.file

theorem Readable.write {start file : StoreFile} (h : Readable start file) {record : Record}
    (valid : recordValid record = true) (place : Nat) (done : Bool) (landed : Landed) : Readable start { file with
      records := Function.update file.records place
        (if done then some record else landed.leave (file.records place) (some record)) } := by
  intro i other hread
  by_cases here : i = place
  · subst here
    have hread : (if done = true then some record else landed.leave (file.records i) (some record)) =
        some other := by rw [← hread]; exact (Function.update_self i _ file.records).symm
    split at hread
    · cases hread
      exact .inl valid
    · cases landed with
      | old => exact h i other hread
      | torn => cases hread
      | new =>
        cases hread
        exact .inl valid
  · exact h i other ((Function.update_of_ne here _ file.records).symm.trans hread)

theorem beginWrite_promised (h : Homed s) (key : Nat) :
    ∀ pending ∈ (beginWrite s key).2, recordValid pending.record = true := by
  unfold beginWrite
  cases hi : findMessage s key with
  | none => exact nofun
  | some i =>
    dsimp only
    split
    · exact nofun
    · intro pending hpending
      cases hpending
      exact makeRecord_valid h (s.messages.entry_mem (findMessage_lt hi))

theorem beginUpdate_promised (h : Homed s) (key : Nat) : ∀ place ∈ beginUpdate s key, recordValid place.2 = true := by
  unfold beginUpdate
  cases hi : findMessage s key with
  | none => exact nofun
  | some i =>
    rw [Option.bind_some]
    dsimp only
    split
    · exact nofun
    · split
      · exact nofun
      · intro place hplace
        cases hplace
        exact makeRecord_valid h (s.messages.entry_mem (findMessage_lt hi))

theorem act_safe : Pool.Safe act Careful Promised Settled (Tidy start) where
  keeps {β} op w e h careful settled := by
    obtain ⟨homed, readable⟩ := h
    cases op with
    | upsert request => exact ⟨(upsertConversation_homed homed careful true).1, readable⟩
    | removeConversation provider providerKey => exact ⟨removeConversation_homed homed settled, readable⟩
    | insertInbound request => exact ⟨insertInbound_homed homed e.tick careful, readable⟩
    | linkProjection key revision inboxId present =>
      exact ⟨(linkProjection_homes _ key revision inboxId present).homed homed, readable⟩
    | announce provider conversationId key =>
      exact ⟨(publishEvent_homes _ _ _ _ _ _ _).homed homed, readable⟩
    | checkSend conversationId => exact ⟨(checkSend_homes _ conversationId).homed homed, readable⟩
    | commitSend conversationId body allowUntrusted =>
      exact ⟨commitSend_homed homed conversationId body allowUntrusted e.tick, readable⟩
    | deleteMessage key => exact ⟨(deleteMessage_homes _ key).homed homed, readable⟩
    | clearMessages provider => exact ⟨(clearMessages_homes _ provider).homed homed, readable⟩
    | readMessages conversationId => exact ⟨(readMessages_homes _ conversationId).homed homed, readable⟩
    | cancelOutbound key => exact ⟨(cancelOutbound_homes _ key).homed homed, readable⟩
    | updateOutbox requestId state error =>
      exact ⟨(updateOutbox_homes _ requestId state error).homed homed, readable⟩
    | beginWrite key => exact ⟨(beginWrite_homes _ key).homed homed, readable⟩
    | finishWrite key pending error => exact ⟨(finishWrite_homes _ key pending error).homed homed, readable⟩
    | finishUpdate error => exact ⟨homed.congr rfl rfl, readable⟩
    | finishTombstones diskIndexes error =>
      exact ⟨(finishTombstones_homes _ diskIndexes error).homed homed, readable⟩
    | writeRecord diskIndex record => exact ⟨homed, readable.write careful diskIndex e.done e.landed⟩
    | _ => exact ⟨homed, readable⟩
  replies {β} op w e h careful := by
    cases op with
    | beginWrite key => exact beginWrite_promised h.1 key
    | beginUpdate key => exact beginUpdate_promised h.1 key
    | _ => trivial

/-- The program is careful as long as the sections keep their promises. -/
abbrev IsCareful {α : Type} (p : Prog α) : Prop := Guarded Careful Promised p

theorem closing_careful (error : EspErr) : IsCareful (closing error) := ⟨trivial, fun _ _ => trivial⟩

theorem storeWrite_careful (key : Nat) : IsCareful (storeWrite key) := by
  refine ⟨trivial, fun _ _ => ⟨trivial, fun pending promised => ?_⟩⟩
  cases pending with
  | none => exact ⟨trivial, fun _ _ => trivial⟩
  | some pending =>
    have ends : ∀ error, IsCareful (do
        invoke (.finishWrite key pending error)
        invoke .giveIo
        return error) := fun error => ⟨trivial, fun _ _ => ⟨trivial, fun _ _ => trivial⟩⟩
    refine ⟨trivial, fun opened _ => ?_⟩
    cases opened with
    | false => exact ends _
    | true =>
      refine ⟨promised pending rfl, fun written _ => ?_⟩
      cases written with
      | false => exact (closing_careful .fail).bind ends
      | true =>
        refine ⟨trivial, fun done _ => ?_⟩
        cases done with
        | false => exact (closing_careful .fail).bind ends
        | true => exact (closing_careful .ok).bind ends

theorem storeUpdate_careful (key : Nat) : IsCareful (storeUpdate key) := by
  refine ⟨trivial, fun _ _ => ⟨trivial, fun place promised => ?_⟩⟩
  cases place with
  | none => exact ⟨trivial, fun _ _ => trivial⟩
  | some place =>
    have ends : ∀ error, IsCareful (do
        invoke (.finishUpdate error)
        invoke .giveIo
        return error) := fun error => ⟨trivial, fun _ _ => ⟨trivial, fun _ _ => trivial⟩⟩
    refine ⟨trivial, fun opened _ => ?_⟩
    cases opened with
    | false => exact ends _
    | true =>
      refine ⟨promised place rfl, fun written _ => ?_⟩
      exact (closing_careful _).bind ends

theorem writeTombstones_careful (places : List (Option Nat)) : IsCareful (writeTombstones places) := by
  induction places with
  | nil => trivial
  | cons place places ih =>
    cases place with
    | none => exact ih
    | some place =>
      refine ⟨trivial, fun capacity _ => ?_⟩
      show IsCareful (if capacity ≤ place then _ else _)
      split
      · exact ih
      · refine ⟨rfl, fun written _ => ?_⟩
        cases written with
        | false => trivial
        | true => exact ih

theorem storeTombstoneMany_careful (places : List (Option Nat)) : IsCareful (storeTombstoneMany places) := by
  unfold storeTombstoneMany
  split
  · trivial
  · refine ⟨trivial, fun persistent _ => ?_⟩
    cases persistent with
    | false => trivial
    | true =>
      have ends : ∀ error, IsCareful (do
          invoke (.finishTombstones places error)
          invoke .giveIo
          return error) := fun error => ⟨trivial, fun _ _ => ⟨trivial, fun _ _ => trivial⟩⟩
      refine ⟨trivial, fun _ _ => ⟨trivial, fun opened _ => ?_⟩⟩
      cases opened with
      | false => exact ends _
      | true =>
        refine Guarded.bind ?_ ends
        refine (writeTombstones_careful places).bind fun error => ?_
        split
        · exact ⟨trivial, fun synced _ => closing_careful _⟩
        · exact closing_careful _

theorem textValid_nonempty {text : CString} {capacity : Nat}
    (h : messagingTextValid text capacity false = true) : text.bytes ≠ [] := by
  intro empty
  simp [messagingTextValid, CString.strlen, empty] at h

theorem upsertValid_sensible {request : Upsert} (h : upsertValid request = true) : request.Sensible := by
  simp only [upsertValid, Bool.and_eq_true] at h
  exact ⟨h.1.1, textValid_nonempty h.1.2⟩

theorem inboundValid_sensible {request : Inbound} (h : inboundValid request = true) :
    (inboundUpsert request).Sensible := by
  simp only [inboundValid, Bool.and_eq_true] at h
  exact ⟨h.1.1.1, textValid_nonempty h.1.1.2⟩

theorem conversationUpsert_careful (request : Upsert) : IsCareful (conversationUpsert request) := by
  unfold conversationUpsert
  split
  · rename_i valid
    refine ⟨upsertValid_sensible valid, fun id _ => ?_⟩
    show IsCareful (if id = 0 then _ else _)
    split <;> trivial
  · trivial

theorem messageDelete_careful (key : Nat) : IsCareful (messageDelete key) := by
  unfold messageDelete
  split
  · trivial
  · refine Guarded.invoke_bind trivial fun reply _ => ?_
    cases reply with
    | error e => trivial
    | ok removed =>
      obtain ⟨diskIndex, inboxId⟩ := removed
      refine Guarded.bind ?_ fun storeError => Guarded.bind ?_ fun inboxError => ?_
      · cases diskIndex with
        | none => trivial
        | some place => exact storeTombstoneMany_careful _
      · split
        · refine ⟨trivial, fun present _ => ?_⟩
          cases present with
          | false => trivial
          | true => exact ⟨trivial, fun _ _ => trivial⟩
        · trivial
      · trivial

theorem deleteAll_careful (keys : List Nat) : IsCareful (deleteAll keys) := by
  induction keys with
  | nil => trivial
  | cons key keys ih =>
    refine (messageDelete_careful key).bind fun error => ?_
    split
    · exact ih
    · trivial

variable (provider : ProviderId)

theorem conversationRemove_careful (providerKey : CString) : IsCareful (conversationRemove provider providerKey) := by
  unfold conversationRemove
  split
  · refine ⟨trivial, fun keys _ => ?_⟩
    cases keys with
    | none => trivial
    | some keys =>
      refine (deleteAll_careful keys).bind fun error => ?_
      split
      · exact ⟨trivial, fun _ _ => trivial⟩
      · trivial
  · trivial

theorem updateIfPersistent_careful {α : Type} (key : Nat) {rest : Prog α} (h : IsCareful rest) :
    IsCareful (do
      if ← invoke .isPersistent then
        let _ ← storeUpdate key
        rest
      else
        rest) := by
  refine ⟨trivial, fun persistent _ => ?_⟩
  cases persistent with
  | false => exact h
  | true => exact (storeUpdate_careful key).bind fun _ => h

theorem publishInboxProjection_careful (request : Inbound) (key revision : Nat) :
    IsCareful (publishInboxProjection request key revision) := by
  refine ⟨trivial, fun published _ => ?_⟩
  cases published with
  | error e => trivial
  | ok inboxId =>
    refine ⟨trivial, fun present _ => ⟨trivial, fun linked _ => ?_⟩⟩
    cases linked with
    | true => exact updateIfPersistent_careful key trivial
    | false => exact ⟨trivial, fun _ _ => trivial⟩

theorem insertAndAnnounce_careful {request : Inbound} (sensible : (inboundUpsert request).Sensible) :
    IsCareful (insertAndAnnounce request) := by
  refine ⟨sensible, fun reply _ => ?_⟩
  cases reply with
  | duplicate => trivial
  | full => trivial
  | inserted conversationId revision =>
    have stores : IsCareful (do
        if ← invoke .isPersistent then
          storeWrite (inboundKey request)
        else
          return .ok : Prog EspErr) := by
      refine ⟨trivial, fun persistent _ => ?_⟩
      cases persistent with
      | false => trivial
      | true => exact storeWrite_careful _
    refine stores.bind fun error => ?_
    · split
      · exact (publishInboxProjection_careful _ _ _).bind fun _ => ⟨trivial, fun _ _ => trivial⟩
      · trivial

theorem publishInbound_careful (request : Inbound) : IsCareful (publishInbound request) := by
  unfold publishInbound
  split
  · rename_i valid
    have inserts := insertAndAnnounce_careful (inboundValid_sensible valid)
    split
    · exact inserts
    · refine ⟨trivial, fun known _ => ?_⟩
      cases known with
      | true => trivial
      | false =>
        refine ⟨trivial, fun endpoint _ => ?_⟩
        cases endpoint with
        | error e => trivial
        | ok trust =>
          show IsCareful (if trust = .blocked then _ else _)
          split
          · trivial
          · exact inserts
  · trivial

theorem endpointAllows_careful (conversation : Conversation) (allowUntrusted : Bool) :
    IsCareful (endpointAllows conversation allowUntrusted) := by
  unfold endpointAllows
  split
  · refine ⟨trivial, fun endpoint _ => ?_⟩
    cases endpoint with
    | error e => trivial
    | ok trust =>
      show IsCareful (if _ then _ else _)
      split <;> trivial
  · trivial

theorem send_careful (conversationId : Nat) (body : CString) (allowUntrusted : Bool) :
    IsCareful (send conversationId body allowUntrusted) := by
  unfold send
  split
  · refine ⟨trivial, fun checked _ => ?_⟩
    cases checked with
    | error e => trivial
    | ok conversation =>
      refine (endpointAllows_careful _ _).bind fun error => ?_
      split
      · refine ⟨trivial, fun committed _ => ?_⟩
        cases committed with
        | error e => trivial
        | ok key =>
          refine ⟨trivial, fun persistent _ => ?_⟩
          cases persistent with
          | false => trivial
          | true => exact storeWrite_careful key
      · trivial
  · trivial

theorem clear_careful : IsCareful (clear provider) := by
  unfold clear
  split
  · refine ⟨trivial, fun memory _ => ?_⟩
    cases memory with
    | false => trivial
    | true =>
      refine ⟨trivial, fun cleared _ => ?_⟩
      cases cleared with
      | error e => trivial
      | ok places => exact (storeTombstoneMany_careful places).bind fun _ => ⟨trivial, fun _ _ => trivial⟩
  · trivial

theorem noteRead_careful (read : List (Nat × Nat)) : IsCareful (noteRead read) := by
  induction read with
  | nil => trivial
  | cons message read ih =>
    obtain ⟨key, inboxId⟩ := message
    refine updateIfPersistent_careful key ?_
    split
    · refine ⟨trivial, fun present _ => ?_⟩
      cases present with
      | false => exact ih
      | true => exact ⟨trivial, fun _ _ => ih⟩
    · exact ih

theorem markRead_careful (conversationId : Nat) : IsCareful (markRead conversationId) := by
  unfold markRead
  split
  · trivial
  · refine ⟨trivial, fun read _ => ?_⟩
    cases read with
    | none => trivial
    | some read => exact (noteRead_careful read).bind fun _ => trivial

theorem cancel_careful (key : Nat) : IsCareful (cancel key) := by
  unfold cancel
  split
  · trivial
  · refine ⟨trivial, fun error _ => ?_⟩
    show IsCareful (if error = .ok then _ else _)
    split
    · exact updateIfPersistent_careful key trivial
    · trivial

theorem outboxPeek_careful : IsCareful (outboxPeek provider) := by
  unfold outboxPeek
  split
  · refine ⟨trivial, fun entry _ => ?_⟩
    cases entry <;> trivial
  · trivial

theorem outboxUpdate_careful (requestId : Nat) (state : Delivery) (error : Option CString) :
    IsCareful (outboxUpdate requestId state error) := by
  unfold outboxUpdate
  split
  · trivial
  · refine ⟨trivial, fun updated _ => ?_⟩
    cases updated with
    | error e => trivial
    | ok key => exact updateIfPersistent_careful key trivial

theorem body_careful (c : Call) : IsCareful c.body := by
  cases c with
  | conversationUpsert request => exact conversationUpsert_careful request
  | conversationRemove provider providerKey => exact conversationRemove_careful provider providerKey
  | publishInbound request => exact publishInbound_careful request
  | send conversationId body allowUntrusted => exact send_careful conversationId body allowUntrusted
  | messageDelete key => exact messageDelete_careful key
  | clear provider => exact clear_careful provider
  | markRead conversationId => exact markRead_careful conversationId
  | cancel key => exact cancel_careful key
  | outboxPeek provider => exact outboxPeek_careful provider
  | outboxUpdate requestId state error => exact outboxUpdate_careful requestId state error

instance (s : State) (provider : ProviderId) (providerKey : CString) :
    Decidable (Strands s provider providerKey) := by
  unfold Strands
  cases conversationIndex s provider providerKey with
  | none => exact .isFalse (by rintro ⟨i, hi, -⟩; cases hi)
  | some i =>
    exact decidable_of_iff (∃ slot ∈ s.messages.toList,
      some slot.message.conversationId = s.conversations[i]?.map Conversation.id ∧
        slot.message.conversationId ∉ (s.conversations.eraseIdx i).map Conversation.id)
      ⟨fun h => ⟨i, rfl, h⟩, fun ⟨_, hj, h⟩ => Option.some.inj hj ▸ h⟩

instance {α : Type} (op : Op α) (w : World) (e : Env) : Decidable (Settled op w e) := by
  apply Op.casesOn (motive := fun _ op => Decidable (Settled op w e)) op <;> intros <;> dsimp only [Settled] <;>
    infer_instance

def Ready {α : Type} (op : Op α) (w : World) : Prop := enabled op w = true

instance {α : Type} (op : Op α) (w : World) : Decidable (Ready op w) :=
  inferInstanceAs (Decidable (_ = _))

abbrev Calls := Pool Op World EspErr

def takeTurn (pool : Calls) (t : Turn Call Env) : Calls := Pool.turn act Ready Call.body pool t

def SettledTurn (pool : Calls) (t : Turn Call Env) : Prop := Pool.Allowed Ready Settled pool t

instance (pool : Calls) (t : Turn Call Env) : Decidable (SettledTurn pool t) :=
  Pool.decideAllowed Ready Settled (fun _ _ _ => inferInstance) pool t

/-- Messages have conversations, in the ring and in the history file. -/
structure Belongs (pool : Calls) : Prop where
  home : ∀ slot ∈ pool.state.state.messages.toList, slot.message.conversationId ∈
    pool.state.state.conversations.map Conversation.id
  /-- What a call is about to write can be read back. -/
  written : ∀ place record next, (.call (.writeRecord place record) next : Prog EspErr) ∈ pool.threads →
    recordValid record = true
  /-- Loading the file gives up only at a place it cannot read or that was bad before. -/
  loads : ∀ places s, (loadRecords pool.state.file places s).2 = false →
    ∃ i ∈ places, pool.state.file.records i = none ∨
      ∃ record, pool.state.file.records i = some record ∧ start.records i = some record ∧
        recordValid record = false

theorem loadRecords_fails {file : StoreFile} {places : List Nat} (h : (loadRecords file places s).2 = false) :
    ∃ i ∈ places, file.records i = none ∨
      ∃ record, file.records i = some record ∧ recordValid record = false := by
  induction places generalizing s with
  | nil => cases h
  | cons place places ih =>
    unfold loadRecords at h
    split at h
    · rename_i unreadable
      exact ⟨place, List.mem_cons_self, .inl unreadable⟩
    · rename_i record hrecord
      split at h
      · rename_i bad
        exact ⟨place, List.mem_cons_self, .inr ⟨record, hrecord, bad⟩⟩
      · split at h
        · obtain ⟨i, hi, why⟩ := ih h
          exact ⟨i, List.mem_cons_of_mem place hi, why⟩
        · obtain ⟨i, hi, why⟩ := ih h
          exact ⟨i, List.mem_cons_of_mem place hi, why⟩

theorem Belongs.of_secure {start : StoreFile} {pool : Calls}
    (h : Pool.Secure Careful Promised (Tidy start) pool) : Belongs start pool where
  home slot hslot := h.1.1.members _ (List.mem_map_of_mem hslot)
  written place record next hthread := (h.2 _ hthread).1
  loads places s hload := by
    obtain ⟨i, hi, unreadable | ⟨record, hrecord, bad⟩⟩ := loadRecords_fails hload
    · exact ⟨i, hi, .inl unreadable⟩
    · rcases h.1.2 i record hrecord with valid | before
      · rw [valid] at bad
        cases bad
      · exact ⟨i, hi, .inr ⟨record, hrecord, before, bad⟩⟩

/-- However the calls take turns, messages belong to conversations, as long as no call
removes a conversation that has got messages since its messages were deleted. -/
theorem messages_belong (boot : Boot) (file : StoreFile) (turns : List (Turn Call Env))
    (settled : Machine.Admits takeTurn SettledTurn ⟨⟨init boot, file, false⟩, []⟩ turns) :
    Belongs file (Machine.run takeTurn ⟨⟨init boot, file, false⟩, []⟩ turns) := by
  apply Belongs.of_secure
  apply Pool.run_secure (act_safe file) body_careful _ settled
  exact ⟨⟨init_homed boot, fun i record hread => .inr hread⟩, nofun⟩

def removeOffice : List (Turn Call Env) :=
  [.start (.publishInbound (notice 1)), .step 0 calm, .start (.conversationUpsert openOffice),
    .step 1 calm, .start (.conversationRemove providerGateway office), .step 2 calm, .step 2 calm]

theorem messages_belong_lobby :
    Belongs bareFile (Machine.run takeTurn ⟨⟨init bareBoot, bareFile, false⟩, []⟩ removeOffice) :=
  messages_belong bareBoot bareFile removeOffice (by decide)

def removeLobby : List (Turn Call Env) :=
  [.start (.publishInbound (notice 1)), .step 0 calm,
    .start (.conversationRemove providerGateway lobby), .step 1 calm, .step 1 calm,
    .start (.publishInbound (notice 2)), .step 2 calm, .step 1 calm]

/-- That notice is left without a conversation. -/
theorem messages_stranded : ¬∀ (boot : Boot) (file : StoreFile) (turns : List (Turn Call Env)),
    Belongs file (Machine.run takeTurn ⟨⟨init boot, file, false⟩, []⟩ turns) := by
  intro always
  have home := (always bareBoot bareFile removeLobby).home
  exact absurd home (by decide)

end SolarOs.Messaging
