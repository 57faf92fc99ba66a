import SolarOs.Messaging.Outbox
import SolarOs.Messaging.UnreadRuns

/-! The outbox over whole runs: entries wait in the order they were sent, each leaves
once, and none is stuck, as long as the message ring does not overwrite their messages. -/
namespace SolarOs.Messaging
open Program QueueLog List Machine SlotRing

variable {s : State}

theorem clearDiskMapping_outbox (s : State) (diskIndex : Nat) : SameOutbox s (clearDiskMapping s diskIndex) := by
  refine ⟨rfl, tags_modifyAll ?_⟩
  intro slot
  split <;> rfl

theorem finishTombstones_outbox (s : State) (diskIndexes : List (Option Nat)) (error : EspErr) :
    SameOutbox s (finishTombstones s diskIndexes error) := by
  have cleared : ∀ (places : List Nat) (s : State), SameOutbox s (places.foldl clearDiskMapping s) := by
    intro places
    induction places with
    | nil => exact fun s => .rfl
    | cons place places ih => exact fun s => (clearDiskMapping_outbox s place).trans (ih _)
  unfold finishTombstones
  split
  · exact (cleared _ s).trans ⟨rfl, rfl⟩
  · exact ⟨rfl, rfl⟩

theorem beginWrite_outbox (s : State) (key : Nat) : SameOutbox s (beginWrite s key).1 := by
  unfold beginWrite
  split
  · exact .rfl
  · split <;> exact ⟨rfl, rfl⟩

theorem finishWrite_outbox (s : State) (key : Nat) (pending : PendingWrite) (error : EspErr) :
    SameOutbox s (finishWrite s key pending error) := by
  unfold finishWrite
  split
  · have cleared := clearDiskMapping_outbox s pending.diskIndex
    cases hi : findMessage s key with
    | none => exact cleared.trans ⟨rfl, rfl⟩
    | some i =>
      refine cleared.trans ⟨rfl, tags_modify ?_ ?_⟩
      · intro slot
        rfl
      · show i < (s.messages.modifyAll _).count
        rw [count_modifyAll]
        exact findMessage_lt hi
  · exact ⟨rfl, rfl⟩

/-- What a section needs to keep the outbox backed. -/
def Quiet {α : Type} : Op α → World → Env → Prop
  | .insertInbound request, w, _ =>
    Messaging.findMessage w.state (inboundKey request) = none →
      (upsertConversation w.state (inboundUpsert request) false).2 ≠ 0 → ¬OverwritesPending w.state
  | .commitSend conversationId _ _, w, _ =>
    (Messaging.checkSend w.state conversationId).2.isOk = true →
      ¬OverwritesPending w.state ∧ (messagingNext 32 w.state.nextOutboxId).1 ∉ waiting w.state
  | _, _, _ => True

instance (s : State) : Decidable (OverwritesPending s) := inferInstanceAs (Decidable (_ ∧ _))

instance {α : Type} (op : Op α) (w : World) (e : Env) : Decidable (Quiet op w e) := by
  apply Op.casesOn (motive := fun _ op => Decidable (Quiet op w e)) op <;> intros <;> dsimp only [Quiet] <;>
    infer_instance

theorem act_steps {α : Type} (op : Op α) (w : World) (e : Env) (h : Backed w.state)
    (quiet : Quiet op w e) : Steps w.state (act op w e).1.state := by
  cases op with
  | upsert request => exact (upsertConversation_outbox _ request true).1.steps h
  | removeConversation provider providerKey =>
    exact (removeConversation_outbox _ provider providerKey).steps h
  | insertInbound request => exact insertInbound_steps h request e.tick quiet
  | linkProjection key revision inboxId present =>
    exact (linkProjection_outbox _ key revision inboxId present).steps h
  | announce provider conversationId key => exact (publishEvent_outbox _ _ _ _ _ _ _).steps h
  | checkSend conversationId => exact (checkSend_outbox _ _).steps h
  | commitSend conversationId body allowUntrusted =>
    exact commitSend_steps h conversationId body allowUntrusted e.tick quiet
  | deleteMessage key => exact deleteMessage_steps h key
  | clearMessages provider => exact clearMessages_steps h provider
  | readMessages conversationId => exact (readMessages_outbox _ conversationId).steps h
  | cancelOutbound key => exact cancelOutbound_steps h key
  | updateOutbox requestId state error => exact updateOutbox_steps h requestId state error
  | beginWrite key => exact (beginWrite_outbox _ key).steps h
  | finishWrite key pending error => exact (finishWrite_outbox _ key pending error).steps h
  | finishUpdate error => exact SameOutbox.steps ⟨rfl, rfl⟩ h
  | finishTombstones diskIndexes error => exact (finishTombstones_outbox _ diskIndexes error).steps h
  | _ => exact SameOutbox.rfl.steps h

def noteOutbox (log : QueueLog Nat) (w w' : World) : QueueLog Nat :=
  log.note (waiting w.state) (waiting w'.state)

def loggedCall (w : World × QueueLog Nat) (c : Call × (Nat → Env)) : World × QueueLog Nat :=
  (finish (watch act noteOutbox) c.1.body w c.2).1

structure Sound (w : World × QueueLog Nat) : Prop where
  backed : Backed w.1.state
  faithful : w.2.Faithful (waiting w.1.state)

theorem watch_keeps_sound : Keeps (watch act noteOutbox) (fun op w e => Quiet op w.1 e) Sound := by
  intro β op w e h quiet
  have step := act_steps op w.1 e h.backed quiet
  exact ⟨step.backed, h.faithful.note step.moves⟩

def Aside {α : Type} : Op α → Prop
  | .isPersistent | .beginWrite _ | .finishWrite _ _ _ | .beginUpdate _ | .finishUpdate _ | .takeIo
  | .giveIo | .openStore | .writeRecord _ _ | .writeHeader _ _ | .closeStore | .getEndpoint _ => True
  | _ => False

theorem aside_keeps {α : Type} (op : Op α) (w : World) (e : Env) (h : Aside op) :
    SameOutbox w.state (act op w e).1.state := by
  cases op with
  | beginWrite key => exact beginWrite_outbox _ key
  | finishWrite key pending error => exact finishWrite_outbox _ key pending error
  | _ => first | exact ⟨rfl, rfl⟩ | exact h.elim

theorem aside_outbox {α : Type} {p : Prog α} (only : Only Aside p) (w : World) (env : Nat → Env) :
    SameOutbox w.state (finish act p w env).1.state := by
  refine finish_only (P := fun (w' : World) => SameOutbox w.state w'.state) only ?_ .rfl env
  intro β op w' e aside same
  exact same.trans (aside_keeps op w' e aside)

theorem closing_aside (error : EspErr) : Only Aside (closing error) := ⟨trivial, fun _ => trivial⟩

theorem storeUpdate_aside (key : Nat) : Only Aside (storeUpdate key) := by
  refine ⟨trivial, fun _ => ⟨trivial, fun pending => ?_⟩⟩
  cases pending with
  | none => exact ⟨trivial, fun _ => trivial⟩
  | some pending =>
    refine ⟨trivial, fun opened => ?_⟩
    cases opened with
    | false => exact ⟨trivial, fun _ => ⟨trivial, fun _ => trivial⟩⟩
    | true =>
      exact ⟨trivial, fun _ => ⟨trivial, fun _ => ⟨trivial, fun _ => ⟨trivial, fun _ => trivial⟩⟩⟩⟩

theorem storeWrite_aside (key : Nat) : Only Aside (storeWrite key) := by
  refine ⟨trivial, fun _ => ⟨trivial, fun pending => ?_⟩⟩
  cases pending with
  | none => exact ⟨trivial, fun _ => trivial⟩
  | some pending =>
    refine ⟨trivial, fun opened => ?_⟩
    have ends : ∀ error, Only Aside (do
        invoke (.finishWrite key pending error)
        invoke .giveIo
        return error) := fun error => ⟨trivial, fun _ => ⟨trivial, fun _ => trivial⟩⟩
    cases opened with
    | false => exact ends _
    | true =>
      refine ⟨trivial, fun written => ?_⟩
      cases written with
      | false => exact (closing_aside .fail).bind ends
      | true =>
        refine ⟨trivial, fun done => ?_⟩
        cases done with
        | false => exact (closing_aside .fail).bind ends
        | true => exact (closing_aside .ok).bind ends

theorem endpointAllows_aside (conversation : Conversation) (allowUntrusted : Bool) :
    Only Aside (endpointAllows conversation allowUntrusted) := by
  unfold endpointAllows
  split
  · refine ⟨trivial, fun reply => ?_⟩
    cases reply with
    | error e => trivial
    | ok trust =>
      show Only Aside (if _ then _ else _)
      split <;> trivial
  · trivial

theorem restoreRecord_outbox (s : State) (record : Record) (diskIndex : Nat) :
    (restoreRecord s record diskIndex).outbox = s.outbox := by
  have upserted := (upsertConversation_outbox s (recordUpsert record) false).1.outbox
  unfold restoreRecord
  cases hu : upsertConversation s (recordUpsert record) false with
  | mk u id =>
    rw [hu] at upserted
    cases id with
    | zero => exact upserted
    | succ id => exact (modifyConversation_outbox _ _ _).outbox.trans upserted

theorem restoreEntry_outbox (s : State) (entry : InboxEntry) : (restoreEntry s entry).outbox = s.outbox := by
  unfold restoreEntry
  split
  · rfl
  · rename_i provider _
    split
    · rfl
    · have upserted := (upsertConversation_outbox s (inboxUpsert entry provider) false).1.outbox
      cases hu : upsertConversation s (inboxUpsert entry provider) false with
      | mk u id =>
        rw [hu] at upserted
        cases id with
        | zero => exact upserted
        | succ id =>
          show (if entry.unread = true then _ else _ : State).outbox = s.outbox
          split
          · exact (modifyConversation_outbox _ _ _).outbox.trans upserted
          · exact upserted

theorem loadRecords_outbox (file : StoreFile) (places : List Nat) (s : State) :
    (loadRecords file places s).1.outbox = s.outbox := by
  induction places generalizing s with
  | nil => rfl
  | cons place places ih =>
    unfold loadRecords
    split
    · rfl
    · split
      · rfl
      · split
        · rw [ih, restoreRecord_outbox]
        · exact ih s

theorem storeReset_outbox (s : State) (capacity : Nat) (written : Bool) :
    (storeReset s capacity written).1.outbox = s.outbox := by
  unfold storeReset
  split
  · rfl
  · split <;> rfl

theorem storeLoad_outbox (s : State) (boot : Boot) : (storeLoad s boot).1.outbox = s.outbox := by
  unfold storeLoad
  split
  · rfl
  · split
    · exact storeReset_outbox _ _ _
    · rename_i file _
      split
      · exact storeReset_outbox _ _ _
      · rename_i header _
        have loaded := loadRecords_outbox file (coveredPlaces header) (s.headed header)
        dsimp only
        split
        · rename_i s' hload
          rw [hload] at loaded
          exact loaded
        · rename_i s' hload
          rw [hload] at loaded
          exact (storeReset_outbox _ _ _).trans loaded

theorem restoreInbox_outbox (s : State) (entries : List InboxEntry) : (restoreInbox s entries).outbox = s.outbox := by
  have walk : ∀ (entries : List InboxEntry) (s : State),
      (entries.foldl restoreEntry s).outbox = s.outbox := by
    intro entries
    induction entries with
    | nil => exact fun s => rfl
    | cons entry entries ih => exact fun s => (ih _).trans (restoreEntry_outbox s entry)
  exact walk entries.reverse s

theorem init_outbox (boot : Boot) : (init boot).outbox.toList = [] := by
  have loaded := storeLoad_outbox initial boot
  have reconciled : ∀ s, (reconcileInbox s boot.inInbox).outbox = s.outbox := by
    intro s
    unfold reconcileInbox
    dsimp only
    split <;> rfl
  unfold init
  rw [reconciled]
  split
  · rename_i s hload
    rw [hload] at loaded
    exact congrArg toList loaded
  · rename_i s e _ hload
    rw [hload] at loaded
    split
    · exact congrArg toList ((restoreInbox_outbox s _).trans loaded)
    · exact congrArg toList loaded

theorem init_sound (boot : Boot) (file : StoreFile) : Sound (⟨init boot, file, false⟩, .empty) := by
  have line : waiting (init boot) = [] := by rw [waiting, init_outbox, map_nil]
  refine ⟨⟨?_, ?_, ?_⟩, ?_⟩
  · intro o ho
    rw [init_outbox] at ho
    cases ho
  · rw [line]
    exact nodup_nil
  · rw [line]
    exact not_mem_nil
  · rw [line]
    exact empty_faithful

def thenUpdate (key : Nat) : Prog EspErr := do
  if ← invoke .isPersistent then
    let _ ← storeUpdate key
  return .ok

theorem thenUpdate_outbox (w : World) (key : Nat) (env : Nat → Env) : (finish act (thenUpdate key) w env).2 = .ok ∧
      SameOutbox w.state (finish act (thenUpdate key) w env).1.state := by
  cases hp : w.state.persistent with
  | false =>
    have stops : finish act (thenUpdate key) w env = (w, .ok) := by
      show finish act (if w.state.persistent = true then _ else _) w _ = _
      rw [hp]
      rfl
    rw [stops]
    exact ⟨rfl, .rfl⟩
  | true =>
    have goes : finish act (thenUpdate key) w env = finish act
        (storeUpdate key >>= fun _ => pure .ok) w fun n => env (n + 1) := by
      show finish act (if w.state.persistent = true then _ else _) w _ = _
      rw [hp]
      rfl
    obtain ⟨later, ends⟩ : ∃ later, finish act (storeUpdate key >>= fun _ => pure EspErr.ok) w
        (fun n => env (n + 1)) = finish act (pure .ok)
          (finish act (storeUpdate key) w fun n => env (n + 1)).1 later := finish_bind _ _ _ _
    rw [goes, ends]
    exact ⟨rfl, aside_outbox (storeUpdate_aside key) w _⟩

variable {w : World}

theorem outboxUpdate_terminal (h : Backed w.state) {o : Outbound} (ho : o ∈ w.state.outbox.toList)
    {state : Delivery} (terminal : Terminal state) (error : Option CString) (env : Nat → Env) :
    (finish act (outboxUpdate o.id state error) w env).2 = .ok ∧
      (finish act (outboxUpdate o.id state error) w env).1.state.outbox.toList =
        w.state.outbox.toList.filter (fun other => other.id ≠ o.id) ∧
      Backed (finish act (outboxUpdate o.id state error) w env).1.state := by
  obtain ⟨accepted, removed⟩ := updateOutbox_terminal h ho terminal error
  have kept := (updateOutbox_steps h o.id state error).backed
  have named : o.id ≠ 0 := by
    intro zero
    apply h.nonzero
    rw [← zero]
    exact mem_map_of_mem ho
  have sensible : ¬(o.id = 0 ∨ state = .received ∨ state = .cancelled) := by
    rintro (zero | rfl | rfl)
    · exact named zero
    · exact absurd terminal (by decide)
    · exact absurd terminal (by decide)
  have continues : finish act (outboxUpdate o.id state error) w env =
      finish act (thenUpdate o.messageKey)
        { w with state := (updateOutbox w.state o.id state error).1 } fun n => env (n + 1) := by
    unfold outboxUpdate
    rw [if_neg sensible, finish_invoke_bind]
    simp only [act, World.section, accepted]
    rfl
  obtain ⟨ok, same⟩ := thenUpdate_outbox
    { w with state := (updateOutbox w.state o.id state error).1 } o.messageKey fun n => env (n + 1)
  rw [continues]
  refine ⟨ok, ?_, (same.steps kept).backed⟩
  rw [same.outbox]
  exact removed

theorem drains (h : Backed w.state) (env : Outbound → Nat → Env) : (run runCall w
      (w.state.outbox.toList.map fun o => (.outboxUpdate o.id .sent none, env o))).state.outbox.toList =
        [] := by
  generalize line : w.state.outbox.toList = entries
  induction entries generalizing w with
  | nil => exact line
  | cons o entries ih =>
    have first : o ∈ w.state.outbox.toList := line ▸ mem_cons_self
    obtain ⟨-, removed, backed⟩ := outboxUpdate_terminal h first (show Terminal .sent from .inl rfl) none (env o)
    have apart := h.distinct
    rw [waiting, line, map_cons, nodup_cons] at apart
    rw [map_cons, run_cons]
    apply ih backed
    rw [removed, line, filter_cons_of_neg (by simp), filter_eq_self]
    intro other hother
    have different : other.id ≠ o.id := fun same => apart.1 (same ▸ mem_map_of_mem hother)
    simpa using different

theorem peekOutbox_eq (s : State) (provider : ProviderId) :
    peekOutbox s provider = (s.outbox.toList.filter fun o => o.provider = provider).head? := by
  unfold peekOutbox
  rw [head?_filter, find?_eq_bind_findIdx?_getElem?, ← find_eq]
  cases hi : s.outbox.find fun o => o.provider = provider with
  | none => rfl
  | some i => exact (s.outbox.getElem?_toList (s.outbox.find_some hi).1).symm

variable {conversationId : Nat}

theorem checkSend_refuses {e : EspErr} (h : (checkSend s conversationId).2 = .error e) : e ≠ .ok := by
  unfold checkSend at h
  split at h
  · cases h
    decide
  · split at h
    · cases h
      decide
    · cases h

def Queues (s s' : State) (conversationId : Nat) (body : CString) : Prop :=
  ∃ o, s'.outbox.toList = s.outbox.toList ++ [o] ∧ o.conversationId = conversationId ∧
    o.body = body.strlcpy bodyMax

variable {allowUntrusted : Bool}

theorem commitSend_queues {body : CString} {tick : Nat}
    (h : (commitSend s conversationId body allowUntrusted tick).2.isOk = true) :
    Queues s (commitSend s conversationId body allowUntrusted tick).1 conversationId body := by
  unfold commitSend at h ⊢
  cases hc : (checkSend s conversationId).2 with
  | error e =>
    rw [checkSend_error hc] at h
    cases h
  | ok conversation =>
    have room : s.outbox.count < outboxCapacity := checkSend_room (by rw [hc]; rfl)
    rw [checkSend_ok hc]
    unfold Queues
    rw [(publishEvent_outbox _ _ _ _ _ _ _).outbox, (modifyConversation_outbox _ _ _).outbox,
      (noteGeneration_outbox _).outbox]
    rw [(evictForSend_outbox _).1, toList_push_of_lt _ room]
    exact ⟨_, rfl, rfl, rfl⟩

theorem commitSend_refuses {body : CString} {tick : Nat} {e : EspErr}
    (h : (commitSend s conversationId body allowUntrusted tick).2 = .error e) : e ≠ .ok := by
  unfold commitSend at h
  cases hc : (checkSend s conversationId).2 with
  | error e' =>
    rw [checkSend_error hc] at h
    cases h
    exact checkSend_refuses hc
  | ok conversation =>
    rw [checkSend_ok hc] at h
    cases h

theorem send_queues {body : CString} {env : Nat → Env}
    (h : (finish act (send conversationId body allowUntrusted) w env).2 = .ok) :
    Queues w.state (finish act (send conversationId body allowUntrusted) w env).1.state
      conversationId body := by
  unfold send at h ⊢
  split at h
  · rename_i sensible
    rw [if_pos sensible]
    rw [finish_invoke_bind] at h ⊢
    have checked : act (.checkSend conversationId) w (env 0) =
        ({ w with state := (checkSend w.state conversationId).1 }, (checkSend w.state conversationId).2) := rfl
    rw [checked] at h ⊢
    have before := checkSend_outbox w.state conversationId
    cases hc : (checkSend w.state conversationId).2 with
    | error e =>
      rw [hc] at h
      exact absurd h (checkSend_refuses hc)
    | ok conversation =>
      rw [hc] at h
      obtain ⟨later, asked⟩ := finish_bind (endpointAllows conversation allowUntrusted) _ _ _
      rw [asked] at h ⊢
      have unnoticed := before.outbox ▸ (aside_outbox (endpointAllows_aside conversation allowUntrusted)
        { w with state := (checkSend w.state conversationId).1 } fun n => env (n + 1)).outbox
      generalize finish act (endpointAllows conversation allowUntrusted)
        { w with state := (checkSend w.state conversationId).1 } (fun n => env (n + 1)) = asked
        at h unnoticed ⊢
      obtain ⟨w', error⟩ := asked
      by_cases allowed : error = .ok
      · rw [if_pos allowed, finish_invoke_bind] at h ⊢
        have committed : act (.commitSend conversationId body allowUntrusted) w' (later 0) =
            ({ w' with
                state := (commitSend w'.state conversationId body allowUntrusted (later 0).tick).1 },
              (commitSend w'.state conversationId body allowUntrusted (later 0).tick).2) := rfl
        rw [committed] at h ⊢
        cases hr : (commitSend w'.state conversationId body allowUntrusted (later 0).tick).2 with
        | error e =>
          rw [hr] at h
          exact absurd h (commitSend_refuses hr)
        | ok key =>
          have stored : Only Aside (do
              if ← invoke .isPersistent then
                storeWrite key
              else
                return .ok : Prog EspErr) := by
            refine ⟨trivial, fun persistent => ?_⟩
            cases persistent with
            | false => trivial
            | true => exact storeWrite_aside key
          have accepted : (commitSend w'.state conversationId body allowUntrusted
              (later 0).tick).2.isOk = true := by
            rw [hr]
            rfl
          obtain ⟨o, queued, owner, text⟩ := commitSend_queues accepted
          refine ⟨o, ?_, owner, text⟩
          rw [← unnoticed, ← queued]
          exact congrArg toList (aside_outbox stored _ _).outbox
      · rw [if_neg allowed] at h
        exact absurd h allowed
  · cases h

/-- What callers can rely on about the outbox, with the log of who queued and who left. -/
structure Flows (w : World) (log : QueueLog Nat) : Prop where
  /-- Every entry has its message. -/
  present : ∀ o ∈ w.state.outbox.toList, ∃ slot ∈ w.state.messages.toList, slot.message.key = o.messageKey
  /-- A peek shows the entry of the provider that waits longest. -/
  peek : ∀ provider, peekOutbox w.state provider =
    (w.state.outbox.toList.filter fun o => o.provider = provider).head?
  order : (waiting w.state).Sublist log.joined
  /-- Whatever was queued has left once or still waits once. -/
  once : log.joined.Perm (log.left ++ waiting w.state)
  /-- An accepted send queues one entry. -/
  accepted : ∀ conversationId body allowUntrusted env,
    (finish act (send conversationId body allowUntrusted) w env).2 = .ok →
      Queues w.state (finish act (send conversationId body allowUntrusted) w env).1.state
        conversationId body
  /-- The end of a waiting entry can be reported, and then just that entry is gone. -/
  ends : ∀ o ∈ w.state.outbox.toList, ∀ state error env, Terminal state →
    (finish act (outboxUpdate o.id state error) w env).2 = .ok ∧
      (finish act (outboxUpdate o.id state error) w env).1.state.outbox.toList =
        w.state.outbox.toList.filter fun other => other.id ≠ o.id
  drains : ∀ env : Outbound → Nat → Env, (Machine.run runCall w (w.state.outbox.toList.map fun o =>
    (.outboxUpdate o.id .sent none, env o))).state.outbox.toList = []

theorem Sound.flows {log : QueueLog Nat} (h : Sound (w, log)) : Flows w log where
  present o ho := by
    obtain ⟨slot, hslot, tag⟩ := mem_map.mp (h.backed.present o ho)
    exact ⟨slot, hslot, congrArg Prod.fst tag⟩
  peek := peekOutbox_eq w.state
  order := h.faithful.order
  once := h.faithful.once
  accepted _ _ _ _ := send_queues
  ends o ho state error env terminal := by
    obtain ⟨ok, removed, -⟩ := outboxUpdate_terminal h.backed ho terminal error env
    exact ⟨ok, removed⟩
  drains := drains h.backed

def QuietCall (w : World) (c : Call × (Nat → Env)) : Prop := Meets act Quiet c.1.body w c.2

instance (w : World) (c : Call × (Nat → Env)) : Decidable (QuietCall w c) :=
  decideMeets act Quiet (fun _ _ _ => inferInstance) c.1.body w c.2

/-- The outbox never wedges, whatever the start and the calls, as long as no message
overwrites one that waits to be sent and no send draws an id that still waits. -/
theorem outbox_flows (boot : Boot) (file : StoreFile) (calls : List (Call × (Nat → Env)))
    (quiet : Machine.Admits runCall QuietCall ⟨init boot, file, false⟩ calls) :
    let final := run loggedCall (⟨init boot, file, false⟩, .empty) calls
    final.1 = run runCall ⟨init boot, file, false⟩ calls ∧ Flows final.1 final.2 := by
  have both : ∀ (calls : List (Call × (Nat → Env))) (w : World) (log : QueueLog Nat),
      Sound (w, log) → Machine.Admits runCall QuietCall w calls →
      (run loggedCall (w, log) calls).1 = run runCall w calls ∧
        Sound (run loggedCall (w, log) calls) := by
    intro calls
    induction calls with
    | nil => exact fun w log h _ => ⟨rfl, h⟩
    | cons c calls ih =>
      intro w log h quiet
      have same : (loggedCall (w, log) c).1 = runCall w c := (finish_watch noteOutbox _ w log _).1
      have next : Sound (loggedCall (w, log) c) := finish_keeps watch_keeps_sound h (meets_watch noteOutbox log quiet.1)
      have rest := ih (runCall w c) (loggedCall (w, log) c).2 (by rw [← same]; exact next) quiet.2
      rw [← same] at rest
      rw [run_cons, run_cons, ← same]
      exact rest
  obtain ⟨same, sound⟩ := both calls _ .empty (init_sound boot file) quiet
  exact ⟨same, sound.flows⟩

def replyAndNotices (notices : Nat) : List (Call × (Nat → Env)) :=
  [(.publishInbound (notice 1), fun _ => calm), (.send 1 office false, fun _ => calm)] ++
    (List.range notices).map fun i => (Call.publishInbound (notice (i + 2)), fun _ => calm)

theorem outbox_flows_reply :
    let final := run loggedCall (⟨init bareBoot, bareFile, false⟩, .empty) (replyAndNotices 3)
    final.1 = run runCall ⟨init bareBoot, bareFile, false⟩ (replyAndNotices 3) ∧
      Flows final.1 final.2 :=
  outbox_flows bareBoot bareFile (replyAndNotices 3) (by decide)

/-- Enough notices overwrite the reply while it still waits; its entry is stuck. -/
theorem outbox_wedges : ¬∀ (boot : Boot) (file : StoreFile) (calls : List (Call × (Nat → Env))),
    let final := run loggedCall (⟨init boot, file, false⟩, .empty) calls
    Flows final.1 final.2 := by
  intro always
  have present := (always bareBoot bareFile (replyAndNotices 65)).present
  exact absurd present (by decide +kernel)

end SolarOs.Messaging
