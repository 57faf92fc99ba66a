import SolarOs.Link.Instances
import SolarOs.Messaging.Model
import SolarOs.Library.Machine
import SolarOs.Library.Wrapping

/-! The requests of the link messaging adapter: one in flight at a time, until its frame is
sent, acknowledged, late or given up. -/
namespace SolarOs.LinkMessaging
open List
open Link (Message IngestResult broadcast decode headerSize crcSize payloadMax)
open Messaging (Delivery ConversationKind providerLink)

def ackTimeoutMs : UInt32 := 10000

/-- `link_messaging_state_t`. -/
structure Adapter where
  active : Bool
  inflight : Bool
  transmitted : Bool
  link : CString
  payloadMax : Nat
  requestId : UInt32
  destination : UInt32
  sequence : UInt16
  sessionEpoch : UInt32
  ackDeadlineMs : UInt32

def Adapter.zero : Adapter := ⟨false, false, false, .empty, 0, 0, 0, 0, 0, 0⟩

/-- What is done and what happens, in order. The adapter refuses, sends, updates and requeues
requests; the job tells it of frames and acknowledgements. -/
inductive Note where
  | refused (request : UInt32) (error : String)
  | sending (request destination : UInt32) (sequence : UInt16) (source : UInt32) (kept : Bool)
  | updated (request : UInt32) (state : Delivery) (error : Option String)
  | requeued (request : UInt32) (error : String)
  | transmitted (source destination : UInt32) (sequence : UInt16) (sent : Bool) (time : Nat)
  | acknowledged (source : UInt32) (sequence : UInt16)
  | processed (time : Nat)
  | stopped

def espErrToName : EspErr → String
  | .ok => "ESP_OK"
  | .fail => "ESP_FAIL"
  | .noMem => "ESP_ERR_NO_MEM"
  | .invalidArg => "ESP_ERR_INVALID_ARG"
  | .invalidState => "ESP_ERR_INVALID_STATE"
  | .invalidSize => "ESP_ERR_INVALID_SIZE"
  | .notFound => "ESP_ERR_NOT_FOUND"
  | .notSupported => "ESP_ERR_NOT_SUPPORTED"
  | .timeout => "ESP_ERR_TIMEOUT"
  | .invalidCrc => "ESP_ERR_INVALID_CRC"
  | .invalidVersion => "ESP_ERR_INVALID_VERSION"
  | .invalidResponse => "ESP_ERR_INVALID_RESPONSE"

def addressDecode (address : List UInt8) : Option UInt32 :=
  if address.length ≠ 4 then none
  else
    let deviceId := Link.linkReadU32 address
    if deviceId ≠ 0 ∧ deviceId ≠ broadcast then some deviceId else none

section
variable (s : Adapter)

def clearInflight : Adapter :=
  { s with inflight := false, transmitted := false, requestId := 0, destination := 0, sequence := 0, ackDeadlineMs := 0 }

def updateInflight (state : Delivery) (error : Option String) : Adapter × List Note :=
  if s.inflight = false then (s, [])
  else
    (if state = .sent ∨ state = .delivered ∨ state = .failed then clearInflight s else s,
      [.updated s.requestId state error])

structure StartReplies where
  frameMtu : Except EspErr Nat
  register : EspErr
  conversation : EspErr
  status : EspErr
  epoch : UInt32

def start (link : Option CString) (r : StartReplies) : Adapter × EspErr :=
  match link with
  | none => (s, .invalidArg)
  | some link =>
    if link.bytes = [] ∨ Link.nameMax ≤ link.strnlen Link.nameMax then (s, .invalidArg)
    else if s.active then (s, .invalidState)
    else
      match r.frameMtu with
      | .error error => (s, error)
      | .ok frameMtu =>
        if r.register ≠ .ok then (s, r.register)
        else if r.conversation ≠ .ok then (s, r.conversation)
        else if r.status ≠ .ok then (.zero, r.status)
        else
          ({ Adapter.zero with
              sessionEpoch := r.epoch
              active := true
              payloadMax := frameMtu - headerSize - crcSize
              link := link.strlcpy Link.nameMax },
            .ok)

def stop : Adapter × List Note :=
  if s.active = false then (s, [])
  else (.zero, if s.inflight then [.requeued s.requestId "Link stopped before delivery"] else [])

structure Outbound where
  id : UInt32
  conversationId : UInt32
  body : CString

structure Conversation where
  kind : ConversationKind
  endpointId : UInt32

structure Endpoint where
  provider : Nat
  trust : Messaging.Trust
  address : List UInt8

/-- What the services answer a process call: the next request, its conversation, the endpoint
of that, and what the link and the outbox make of it. `localId` is the link's. -/
structure Replies where
  peek : Except EspErr Outbound
  conversation : Except EspErr Conversation
  endpoint : Except EspErr Endpoint
  localId : UInt32
  send : Except EspErr UInt16
  update : EspErr

/-- Where a conversation leads, or why it leads nowhere. -/
def destinationOf (conversation : Conversation) (endpoint : Except EspErr Endpoint) : Except String UInt32 :=
  if conversation.kind = .broadcast then .ok broadcast
  else if conversation.kind = .direct ∧ conversation.endpointId ≠ 0 then
    match endpoint with
    | .error _ => .error "Link contact unavailable or blocked"
    | .ok endpoint =>
      if endpoint.provider ≠ providerLink ∨ endpoint.trust = .blocked then .error "Link contact unavailable or blocked"
      else
        match addressDecode endpoint.address with
        | none => .error "Link contact unavailable or blocked"
        | some destination => .ok destination
  else .error "Link supports direct and broadcast conversations"

/-- The part of `solar_os_link_messaging_process` that takes the next request. -/
def takeNext (r : Replies) : Adapter × List Note :=
  match r.peek with
  | .error _ => (s, [])
  | .ok outbound =>
    match r.conversation with
    | .error _ => (s, [.refused outbound.id "Link conversation unavailable"])
    | .ok conversation =>
      match destinationOf conversation r.endpoint with
      | .error error => (s, [.refused outbound.id error])
      | .ok destination =>
        if s.payloadMax < outbound.body.strlen then
          (s, [.refused outbound.id s!"Link text exceeds {s.payloadMax}-byte payload"])
        else
          match r.send with
          | .error error => if error = .noMem then (s, []) else (s, [.refused outbound.id (espErrToName error)])
          | .ok sequence =>
            let s := { s with inflight := true, requestId := outbound.id, destination, sequence }
            if r.update ≠ .ok then (clearInflight s, [.sending outbound.id destination sequence r.localId false])
            else (s, [.sending outbound.id destination sequence r.localId true])

def process (r : Replies) (nowMs : UInt32) : Adapter × List Note :=
  if s.active = false then (s, [])
  else if s.inflight then
    if s.transmitted = true ∧ s.destination ≠ broadcast ∧ WrapClock.reached nowMs s.ackDeadlineMs = true then
      updateInflight s .failed (some "Link acknowledgement timed out")
    else (s, [])
  else takeNext s r

def noteTransmit (frame : Option (List UInt8)) (result : EspErr) (nowMs : UInt32) : Adapter × List Note :=
  if s.active = false ∨ s.inflight = false then (s, [])
  else
    match frame.map decode with
    | some (.ok message) =>
      if message.type ≠ .text ∨ message.sequence ≠ s.sequence ∨ message.destination ≠ s.destination then (s, [])
      else if result ≠ .ok then updateInflight s .failed (some (espErrToName result))
      else if message.destination = broadcast then updateInflight s .sent none
      else ({ s with transmitted := true, ackDeadlineMs := nowMs + ackTimeoutMs }, [])
    | _ => (s, [])

def zeroMessage : Message := ⟨0, 0, .other 0, 0, 0, 0, []⟩

/-- `solar_os_link_messaging_note_ingest`; `projected` is what the contacts and the messages
answer when a text is stored. -/
def noteIngest (result : Option IngestResult) (projected : EspErr) : Adapter × List Note × EspErr :=
  match result with
  | none => (s, [], .invalidState)
  | some result =>
    let message := result.message.getD zeroMessage
    if s.active = false then (s, [], .invalidState)
    else if result.acknowledgement then
      if s.inflight = true ∧ s.destination = message.source ∧ s.sequence = message.sequence then
        ((updateInflight s .delivered none).1, (updateInflight s .delivered none).2, .ok)
      else (s, [], .ok)
    else if result.accepted = false ∨ message.type ≠ .text then (s, [], .ok)
    else if payloadMax < message.payload.length ∨ 0 ∈ message.payload then (s, [], .invalidArg)
    else (s, [], projected)

inductive Call where
  | start (link : Option CString) (replies : StartReplies)
  | process (replies : Replies) (time : Nat)
  | noteTransmit (frame : Option (List UInt8)) (result : EspErr) (time : Nat)
  | noteIngest (result : Option IngestResult) (projected : EspErr) (time : Nat)
  | stop

structure World where
  adapter : Adapter
  history : List Note
  clock : Nat

def World.initial (clock : Nat) : World := ⟨.zero, [], clock⟩

/-- The note of a frame that is given to the radio: only texts matter. -/
def transmission (frame : Option (List UInt8)) (result : EspErr) (time : Nat) : List Note :=
  match frame.map decode with
  | some (.ok message) =>
    if message.type = .text then
      [.transmitted message.source message.destination message.sequence (result = .ok) time]
    else []
  | _ => []

def acknowledgement : Option IngestResult → List Note
  | some result =>
    let message := result.message.getD zeroMessage
    if result.acknowledgement then [.acknowledged message.source message.sequence] else []
  | none => []

def happen (w : World) : Call → World
  | .start link replies => { w with adapter := (start w.adapter link replies).1 }
  | .process replies time =>
    let done := process w.adapter replies (WrapClock.reading time)
    ⟨done.1, w.history ++ done.2 ++ [.processed time], time⟩
  | .noteTransmit frame result time =>
    let done := noteTransmit w.adapter frame result (WrapClock.reading time)
    ⟨done.1, w.history ++ transmission frame result time ++ done.2, time⟩
  | .noteIngest result projected time =>
    let done := noteIngest w.adapter result projected
    ⟨done.1, w.history ++ acknowledgement result ++ done.2.1, time⟩
  | .stop => ⟨(stop w.adapter).1, w.history ++ (stop w.adapter).2 ++ [.stopped], w.clock⟩

/-- A request in flight: where its frame goes and under which number, whether that was
acknowledged, and when the frame was first handed to the radio. -/
structure Flight where
  request : UInt32
  destination : UInt32
  sequence : UInt16
  source : UInt32
  acknowledged : Bool
  handed : Option Nat

def follow (f : Option Flight) : Note → Option Flight
  | .sending request destination sequence source true => some ⟨request, destination, sequence, source, false, none⟩
  | .updated _ _ _ => none
  | .requeued _ _ => none
  | .transmitted source destination sequence true time =>
    f.map fun g =>
      if source = g.source ∧ destination = g.destination ∧ sequence = g.sequence then
        { g with handed := some (g.handed.getD time) }
      else g
  | .acknowledged source sequence =>
    f.map fun g => if source = g.destination ∧ sequence = g.sequence then { g with acknowledged := true } else g
  | _ => f

/-- A request is refused or taken in flight when none is; one in flight is reported under its
id, as delivered only if it was acknowledged; after a process call ten seconds after its
frame, and after a stop, none is in flight. -/
def Permitted : Option Flight → Note → Prop
  | f, .refused _ _ => f = none
  | f, .sending _ _ _ _ _ => f = none
  | none, .updated _ _ _ => False
  | some g, .updated request state _ => g.request = request ∧
      (state = .sent ∨ state = .failed ∨ state = .delivered ∧ g.acknowledged = true ∧ g.destination ≠ broadcast)
  | none, .requeued _ _ => False
  | some g, .requeued request _ => g.request = request
  | some g, .processed time => ∀ handed, g.handed = some handed → time < handed + 10000
  | f, .stopped => f = none
  | _, _ => True

def Sound : Option Flight → List Note → Prop
  | _, [] => True
  | f, note :: notes => Permitted f note ∧ Sound (follow f note) notes

def Timely (w : World) : Call → Prop
  | .start _ _ => True
  | .process _ time => w.clock ≤ time ∧ time - w.clock < 2147483648
  | .noteTransmit _ _ time => w.clock ≤ time ∧ time - w.clock < 2147483648
  | .noteIngest _ _ time => w.clock ≤ time ∧ time - w.clock < 2147483648
  | .stop => True

def World.flight (w : World) : Option Flight := w.history.foldl follow none

/-- The call is not one that misleads the adapter: no acknowledgement of a broadcast comes from
the broadcast address, no second text has the number and the destination of one in flight that was handed to
the radio, and a process call comes before the clock has gone half round since the deadline. -/
def Heeded (w : World) : Call → Prop
  | .process _ time => ∀ g handed, w.flight = some g → g.handed = some handed → time < handed + 10000 + 2147483648
  | .noteTransmit frame result _ => ∀ g handed message, w.flight = some g → g.handed = some handed →
      frame.map decode = some (.ok message) → result = .ok →
        ¬(message.type = .text ∧ message.sequence = g.sequence ∧ message.destination = g.destination)
  | .noteIngest result _ _ => ∀ g r, w.flight = some g → result = some r → r.acknowledgement = true →
      g.destination = broadcast →
        ¬((r.message.getD zeroMessage).source = broadcast ∧ (r.message.getD zeroMessage).sequence = g.sequence)
  | _ => True

structure Tracks (f : Option Flight) : Prop where
  idle : f = none → s.inflight = false
  busy : ∀ g, f = some g → s.active = true ∧ s.inflight = true ∧
    s.requestId = g.request ∧ s.destination = g.destination ∧ s.sequence = g.sequence
  waits : ∀ g handed, f = some g → g.handed = some handed →
    s.transmitted = true ∧ g.destination ≠ broadcast ∧ s.ackDeadlineMs = WrapClock.reading (handed + 10000)

end

def Leads (f : Option Flight) (notes : List Note) (s : Adapter) : Prop :=
  Sound f notes ∧ Tracks s (notes.foldl follow f)

variable {s : Adapter} {f : Option Flight} {g : Flight} {w : World}

theorem sound_append {first second : List Note} :
    Sound f (first ++ second) ↔ Sound f first ∧ Sound (first.foldl follow f) second := by
  induction first generalizing f with
  | nil => exact ⟨fun later => ⟨trivial, later⟩, fun both => both.2⟩
  | cons note notes ih =>
    constructor
    · rintro ⟨now, later⟩
      obtain ⟨soon, after⟩ := ih.mp later
      exact ⟨⟨now, soon⟩, after⟩
    · rintro ⟨⟨now, soon⟩, after⟩
      exact ⟨now, ih.mpr ⟨soon, after⟩⟩

theorem Leads.append {first second : List Note} (sound : Sound f first)
    (then_ : Leads (first.foldl follow f) second s) : Leads f (first ++ second) s := by
  refine ⟨sound_append.mpr ⟨sound, then_.1⟩, ?_⟩
  rw [foldl_append]
  exact then_.2

theorem Tracks.unoccupied (idle : s.inflight = false) : Tracks s none :=
  ⟨fun _ => idle, nofun, nofun⟩

theorem Tracks.inactive (h : Tracks s f) (inactive : s.active = false) : f = none := by
  cases f with
  | none => rfl
  | some g => exact absurd (h.busy g rfl).1 (by rw [inactive]; decide)

theorem Tracks.free (h : Tracks s f) (free : s.inflight = false) : f = none := by
  cases f with
  | none => rfl
  | some g => exact absurd (h.busy g rfl).2.1 (by rw [free]; decide)

theorem Tracks.flies (h : Tracks s f) (inflight : s.inflight = true) : ∃ g, f = some g := by
  cases f with
  | none => exact absurd inflight (by rw [h.idle rfl]; decide)
  | some g => exact ⟨g, rfl⟩

theorem updateInflight_leads {state : Delivery} (inflight : s.inflight = true) (request : s.requestId = g.request)
    (error : Option String)
    (fits : state = .sent ∨ state = .failed ∨ state = .delivered ∧ g.acknowledged = true ∧ g.destination ≠ broadcast) :
    Leads (some g) (updateInflight s state error).2 (updateInflight s state error).1 := by
  have final : state = .sent ∨ state = .delivered ∨ state = .failed := by
    rcases fits with sent | failed | ⟨delivered, -⟩
    · exact .inl sent
    · exact .inr (.inr failed)
    · exact .inr (.inl delivered)
  unfold updateInflight
  rw [if_neg (by rw [inflight]; decide), if_pos final]
  exact ⟨⟨⟨request.symm, fits⟩, trivial⟩, .unoccupied rfl⟩

theorem Tracks.takeNext (h : Tracks s none) (active : s.active = true) (r : Replies) (time : Nat) :
    Leads none ((takeNext s r).2 ++ [.processed time]) (takeNext s r).1 := by
  have kept : Leads none [.processed time] s := ⟨⟨trivial, trivial⟩, h⟩
  have refuse : ∀ request error, Leads none [.refused request error, .processed time] s :=
    fun request error => ⟨⟨rfl, trivial, trivial⟩, h⟩
  unfold LinkMessaging.takeNext
  split
  · exact kept
  · split
    · exact refuse _ _
    · split
      · exact refuse _ _
      · split
        · exact refuse _ _
        · split
          · split
            · exact kept
            · exact refuse _ _
          · split
            · exact ⟨⟨rfl, trivial, trivial⟩, .unoccupied rfl⟩
            · refine ⟨⟨rfl, nofun, trivial⟩, nofun, ?_, ?_⟩
              · intro g is
                cases is
                exact ⟨active, rfl, rfl, rfl, rfl⟩
              · intro g handed is
                cases is
                intro never
                cases never

theorem Tracks.process (h : Tracks s f) (r : Replies) {time : Nat}
    (near : ∀ g handed, f = some g → g.handed = some handed → time < handed + 10000 + 2147483648) :
    Leads f ((process s r (WrapClock.reading time)).2 ++ [.processed time]) (process s r (WrapClock.reading time)).1 := by
  have passed : ∀ {t : Adapter}, Tracks t none → Leads none [.processed time] t := fun h => ⟨⟨trivial, trivial⟩, h⟩
  unfold LinkMessaging.process
  split
  · rename_i inactive
    obtain rfl := h.inactive inactive
    exact passed h
  · rename_i active
    rw [Bool.not_eq_false] at active
    split
    · rename_i inflight
      obtain ⟨g, rfl⟩ := h.flies inflight
      split
      · obtain ⟨sound, tracks⟩ := updateInflight_leads inflight (h.busy g rfl).2.2.1 (some "Link acknowledgement timed out")
          (.inr (.inl rfl))
        refine Leads.append sound ?_
        unfold LinkMessaging.updateInflight at tracks ⊢
        rw [if_neg (by rw [inflight]; decide)] at tracks ⊢
        exact passed tracks
      · rename_i waits
        refine ⟨⟨?_, trivial⟩, h⟩
        intro handed is
        obtain ⟨transmitted, single, deadline⟩ := h.waits g handed rfl is
        by_contra late
        refine waits ⟨transmitted, ?_, ?_⟩
        · rw [(h.busy g rfl).2.2.2.1]
          exact single
        · rw [deadline]
          have soon := near g handed rfl is
          exact WrapClock.reached_of_le (by omega) (by omega)
    · rename_i free
      rw [Bool.not_eq_true] at free
      obtain rfl := h.free free
      exact h.takeNext active r time

theorem transmission_of {frame : Option (List UInt8)} {message : Message} (is : frame.map decode = some (.ok message))
    (text : message.type = .text) (result : EspErr) (time : Nat) : transmission frame result time =
      [.transmitted message.source message.destination message.sequence (result = .ok) time] := by
  rw [transmission, is]
  exact if_pos text

theorem follow_other {message : Message} (sent : Bool) (time : Nat)
    (other : ¬(message.sequence = g.sequence ∧ message.destination = g.destination)) :
    follow (some g) (.transmitted message.source message.destination message.sequence sent time) = some g := by
  cases sent with
  | false => rfl
  | true => exact congrArg some (if_neg fun same => other ⟨same.2.2, same.2.1⟩)

theorem follow_transmitted_none (source destination : UInt32) (sequence : UInt16) (sent : Bool) (time : Nat) :
    follow none (.transmitted source destination sequence sent time) = none := by
  cases sent <;> rfl

theorem transmission_none (frame : Option (List UInt8)) (result : EspErr) (time : Nat) :
    (transmission frame result time).foldl follow none = none := by
  unfold transmission
  split
  · split
    · exact follow_transmitted_none _ _ _ _ _
    · rfl
  · rfl

theorem transmission_sound (f : Option Flight) (frame : Option (List UInt8)) (result : EspErr) (time : Nat) :
    Sound f (transmission frame result time) := by
  unfold transmission
  split
  · split
    · cases f <;> exact ⟨trivial, trivial⟩
    · trivial
  · trivial

theorem Tracks.noteTransmit (h : Tracks s f) (frame : Option (List UInt8)) (result : EspErr) (time : Nat)
    (once : ∀ g handed message, f = some g → g.handed = some handed → frame.map decode = some (.ok message) → result = .ok →
      ¬(message.type = .text ∧ message.sequence = g.sequence ∧ message.destination = g.destination)) :
    Leads f (transmission frame result time ++ (noteTransmit s frame result (WrapClock.reading time)).2)
      (noteTransmit s frame result (WrapClock.reading time)).1 := by
  refine Leads.append (transmission_sound f frame result time) ?_
  have silent : f = none → Leads ((transmission frame result time).foldl follow f) [] s := by
    rintro rfl
    rw [transmission_none]
    exact ⟨trivial, h⟩
  unfold LinkMessaging.noteTransmit
  split
  · rename_i off
    exact silent (off.elim h.inactive h.free)
  · rename_i on
    rw [not_or, Bool.not_eq_false, Bool.not_eq_false] at on
    obtain ⟨g, rfl⟩ := h.flies on.2
    obtain ⟨-, inflight, request, destination, sequence⟩ := h.busy g rfl
    split
    · rename_i message decoded
      split
      · rename_i other
        have same : (transmission frame result time).foldl follow (some g) = some g := by
          by_cases text : message.type = .text
          · rw [transmission_of decoded text]
            refine follow_other _ time fun same => ?_
            rw [sequence, destination] at other
            exact other.elim (absurd text) fun other => other.elim (absurd same.1) (absurd same.2)
          · rw [transmission, decoded]
            dsimp only
            rw [if_neg text]
            rfl
        rw [same]
        exact ⟨trivial, h⟩
      · rename_i matching
        rw [not_or, not_or, not_not, not_not, not_not, sequence, destination] at matching
        obtain ⟨text, sameSequence, sameDestination⟩ := matching
        rw [transmission_of decoded text]
        split
        · rename_i failed
          rw [decide_eq_false failed]
          exact updateInflight_leads inflight request _ (.inr (.inl rfl))
        · rename_i sent
          rw [not_not] at sent
          have fresh : g.handed = none := by
            cases is : g.handed with
            | none => rfl
            | some handed => exact absurd ⟨text, sameSequence, sameDestination⟩ (once g handed message rfl is decoded sent)
          rw [decide_eq_true sent]
          obtain ⟨g', next, sameRequest, here, there, handedNow⟩ : ∃ g', [Note.transmitted message.source message.destination
              message.sequence true time].foldl follow (some g) = some g' ∧ g'.request = g.request ∧
              g'.destination = g.destination ∧ g'.sequence = g.sequence ∧ ∀ handed, g'.handed = some handed → handed = time := by
            rw [foldl_cons, foldl_nil, follow, Option.map_some, sameDestination, sameSequence, fresh]
            refine ⟨_, rfl, ?_⟩
            split
            · exact ⟨rfl, rfl, rfl, fun handed is => (Option.some.inj is).symm⟩
            · exact ⟨rfl, rfl, rfl, fun handed is => absurd is (by rw [fresh]; exact nofun)⟩
          rw [next]
          by_cases wide : message.destination = broadcast
          · rw [if_pos wide]
            exact updateInflight_leads inflight (request.trans sameRequest.symm) none (.inl rfl)
          · rw [if_neg wide]
            refine ⟨trivial, nofun, ?_, ?_⟩
            · intro g'' is
              cases is
              exact ⟨(h.busy g rfl).1, inflight, request.trans sameRequest.symm, destination.trans here.symm,
                sequence.trans there.symm⟩
            · intro g'' handed is own
              cases is
              rw [handedNow handed own]
              refine ⟨rfl, ?_, WrapClock.reading_add time 10000⟩
              rw [here, ← sameDestination]
              exact wide
    · rename_i broken
      have empty : transmission frame result time = [] := by
        unfold transmission
        split
        · rename_i message decoded
          exact absurd decoded (broken message)
        · rfl
      rw [empty]
      exact ⟨trivial, h⟩

theorem Tracks.noteIngest (h : Tracks s f) (result : Option IngestResult) (projected : EspErr)
    (single : ∀ g r, f = some g → result = some r → r.acknowledgement = true → g.destination = broadcast →
      ¬((r.message.getD zeroMessage).source = broadcast ∧ (r.message.getD zeroMessage).sequence = g.sequence)) :
    Leads f (acknowledgement result ++ (noteIngest s result projected).2.1) (noteIngest s result projected).1 := by
  cases result with
  | none => exact ⟨trivial, h⟩
  | some result =>
    have quiet : result.acknowledgement = false → Leads f (acknowledgement (some result)) s := by
      intro no
      rw [acknowledgement, no]
      exact ⟨trivial, h⟩
    unfold LinkMessaging.noteIngest
    dsimp only
    split
    · rename_i inactive
      obtain rfl := h.inactive inactive
      rw [append_nil]
      unfold acknowledgement
      dsimp only
      split
      · exact ⟨⟨trivial, trivial⟩, h⟩
      · exact ⟨trivial, h⟩
    · split
      · rename_i yes
        have heard : acknowledgement (some result) = [.acknowledged (result.message.getD zeroMessage).source
            (result.message.getD zeroMessage).sequence] := if_pos yes
        rw [heard]
        split
        · rename_i answers
          obtain ⟨inflight, destination, sequence⟩ := answers
          obtain ⟨g, rfl⟩ := h.flies inflight
          obtain ⟨-, -, request, sameDestination, sameSequence⟩ := h.busy g rfl
          rw [sameDestination] at destination
          rw [sameSequence] at sequence
          have next : follow (some g) (.acknowledged (result.message.getD zeroMessage).source
              (result.message.getD zeroMessage).sequence) = some { g with acknowledged := true } :=
            congrArg some (if_pos ⟨destination.symm, sequence.symm⟩)
          refine Leads.append ⟨trivial, trivial⟩ ?_
          rw [foldl_cons, next]
          have report := @updateInflight_leads s { g with acknowledged := true } .delivered inflight request none
          refine report (.inr (.inr ⟨rfl, rfl, ?_⟩))
          intro wide
          exact single g result rfl rfl yes wide ⟨destination.symm.trans wide, sequence.symm⟩
        · rename_i other
          refine ⟨⟨?_, trivial⟩, ?_⟩
          · cases f <;> trivial
          · have same : follow f (.acknowledged (result.message.getD zeroMessage).source
                (result.message.getD zeroMessage).sequence) = f := by
              cases f with
              | none => rfl
              | some g =>
                obtain ⟨-, inflight, -, destination, sequence⟩ := h.busy g rfl
                refine congrArg some (if_neg fun answers => other ⟨inflight, ?_, ?_⟩)
                · rw [destination, answers.1]
                · rw [sequence, answers.2]
            rw [append_nil, foldl_cons, same]
            exact h
      · rename_i no
        rw [Bool.not_eq_true] at no
        split
        · rw [append_nil]
          exact quiet no
        · split
          · rw [append_nil]
            exact quiet no
          · rw [append_nil]
            exact quiet no

theorem Tracks.stop (h : Tracks s f) : Leads f ((stop s).2 ++ [.stopped]) (stop s).1 := by
  unfold LinkMessaging.stop
  split
  · rename_i inactive
    obtain rfl := h.inactive inactive
    exact ⟨⟨rfl, trivial⟩, h⟩
  · split
    · rename_i inflight
      obtain ⟨g, rfl⟩ := h.flies inflight
      exact ⟨⟨(h.busy g rfl).2.2.1.symm, rfl, trivial⟩, .unoccupied rfl⟩
    · rename_i free
      rw [Bool.not_eq_true] at free
      obtain rfl := h.free free
      exact ⟨⟨rfl, trivial⟩, .unoccupied rfl⟩

theorem Tracks.start (h : Tracks s f) (link : Option CString) (r : StartReplies) : Tracks (start s link r).1 f := by
  unfold LinkMessaging.start
  split
  · exact h
  · split
    · exact h
    · split
      · exact h
      · rename_i inactive
        rw [Bool.not_eq_true] at inactive
        obtain rfl := h.inactive inactive
        split
        · exact h
        · split
          · exact h
          · split
            · exact h
            · split <;> exact .unoccupied rfl

/-- The history is sound and the adapter tracks the request in flight. -/
structure Kept (w : World) : Prop where
  sound : Sound none w.history
  tracks : Tracks w.adapter w.flight

theorem Kept.extend (h : Kept w) {notes : List Note} (leads : Leads w.flight notes s) (clock : Nat) :
    Kept ⟨s, w.history ++ notes, clock⟩ := by
  refine ⟨sound_append.mpr ⟨h.sound, leads.1⟩, ?_⟩
  rw [World.flight, foldl_append]
  exact leads.2

theorem Kept.happen (h : Kept w) (c : Call) (heeded : Heeded w c) : Kept (happen w c) := by
  cases c with
  | start link replies => exact ⟨h.sound, h.tracks.start link replies⟩
  | process replies time =>
    unfold LinkMessaging.happen
    dsimp only
    rw [append_assoc]
    exact h.extend (h.tracks.process replies heeded) time
  | noteTransmit frame result time =>
    unfold LinkMessaging.happen
    dsimp only
    rw [append_assoc]
    exact h.extend (h.tracks.noteTransmit frame result time heeded) time
  | noteIngest result projected time =>
    unfold LinkMessaging.happen
    dsimp only
    rw [append_assoc]
    exact h.extend (h.tracks.noteIngest result projected heeded) time
  | stop =>
    unfold LinkMessaging.happen
    rw [append_assoc]
    exact h.extend h.tracks.stop w.clock

/-- In every run whose calls do not mislead the adapter, one request at a time is in flight,
it is reported once and as the acknowledgements have it, and it is released in time. -/
theorem requests_tracked (clock : Nat) {calls : List Call}
    (run : Machine.Admits happen (fun w c => Timely w c ∧ Heeded w c) (World.initial clock) calls) :
    Sound none (Machine.run happen (World.initial clock) calls).history := by
  have start : Kept (World.initial clock) := ⟨trivial, .unoccupied rfl⟩
  have kept : Kept (Machine.run happen (World.initial clock) calls) :=
    Machine.run_induct (fun _ c kept allowed => kept.happen c allowed.2) start run
  exact kept.sound

def linkName : CString := .ofBytes [0x61]

/-- One broadcast text is in the outbox. -/
def broadcastReplies : Replies where
  peek := .ok ⟨1, 1, .ofBytes [0x68, 0x69]⟩
  conversation := .ok ⟨.broadcast, 0⟩
  endpoint := .error .notFound
  localId := 5
  send := .ok 1
  update := .ok

def acknowledgementFrom (source : UInt32) : IngestResult :=
  ⟨false, false, true, some ⟨1, 0, .acknowledgement, 1, source, 5, []⟩⟩

def broadcastCalls (source : UInt32) : List Call :=
  [.start (some linkName) ⟨.ok 250, .ok, .ok, .ok, 7⟩, .process broadcastReplies 1,
    .noteIngest (some (acknowledgementFrom source)) .ok 2]

theorem broadcast_delivered : ¬∀ (clock : Nat) (calls : List Call),
    Machine.Admits happen Timely (World.initial clock) calls →
      Sound none (Machine.run happen (World.initial clock) calls).history := by
  intro claimed
  have timely : Machine.Admits happen Timely (World.initial 0) (broadcastCalls broadcast) :=
    ⟨trivial, ⟨by decide, by decide⟩, ⟨by decide, by decide⟩, trivial⟩
  have sound := claimed 0 (broadcastCalls broadcast) timely
  obtain ⟨-, -, -, ⟨-, sent | failed | delivered⟩, -⟩ := sound
  · cases sent
  · cases failed
  · exact delivered.2.2 rfl

/-- The same acknowledgement from another device is heeded. -/
theorem requests_tracked_first :
    Machine.Admits happen (fun w c => Timely w c ∧ Heeded w c) (World.initial 0) (broadcastCalls 9) ∧
      Sound none (Machine.run happen (World.initial 0) (broadcastCalls 9)).history := by
  have run : Machine.Admits happen (fun w c => Timely w c ∧ Heeded w c) (World.initial 0) (broadcastCalls 9) := by
    refine ⟨⟨trivial, trivial⟩, ⟨⟨by decide, by decide⟩, ?_⟩, ⟨⟨by decide, by decide⟩, ?_⟩, trivial⟩
    · intro g handed none
      cases none
    · intro g r _ is _ _ wide
      cases is
      exact absurd wide.1 (by decide)
  exact ⟨run, requests_tracked 0 run⟩

end SolarOs.LinkMessaging
