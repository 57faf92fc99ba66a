import Mathlib.Logic.Function.Basic
import SolarOs.Library.Machine

/-! The channels of the chat: what the user asks for, and what the gateway answers later. -/
namespace SolarOs.Chat
open Function List Machine

def channelMax : Nat := 64
def channelCapacity : Nat := 32
def outboxCapacity : Nat := 16

abbrev Name := List UInt8

/-- `chat_string_is_valid` for a channel. -/
def channelIsValid (channel : Name) : Bool :=
  !channel.isEmpty && channel.length < channelMax && channel.all fun b => 0x20 ≤ b && b ≠ 0x7f

structure Channel where
  desired : Bool
  joined : Bool
  deriving DecidableEq

structure Command where
  join : Bool
  channel : Name
  deriving DecidableEq

/-- The channels and their number, and the commands for the gateway; one that has been executed stays in
the outbox until it is acknowledged. -/
structure State where
  channels : Name → Option Channel
  count : Nat
  executed : Bool
  commands : List Command

/-- `chat_add_channel_locked`. -/
def State.addChannel (w : State) (channel : Name) (desired joined : Bool) : State :=
  match w.channels channel with
  | some c =>
    { w with channels := update w.channels channel (some ⟨c.desired || desired, c.joined || joined⟩) }
  | none =>
    if channelCapacity ≤ w.count then w
    else { w with channels := update w.channels channel (some ⟨desired, joined⟩), count := w.count + 1 }

/-- `chat_queue_command_locked`. -/
def State.queueCommand (w : State) (command : Command) : Option State :=
  if outboxCapacity ≤ w.executed.toNat + w.commands.length then none
  else some { w with commands := w.commands ++ [command] }

/-- `solar_os_chat_join`, and whether it accepts the request. -/
def State.join (w : State) (channel : Name) : State × Bool :=
  if !channelIsValid channel then (w, false)
  else if (w.channels channel).any (·.desired) then (w, true)
  else if (w.channels channel).isNone ∧ channelCapacity ≤ w.count then (w, false)
  else match w.queueCommand ⟨true, channel⟩ with
    | none => (w, false)
    | some w => (w.addChannel channel true false, true)

def State.leave (w : State) (channel : Name) : State × Bool :=
  if !channelIsValid channel then (w, false)
  else match w.queueCommand ⟨false, channel⟩ with
    | none => (w, false)
    | some w =>
      let left := (w.channels channel).map fun c => { c with desired := false }
      ({ w with channels := update w.channels channel left }, true)

/-- `solar_os_gateway_sync_publish` of JOINED or LEFT. -/
def State.publish (w : State) (answer : Command) : State :=
  if answer.join then w.addChannel answer.channel false true
  else
    let left := (w.channels answer.channel).map fun _ => ⟨false, false⟩
    { w with channels := update w.channels answer.channel left }

/-- The chat, the answers that have not been published, and the last accepted request for each channel. -/
structure World where
  chat : State
  answers : List Command
  asked : Name → Option Bool

inductive Step where
  | join (channel : Name)
  | leave (channel : Name)
  | execute
  | ack
  | publish (i : Nat)

/-- A request that is accepted is the last one for its channel. -/
def World.request (w : World) (channel : Name) (wanted : Bool) (call : State × Bool) : World :=
  { w with chat := call.1, asked := if call.2 then update w.asked channel (some wanted) else w.asked }

/-- The gateway executes the oldest command and acknowledges it; any answer may be published next. -/
def takeStep (w : World) : Step → World
  | .join channel => w.request channel true (w.chat.join channel)
  | .leave channel => w.request channel false (w.chat.leave channel)
  | .execute =>
    match w.chat.executed, w.chat.commands with
    | false, c :: commands =>
      { w with chat := { w.chat with executed := true, commands := commands }, answers := w.answers ++ [c] }
    | _, _ => w
  | .ack => { w with chat := { w.chat with executed := false } }
  | .publish i =>
    match w.answers[i]? with
    | none => w
    | some c => { w with chat := w.chat.publish c, answers := w.answers.eraseIdx i }

/-- "general". -/
def defaultChannel : Name := [0x67, 0x65, 0x6e, 0x65, 0x72, 0x61, 0x6c]

/-- After `solar_os_chat_init`. -/
def start : World :=
  ⟨⟨update (fun _ => none) defaultChannel (some ⟨true, false⟩), 1, false, []⟩, [], fun _ => none⟩

def requestsOf (commands : List Command) (channel : Name) : List Bool :=
  (commands.filter (·.channel = channel)).map (·.join)

/-- What has been asked for a channel and not been answered. -/
def World.requests (w : World) (channel : Name) : List Bool := requestsOf (w.answers ++ w.chat.commands) channel

/-- A channel is joined when no LEAVE for it waits for its answer, nor while it is desired but neither joined
nor asked for; the answers for one channel are published in order. -/
def Timely (w : World) : Step → Prop
  | .join channel => (w.chat.join channel).2 = true → false ∉ w.requests channel ∧
    ((w.chat.channels channel).any (·.desired) = true →
      (w.chat.channels channel).any (·.joined) = true ∨ true ∈ w.requests channel)
  | .publish i => ∀ c ∈ w.answers[i]?, (w.answers.take i).all (·.channel ≠ c.channel) = true
  | _ => True

instance (w : World) : ∀ s, Decidable (Timely w s)
  | .join channel => inferInstanceAs (Decidable ((w.chat.join channel).2 = true → false ∉ w.requests channel ∧ (_ → _ ∨ _)))
  | .publish i => inferInstanceAs (Decidable (∀ c ∈ w.answers[i]?, _))
  | .leave _ => .isTrue trivial
  | .execute => .isTrue trivial
  | .ack => .isTrue trivial

/-- What the answers still to come will leave of a channel is what was asked for last. -/
structure Settles (entry : Option Channel) (requests : List Bool) (asked : Option Bool) : Prop where
  present : true ∈ requests → entry.isSome = true
  wanted : ∀ r, asked = some r →
    entry.any (·.desired) = r ∧ requests.getLast?.getD (entry.any (·.joined)) = r ∧ (r = true → false ∉ requests)

variable {entry : Option Channel} {requests : List Bool} {asked : Option Bool}

theorem Settles.again (h : Settles entry requests asked) (desired : entry.any (·.desired) = true)
    (clear : false ∉ requests) (coming : entry.any (·.joined) = true ∨ true ∈ requests) :
    Settles entry requests (some true) := by
  refine ⟨h.present, fun r is => ?_⟩
  cases is
  refine ⟨desired, ?_, fun _ => clear⟩
  cases last : requests.getLast? with
  | none =>
    rw [getLast?_eq_none_iff.mp last] at coming
    exact coming.resolve_right not_mem_nil
  | some r =>
    cases r with
    | true => rfl
    | false => exact absurd (mem_of_getLast? last) clear

theorem Settles.join (clear : false ∉ requests) (joined : Bool) :
    Settles (some ⟨true, joined⟩) (requests ++ [true]) (some true) := by
  refine ⟨fun _ => rfl, fun r is => ?_⟩
  cases is
  exact ⟨rfl, by rw [getLast?_concat]; rfl, fun _ => by simpa using clear⟩

theorem Settles.leave (h : Settles entry requests asked) :
    Settles (entry.map fun c => { c with desired := false }) (requests ++ [false]) (some false) := by
  refine ⟨fun there => ?_, fun r is => ?_⟩
  · rw [Option.isSome_map]
    exact h.present (by simpa using there)
  · cases is
    exact ⟨by cases entry <;> rfl, by rw [getLast?_concat]; rfl, nofun⟩

theorem Settles.joined {c : Channel} (h : Settles (some c) (true :: requests) asked) :
    Settles (some ⟨c.desired || false, c.joined || true⟩) requests asked := by
  refine ⟨fun _ => rfl, fun r is => ?_⟩
  obtain ⟨first, last, clear⟩ := h.wanted r is
  refine ⟨by simpa using first, ?_, fun yes there => clear yes (mem_cons_of_mem _ there)⟩
  cases requests <;> simpa [getLast?_cons] using last

theorem Settles.left (h : Settles entry (false :: requests) asked) :
    Settles (entry.map fun _ => ⟨false, false⟩) requests asked := by
  refine ⟨fun there => ?_, fun r is => ?_⟩
  · rw [Option.isSome_map]
    exact h.present (mem_cons_of_mem _ there)
  · obtain ⟨-, last, clear⟩ := h.wanted r is
    cases r with
    | true => exact absurd mem_cons_self (clear rfl)
    | false =>
      refine ⟨by cases entry <;> rfl, ?_, nofun⟩
      cases requests with
      | nil => cases entry <;> rfl
      | cons q requests => simpa [getLast?_cons] using last

variable {name channel : Name} {w w' : World}

theorem requestsOf_append (first second : List Command) :
    requestsOf (first ++ second) channel = requestsOf first channel ++ requestsOf second channel := by
  unfold requestsOf
  rw [filter_append, map_append]

theorem requestsOf_eraseIdx {answers : List Command} {c : Command} {i : Nat} (there : answers[i]? = some c)
    (first : (answers.take i).all (·.channel ≠ c.channel) = true) :
    requestsOf answers channel = requestsOf [c] channel ++ requestsOf (answers.eraseIdx i) channel := by
  induction answers generalizing i with
  | nil => cases there
  | cons d answers ih =>
    have head : ∀ rest, requestsOf (d :: rest) channel = requestsOf [d] channel ++ requestsOf rest channel :=
      requestsOf_append [d]
    rw [head answers]
    cases i with
    | zero =>
      cases there
      rfl
    | succ i =>
      rw [take_succ_cons, all_cons, Bool.and_eq_true, decide_eq_true_eq] at first
      rw [ih there first.2, eraseIdx_cons_succ, head (answers.eraseIdx i)]
      unfold requestsOf
      by_cases mine : c.channel = channel
      · have other : d.channel ≠ channel := mine ▸ first.1
        simp [other]
      · simp [mine]

/-- Every channel comes to what was asked for. -/
def Follows (w : World) : Prop := ∀ channel, Settles (w.chat.channels channel) (w.requests channel) (w.asked channel)

theorem Follows.change (h : Follows w) {entry : Option Channel}
    (channels : w'.chat.channels = update w.chat.channels name entry)
    (mine : Settles entry (w'.requests name) (w'.asked name))
    (others : ∀ other, name ≠ other → w'.requests other = w.requests other ∧ w'.asked other = w.asked other) :
    Follows w' := by
  intro channel
  rw [channels]
  by_cases same : name = channel
  · subst same
    rw [update_self]
    exact mine
  · rw [update_of_ne (Ne.symm same), (others channel same).1, (others channel same).2]
    exact h channel

theorem Follows.queue (h : Follows w) {join : Bool} {after : State} {entry : Option Channel}
    (channels : after.channels = update w.chat.channels name entry)
    (commands : after.commands = w.chat.commands ++ [⟨join, name⟩])
    (mine : Settles entry (w.requests name ++ [join]) (some join)) : Follows (w.request name join (after, true)) := by
  have queued : ∀ channel, (w.request name join (after, true)).requests channel =
      w.requests channel ++ requestsOf [⟨join, name⟩] channel := by
    intro channel
    unfold World.requests
    rw [← requestsOf_append, append_assoc, ← commands]
    rfl
  refine h.change channels ?_ fun other differs => ?_
  · rw [queued]
    unfold World.request requestsOf
    simpa using mine
  · rw [queued]
    unfold World.request requestsOf
    simp [differs, Ne.symm differs]

theorem join_cases (w : State) (name : Name) :
    w.join name = (w, false) ∨ ((w.channels name).any (·.desired) = true ∧ w.join name = (w, true)) ∨
      ∃ after joined, w.join name = (after, true) ∧
        after.channels = update w.channels name (some ⟨true, joined⟩) ∧
          after.commands = w.commands ++ [⟨true, name⟩] := by
  unfold State.join State.queueCommand
  split
  · exact .inl rfl
  split
  · rename_i desired
    exact .inr (.inl ⟨desired, rfl⟩)
  split
  · exact .inl rfl
  rename_i room
  by_cases full : outboxCapacity ≤ w.executed.toNat + w.commands.length
  · rw [if_pos full]
    exact .inl rfl
  · rw [if_neg full]
    refine .inr (.inr ?_)
    cases found : w.channels name with
    | some c => exact ⟨_, c.joined || false, rfl, by simp [State.addChannel, found], by simp [State.addChannel, found]⟩
    | none =>
      have room : ¬channelCapacity ≤ w.count := fun none => room ⟨by rw [found]; rfl, none⟩
      exact ⟨_, false, rfl, by simp [State.addChannel, found, room], by simp [State.addChannel, found, room]⟩

theorem Follows.join (h : Follows w) (timely : Timely w (.join name)) : Follows (takeStep w (.join name)) := by
  unfold Timely at timely
  unfold takeStep
  dsimp only at timely ⊢
  rcases join_cases w.chat name with refused | ⟨desired, idle⟩ | ⟨after, joined, queued, channels, commands⟩
  · rw [refused]
    exact h
  · rw [idle] at timely ⊢
    refine h.change (update_eq_self name w.chat.channels).symm ?_ fun other differs => ⟨rfl, ?_⟩
    · unfold World.request
      rw [if_pos rfl]
      dsimp only
      rw [update_self]
      exact (h name).again desired (timely rfl).1 ((timely rfl).2 desired)
    · exact update_of_ne (Ne.symm differs) _ _
  · rw [queued] at timely ⊢
    exact h.queue channels commands (Settles.join (timely rfl).1 joined)

theorem Follows.leave (h : Follows w) : Follows (takeStep w (.leave name)) := by
  unfold takeStep State.leave State.queueCommand
  dsimp only
  split
  · exact h
  by_cases full : outboxCapacity ≤ w.chat.executed.toNat + w.chat.commands.length
  · rw [if_pos full]
    exact h
  · rw [if_neg full]
    exact h.queue rfl rfl (h name).leave

theorem Follows.publish (h : Follows w) {i : Nat} (timely : Timely w (.publish i)) :
    Follows (takeStep w (.publish i)) := by
  unfold takeStep
  dsimp only
  cases there : w.answers[i]? with
  | none => exact h
  | some c =>
    have taken : ∀ commands channel, requestsOf (w.answers ++ commands) channel =
        requestsOf [c] channel ++ requestsOf (w.answers.eraseIdx i ++ commands) channel := by
      intro commands channel
      rw [requestsOf_append, requestsOf_append, requestsOf_eraseIdx there (timely c there), append_assoc]
    have others : ∀ other, c.channel ≠ other →
        requestsOf (w.answers.eraseIdx i ++ w.chat.commands) other = w.requests other := by
      intro other differs
      rw [World.requests, taken]
      unfold requestsOf
      simp [differs]
    have mine := h c.channel
    rw [World.requests, taken] at mine
    dsimp only [State.publish]
    cases join : c.join with
    | true =>
      have one : requestsOf [c] c.channel = [true] := by simp [requestsOf, join]
      rw [one] at mine
      obtain ⟨old, found⟩ := Option.isSome_iff_exists.mp (mine.present mem_cons_self)
      rw [found] at mine
      simp only [if_true, State.addChannel, found]
      exact h.change rfl mine.joined fun other differs => ⟨others other differs, rfl⟩
    | false =>
      have one : requestsOf [c] c.channel = [false] := by simp [requestsOf, join]
      rw [one] at mine
      simp only [Bool.false_eq_true, if_false]
      exact h.change rfl mine.left fun other differs => ⟨others other differs, rfl⟩

/-- Every step that is timely lets every channel come to what was asked for. -/
theorem Follows.step (h : Follows w) (s : Step) (timely : Timely w s) : Follows (takeStep w s) := by
  cases s with
  | join name => exact h.join timely
  | leave name => exact h.leave
  | publish i => exact h.publish timely
  | ack => exact h
  | execute =>
    unfold takeStep
    dsimp only
    split
    · rename_i c commands idle queued
      intro channel
      have settles := h channel
      unfold World.requests at settles ⊢
      rw [queued] at settles
      rw [append_assoc]
      exact settles
    · exact h

/-- In every run whose steps are timely, once nothing waits for an answer, a channel is desired and joined
just when its last accepted request is a join. -/
theorem intent_kept (steps : List Step) (timely : Machine.Admits takeStep Timely start steps)
    (acknowledged : (run takeStep start steps).chat.commands = [])
    (published : (run takeStep start steps).answers = []) (channel : Name) (wanted : Bool)
    (asked : (run takeStep start steps).asked channel = some wanted) :
    ((run takeStep start steps).chat.channels channel).any (·.desired) = wanted ∧
      ((run takeStep start steps).chat.channels channel).any (·.joined) = wanted := by
  have first : Follows start := fun channel => ⟨nofun, nofun⟩
  obtain ⟨desired, coming, -⟩ :=
    (run_induct (fun w s h timely => h.step s timely) first timely channel).wanted wanted asked
  rw [World.requests, acknowledged, published] at coming
  exact ⟨desired, coming⟩

/-- A channel is left once it has been joined. -/
theorem intent_kept_leave : ((run takeStep start [.join [0x61], .execute, .ack, .publish 0, .leave [0x61],
    .execute, .ack, .publish 0]).chat.channels [0x61]).any (·.desired) = false :=
  (intent_kept _ (by decide) rfl rfl [0x61] false rfl).1

/-- The answer to a LEAVE undoes the join that came after it. -/
theorem rejoin_lost : ¬∀ (steps : List Step) (channel : Name) (wanted : Bool),
    (run takeStep start steps).chat.commands = [] → (run takeStep start steps).answers = [] →
      (run takeStep start steps).asked channel = some wanted →
        ((run takeStep start steps).chat.channels channel).any (·.desired) = wanted := by
  intro claim
  have desired := claim [.join [0x61], .execute, .ack, .publish 0, .leave [0x61], .join [0x61], .execute, .ack, .execute,
    .ack, .publish 0, .publish 0] [0x61] true rfl rfl rfl
  exact absurd desired (by decide)

end SolarOs.Chat
