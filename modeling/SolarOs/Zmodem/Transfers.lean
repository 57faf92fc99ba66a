import SolarOs.Zmodem.Integrity
import SolarOs.Zmodem.RoundTrip

/-! The receiver follows the stream: what it noted and wrote is what the stream holds. -/
namespace SolarOs.Zmodem
open Program List

variable {w w' w'' : World}

/-- Between two states, these headers of an open file were read and these subpackets written. -/
structure Follows (headers : List (Header × Nat)) (data : List (List UInt8)) (w w' : World) : Prop where
  heard : w'.heard = w.heard ++ headers
  packets : w'.packets = w.packets ++ data
  file : w'.file = w.file ++ data.flatten
  written : w'.written = w.written + data.flatten.length
  opened : w'.opened = w.opened

theorem Follows.refl (w : World) : Follows [] [] w w := by
  constructor <;> simp

theorem Follows.trans {headers headers' : List (Header × Nat)} {data data' : List (List UInt8)}
    (h : Follows headers data w w') (h' : Follows headers' data' w' w'') :
    Follows (headers ++ headers') (data ++ data') w w'' where
  heard := by rw [h'.heard, h.heard, append_assoc]
  packets := by rw [h'.packets, h.packets, append_assoc]
  file := by rw [h'.file, h.file, flatten_append, append_assoc]
  written := by rw [h'.written, h.written, flatten_append, length_append, Nat.add_assoc]
  opened := h'.opened.trans h.opened

variable {rest : Feed}

theorem act_readHeader_ok {header : Header} (read : zmReadHeader w.feed = (.ok header, rest))
    (m : Moment) : act .readHeader w m = ({ w with feed := rest }.hear header, .ok header) := by
  simp only [act, read]

theorem act_readHeader_error {fault : Fault} (read : zmReadHeader w.feed = (.error fault, rest))
    (m : Moment) : act .readHeader w m = ({ w with feed := rest }, .error fault) := by
  simp only [act, read]

theorem act_readDataPacket_ok {mode : CrcMode} {bufferLen : Nat} {data : List UInt8} {terminator : UInt8}
    (read : zmReadDataPacket mode bufferLen w.feed = (.ok (data, terminator), rest)) (m : Moment) :
    act (.readDataPacket mode bufferLen) w m = ({ w with feed := rest }.take data, .ok (data, terminator)) := by
  simp only [act, read]

theorem act_readDataPacket_error {mode : CrcMode} {bufferLen : Nat} {fault : Fault}
    (read : zmReadDataPacket mode bufferLen w.feed = (.error fault, rest)) (m : Moment) :
    act (.readDataPacket mode bufferLen) w m = ({ w with feed := rest }, .error fault) := by
  simp only [act, read]

theorem follows_hear (isOpen : w.isOpen = true) (header : Header) (rest : Feed) :
    Follows [(header, w.written)] [] w ({ w with feed := rest }.hear header) := by
  rw [World.hear, if_pos isOpen]
  constructor <;> simp

theorem follows_sent (w : World) (sent : List UInt8) : Follows [] [] w { w with sent } := by
  constructor <;> simp

theorem store_follows (isOpen : w.isOpen = true) (data : List UInt8) (rest : Feed) :
    Wp act (fun stored w' => stored = true → w'.isOpen = true ∧ w'.feed = rest ∧ Follows [] [data] w w')
      (if data.length > 0 then invoke (.fwrite data) else return true) ({ w with feed := rest }.take data) := by
  have taken : { w with feed := rest }.take data =
      { w with feed := rest, packets := w.packets ++ [data] } := if_pos isOpen
  rw [taken]
  split
  · intro m
    cases done : m.succeeded with
    | false =>
      simp only [act, done]
      exact nofun
    | true =>
      simp only [act, done, if_true]
      refine fun _ => ⟨isOpen, rfl, ?_⟩
      constructor <;> simp [World.append]
  · rename_i empty
    have nothing : data = [] := eq_nil_of_length_eq_zero (Nat.eq_zero_of_not_pos empty)
    refine fun _ => ⟨isOpen, rfl, ?_⟩
    constructor <;> simp [nothing]

theorem recvFileData_follows {mode : CrcMode} {fuel : Nat} {transferred : UInt64} (isOpen : w.isOpen = true) :
    Wp act (fun outcome w' => ∀ transferred', outcome = some (.ok, transferred') →
      w'.isOpen = true ∧ ∃ data, Subpackets mode w.feed data w'.feed ∧ Follows [] data w w')
      (recvFileData mode fuel transferred) w := by
  induction fuel generalizing w transferred with
  | zero => exact nofun
  | succ fuel ih =>
    rcases read : zmReadDataPacket mode zmRecvChunkSize w.feed with ⟨fault | ⟨data, terminator⟩, rest⟩
    · refine Wp.invoke_bind fun m => ⟨_, _, act_readDataPacket_error read m, ?_⟩
      intro transferred' h
      exact absurd (Prod.mk.inj (Option.some.inj h)).1 fault.failed
    · refine Wp.invoke_bind fun m => ⟨_, _, act_readDataPacket_ok read m, ?_⟩
      refine Wp.bind (store_follows isOpen data rest) fun stored w₁ written => ?_
      cases stored with
      | false => exact nofun
      | true =>
        obtain ⟨isOpen₁, feed₁, follows⟩ := written rfl
        have onward : ∀ (sent : List UInt8) (t : UInt64), ¬(terminator = zcrce ∨ terminator = zcrcw) →
            Wp act (fun outcome w' => ∀ transferred', outcome = some (.ok, transferred') →
              w'.isOpen = true ∧ ∃ data, Subpackets mode w.feed data w'.feed ∧ Follows [] data w w')
              (recvFileData mode fuel t) { w₁ with sent } := by
          intro sent t on
          refine Wp.mono (ih isOpen₁) ?_
          intro outcome w' later transferred' same
          obtain ⟨isOpen', more, run, follows'⟩ := later _ same
          exact ⟨isOpen', data :: more, .more (feed₁ ▸ read) on run,
            follows.trans ((follows_sent w₁ sent).trans follows')⟩
        by_cases crce : terminator = zcrce
        · rw [if_pos crce]
          exact fun _ _ => ⟨isOpen₁, [data], .last (feed₁ ▸ read) (.inl crce), follows⟩
        · rw [if_neg crce]
          by_cases acked : terminator = zcrcq ∨ terminator = zcrcw
          · rw [if_pos acked]
            refine Wp.invoke_bind fun m => ⟨_, _, rfl, ?_⟩
            by_cases crcw : terminator = zcrcw
            · rw [if_pos crcw]
              exact fun _ _ => ⟨isOpen₁, [data], .last (feed₁ ▸ read) (.inr crcw), follows.trans (follows_sent w₁ _)⟩
            · rw [if_neg crcw]
              exact onward _ _ (not_or_intro crce crcw)
          · rw [if_neg acked]
            exact onward w₁.sent _ (not_or_intro crce fun crcw => acked (.inr crcw))

def Quiet : {β : Type} → Op β → Prop
  | _, .readHeader | _, .readDataPacket .. | _, .fopen _ | _, .fwrite _ => False
  | _, _ => True

def Closed : {β : Type} → Op β → Prop
  | _, .fopen _ | _, .fwrite _ => False
  | _, _ => True

theorem follows_quiet {β : Type} (op : Op β) (s : World) (m : Moment) (quiet : Quiet op)
    (h : Follows [] [] w s) : Follows [] [] w (act op s m).1 := by
  cases op with
  | readHeader => exact quiet.elim
  | readDataPacket => exact quiet.elim
  | fopen => exact quiet.elim
  | fwrite => exact quiet.elim
  | write bytes => exact h.trans (follows_sent s _)
  | _ => exact ⟨h.heard, h.packets, h.file, h.written, h.opened⟩

theorem follows_closed {β : Type} (op : Op β) (s : World) (m : Moment) (closed : Closed op)
    (h : s.isOpen = false ∧ Follows [] [] w s) : (act op s m).1.isOpen = false ∧ Follows [] [] w (act op s m).1 := by
  obtain ⟨shut, h⟩ := h
  have same : ∀ rest, Follows [] [] w { s with feed := rest } := fun rest =>
    ⟨h.heard, h.packets, h.file, h.written, h.opened⟩
  cases op with
  | fopen => exact closed.elim
  | fwrite => exact closed.elim
  | readHeader =>
    rcases read : zmReadHeader s.feed with ⟨fault | header, rest⟩
    · rw [act_readHeader_error read]
      exact ⟨shut, same rest⟩
    · have unheard : { s with feed := rest }.hear header = { s with feed := rest } := if_neg (shut ▸ Bool.false_ne_true)
      rw [act_readHeader_ok read, unheard]
      exact ⟨shut, same rest⟩
  | readDataPacket mode bufferLen =>
    rcases read : zmReadDataPacket mode bufferLen s.feed with ⟨fault | ⟨data, terminator⟩, rest⟩
    · rw [act_readDataPacket_error read]
      exact ⟨shut, same rest⟩
    · have untaken : { s with feed := rest }.take data = { s with feed := rest } := if_neg (shut ▸ Bool.false_ne_true)
      rw [act_readDataPacket_ok read, untaken]
      exact ⟨shut, same rest⟩
  | fclose => exact ⟨rfl, h.heard, h.packets, h.file, h.written, h.opened⟩
  | write bytes => exact ⟨shut, h.trans (follows_sent s _)⟩
  | readByte => exact ⟨shut, same _⟩
  | _ => exact ⟨shut, h⟩

theorem quiet_readOo : Only Quiet readOo := by
  refine ⟨trivial, fun reply => ?_⟩
  cases reply with
  | error fault => trivial
  | ok byte =>
    show Only Quiet (if byte ≠ 0x4f then _ else _)
    split
    · trivial
    · exact ⟨trivial, fun _ => trivial⟩

theorem closed_of_quiet {β : Type} (op : Op β) (quiet : Quiet op) : Closed op := by
  cases op <;> trivial

theorem closed_waitForHeaderType (wanted : UInt8) (start : Int) (fuel : Nat) :
    Only Closed (waitForHeaderType wanted start fuel) := by
  induction fuel with
  | zero => trivial
  | succ fuel ih =>
    refine ⟨trivial, fun now => ?_⟩
    show Only Closed (if now - start ≥ zmSessionTimeoutUs then _ else _)
    split
    · trivial
    · refine ⟨trivial, fun reply => ?_⟩
      cases reply with
      | error fault => trivial
      | ok header =>
        show Only Closed (if header.type = wanted then _ else _)
        split
        · trivial
        split
        · trivial
        · exact ih

theorem closed_ending (fuel : Nat) (transferred : UInt64) : Only Closed (do
      let err ← sendZrinit
      if err ≠ .ok then return some (⟨err, false, transferred, false⟩ : Taken)
      else
        let start ← invoke .time
        match ← waitForHeaderType zfin start fuel with
        | none => return none
        | some err =>
          if err = .ok then
            let _ ← sendHexHeader zfin 0
            readOo
            return some ⟨.ok, false, transferred, false⟩
          else return some ⟨err, false, transferred, false⟩) := by
  refine ⟨trivial, fun err => ?_⟩
  show Only Closed (if err ≠ .ok then _ else _)
  split
  · trivial
  · refine ⟨trivial, fun start => (closed_waitForHeaderType zfin start fuel).bind fun waited => ?_⟩
    cases waited with
    | none => trivial
    | some err =>
      show Only Closed (if err = .ok then _ else _)
      split
      · exact ⟨trivial, fun _ => (quiet_readOo.imp closed_of_quiet).bind fun _ => trivial⟩
      · trivial

theorem takeFile_follows {fuel : Nat} {transferred : UInt64} (isOpen : w.isOpen = true) :
    Wp act (fun outcome w' => ∀ taken, outcome = some taken → taken.err = .ok → taken.cancelled = false →
      ∃ parts, Parts w.feed parts ∧ Follows (heardOf w.written parts) (packetsOf parts) w w')
      (takeFile fuel transferred) w := by
  induction fuel generalizing w transferred with
  | zero => exact nofun
  | succ fuel ih =>
    refine Wp.invoke_bind fun m => ⟨w, _, rfl, ?_⟩
    cases m.cancelled with
    | true =>
      intro taken h _ kept
      cases h
      cases kept
    | false =>
      rcases read : zmReadHeader w.feed with ⟨fault | header, rest⟩
      · refine Wp.invoke_bind fun m => ⟨_, _, act_readHeader_error read m, ?_⟩
        intro taken h ok
        cases h
        exact absurd ok fault.failed
      · refine Wp.invoke_bind fun m => ⟨_, _, act_readHeader_ok read m, ?_⟩
        have heard := follows_hear isOpen header rest
        have hearing : ({ w with feed := rest }.hear header).isOpen = true ∧
            ({ w with feed := rest }.hear header).feed = rest ∧
            ({ w with feed := rest }.hear header).written = w.written := by
          rw [World.hear, if_pos isOpen]
          exact ⟨isOpen, rfl, rfl⟩
        generalize { w with feed := rest }.hear header = w₁ at heard hearing
        obtain ⟨isOpen₁, feed₁, written₁⟩ := hearing
        show Wp act _ (if header.type = zdata then _ else _) w₁
        by_cases data : header.type = zdata
        · rw [if_pos data]
          refine Wp.bind (recvFileData_follows isOpen₁) fun outcome w₂ followed => ?_
          rcases outcome with _ | ⟨err, transferred'⟩
          · exact nofun
          show Wp act _ (if err ≠ .ok then _ else _) w₂
          by_cases ok : err = .ok
          · rw [if_neg (not_not_intro ok)]
            obtain ⟨isOpen₂, packets, run, follows⟩ := followed transferred' (by rw [ok])
            refine Wp.mono (ih isOpen₂) ?_
            intro outcome w' later taken h ok kept
            obtain ⟨parts, stream, follows'⟩ := later taken h ok kept
            rw [follows.written, written₁] at follows'
            exact ⟨.data header packets :: parts, .data read data (feed₁ ▸ run) stream,
              heard.trans (follows.trans follows')⟩
          · rw [if_pos ok]
            intro taken h ok'
            cases h
            exact absurd ok' ok
        rw [if_neg data]
        by_cases eof : header.type = zeof
        · rw [if_pos eof]
          refine Wp.invoke_bind fun m => ⟨{ w₁ with isOpen := false }, m.succeeded, rfl, ?_⟩
          cases m.succeeded with
          | false =>
            intro taken h ok
            cases h
            cases ok
          | true =>
            have shut : Follows [] [] w₁ { w₁ with isOpen := false } := by
              constructor <;> simp
            refine Wp.mono (Wp.of_only (closed_ending fuel transferred)
              (fun op s m => follows_closed op s m) ⟨rfl, shut⟩) ?_
            intro outcome w' after taken _ _ _
            exact ⟨[.eof header], .eof read eof, heard.trans after.2⟩
        rw [if_neg eof]
        by_cases fin : header.type = zfin
        · rw [if_pos fin]
          have quiet : Only Quiet (do
              let _ ← sendHexHeader zfin 0
              readOo
              return some (⟨.ok, false, transferred, true⟩ : Taken)) :=
            ⟨trivial, fun _ => quiet_readOo.bind fun _ => trivial⟩
          refine Wp.mono (Wp.of_only quiet (fun op s m => follows_quiet op s m) (Follows.refl w₁)) ?_
          intro outcome w' after taken _ _ _
          exact ⟨[.fin header], .fin read fin, heard.trans after⟩
        rw [if_neg fin]
        by_cases abort : header.type = zabort ∨ header.type = zferr
        · rw [if_pos abort]
          intro taken h ok
          cases h
          cases ok
        · rw [if_neg abort]
          have type : header.type ∉ [zdata, zeof, zfin, zabort, zferr] := by
            simp only [mem_cons, not_mem_nil, or_false]
            tauto
          refine Wp.mono (ih isOpen₁) ?_
          intro outcome w' later taken h ok kept
          obtain ⟨parts, stream, follows⟩ := later taken h ok kept
          rw [written₁] at follows
          exact ⟨.other header :: parts, .other read type (feed₁ ▸ stream), heard.trans follows⟩

structure World.Fresh (w : World) : Prop where
  isOpen : w.isOpen = false
  opened : w.opened = false
  written : w.written = 0
  heard : w.heard = []
  packets : w.packets = []

structure World.Begun (w : World) : Prop where
  isOpen : w.isOpen = true
  file : w.file = []
  written : w.written = 0
  heard : w.heard = []
  packets : w.packets = []

theorem act_readDataPacket_closed (isOpen : w.isOpen = false) (mode : CrcMode) (bufferLen : Nat) (m : Moment) :
    act (.readDataPacket mode bufferLen) w m =
      ({ w with feed := (zmReadDataPacket mode bufferLen w.feed).2 },
        (zmReadDataPacket mode bufferLen w.feed).1) := by
  rcases read : zmReadDataPacket mode bufferLen w.feed with ⟨fault | ⟨data, terminator⟩, rest⟩
  · exact act_readDataPacket_error read m
  · have untaken : { w with feed := rest }.take data = { w with feed := rest } := if_neg (isOpen ▸ Bool.false_ne_true)
    rw [act_readDataPacket_ok read, untaken]

def AwaitEnds (feed : Feed) (outcome : Option Awaited) (w' : World) : Prop :=
  ∀ awaited, outcome = some awaited → (awaited.gotFile = false → w'.opened = false) ∧
    (awaited.gotFile = true → Opening feed w'.feed ∧ w'.Begun)

theorem awaitEnds_of_none {feed : Feed} {err : EspErr} {cancelled : Bool} (closed : w.opened = false) :
    AwaitEnds feed (some ⟨err, cancelled, false⟩) w := by
  intro awaited h
  cases h
  exact ⟨fun _ => closed, nofun⟩

theorem awaitFile_opens {start nextZrinit : Int} {fuel : Nat} (fresh : w.Fresh) :
    Wp act (AwaitEnds w.feed) (awaitFile false start fuel nextZrinit) w := by
  induction fuel generalizing w nextZrinit with
  | zero => exact nofun
  | succ fuel ih =>
    refine Wp.invoke_bind fun m => ⟨w, _, rfl, ?_⟩
    cases m.cancelled with
    | true => exact awaitEnds_of_none fresh.opened
    | false =>
      refine Wp.invoke_bind fun m => ⟨w, m.now, rfl, ?_⟩
      generalize m.now = now
      have prompted : Wp act (fun _ w' => w'.feed = w.feed ∧ w'.Fresh)
          (if now ≥ nextZrinit then sendZrinit else return .ok) w := by
        split
        · exact fun _ => ⟨rfl, fresh.isOpen, fresh.opened, fresh.written, fresh.heard, fresh.packets⟩
        · exact ⟨rfl, fresh⟩
      refine Wp.bind prompted fun err w₁ prompted => ?_
      obtain ⟨feed₁, fresh₁⟩ := prompted
      rw [← feed₁]
      split
      · exact awaitEnds_of_none fresh₁.opened
      show Wp act _ (if now - start ≥ zmSessionTimeoutUs then _ else _) w₁
      split
      · exact awaitEnds_of_none fresh₁.opened
      generalize (if now ≥ nextZrinit then now + zrinitIntervalUs else nextZrinit) = next
      have onward : ∀ (rest : Feed) (sent : List UInt8) (next : Int),
          (∀ file, Opening rest file → Opening w₁.feed file) →
          Wp act (AwaitEnds w₁.feed) (awaitFile false start fuel next) { w₁ with feed := rest, sent } := by
        intro rest sent next further
        have still : World.Fresh { w₁ with feed := rest, sent } :=
          ⟨fresh₁.isOpen, fresh₁.opened, fresh₁.written, fresh₁.heard, fresh₁.packets⟩
        refine Wp.mono (ih still) ?_
        intro outcome w' ends awaited h
        exact ⟨(ends awaited h).1, fun got => ((ends awaited h).2 got).imp_left (further _)⟩
      rcases read : zmReadHeader w₁.feed with ⟨fault | header, rest⟩
      · refine Wp.invoke_bind fun m => ⟨_, _, act_readHeader_error read m, ?_⟩
        show Wp act _ (if fault.err = .timeout then _ else _) _
        split
        · rename_i late
          exact onward rest w₁.sent _ fun file later => .late read late later
        · exact awaitEnds_of_none fresh₁.opened
      · have unheard : { w₁ with feed := rest }.hear header = { w₁ with feed := rest } :=
          if_neg (fresh₁.isOpen ▸ Bool.false_ne_true)
        refine Wp.invoke_bind fun m => ⟨_, _, act_readHeader_ok read m, ?_⟩
        rw [unheard]
        have packet : ∀ (mode : CrcMode) (bufferLen : Nat) (m : Moment),
            act (.readDataPacket mode bufferLen) { w₁ with feed := rest } m =
              ({ w₁ with feed := (zmReadDataPacket mode bufferLen rest).2 },
                (zmReadDataPacket mode bufferLen rest).1) := fun mode bufferLen m =>
          act_readDataPacket_closed (w := { w₁ with feed := rest }) fresh₁.isOpen mode bufferLen m
        show Wp act _ (if header.type = zrqinit then _ else _) _
        by_cases rqinit : header.type = zrqinit
        · rw [if_pos rqinit]
          exact onward rest w₁.sent _ fun file => .other read (by rw [rqinit]; decide)
        rw [if_neg rqinit]
        by_cases sinit : header.type = zsinit
        · rw [if_pos sinit]
          refine Wp.invoke_bind fun m => ⟨_, _, packet _ _ m, ?_⟩
          refine Wp.invoke_bind fun m => ⟨_, _, rfl, ?_⟩
          exact onward _ _ _ fun file => .sinit read sinit
        rw [if_neg sinit]
        by_cases named : header.type = zfile
        · rw [if_pos named]
          refine Wp.invoke_bind fun m => ⟨_, _, packet _ _ m, ?_⟩
          rcases info : zmReadDataPacket header.crcMode (zmFileinfoMax - 1) rest with ⟨fault | info, file⟩
          · exact awaitEnds_of_none fresh₁.opened
          refine Wp.invoke_bind fun m => ?_
          cases opens : m.succeeded with
          | false =>
            refine ⟨_, _, by simp only [act, opens, Bool.false_eq_true, if_false]; rfl, ?_⟩
            rw [if_pos (by split <;> decide)]
            exact awaitEnds_of_none fresh₁.opened
          | true =>
            refine ⟨_, _, by simp only [act, opens, Bool.false_eq_true, if_true, if_false]; rfl, ?_⟩
            rw [if_neg (not_not_intro rfl)]
            refine Wp.invoke_bind fun m => ⟨_, _, rfl, ?_⟩
            intro awaited h
            cases h
            exact ⟨nofun, fun _ =>
              ⟨.file read named info, rfl, rfl, fresh₁.written, fresh₁.heard, fresh₁.packets⟩⟩
        rw [if_neg named]
        by_cases fin : header.type = zfin
        · rw [if_pos fin]
          refine Wp.invoke_bind fun m => ⟨_, _, rfl, ?_⟩
          refine Wp.bind (Wp.of_only quiet_readOo (fun op s m => follows_quiet op s m) (Follows.refl _)) ?_
          intro _ s follows
          exact awaitEnds_of_none (follows.opened.trans fresh₁.opened)
        rw [if_neg fin]
        by_cases abort : header.type = zabort ∨ header.type = zferr
        · rw [if_pos abort]
          exact awaitEnds_of_none fresh₁.opened
        · rw [if_neg abort]
          refine onward rest w₁.sent _ fun file => .other read ?_
          simp only [mem_cons, not_mem_nil, or_false]
          tauto

theorem closeFile_follows (taken : Taken) (w : World) :
    Wp act (fun err w' => (err = .ok → taken.err = .ok) ∧ Follows [] [] w w') (closeFile taken) w := by
  unfold closeFile
  split
  · refine Wp.invoke_bind fun m => ⟨{ w with isOpen := false }, m.succeeded, rfl, ?_⟩
    have shut : Follows [] [] w { w with isOpen := false } := by
      constructor <;> simp
    split
    · exact ⟨nofun, shut⟩
    · exact ⟨id, shut⟩
  · exact ⟨id, Follows.refl w⟩

/-- A transfer that opened the file and succeeded was sent a stream that opens a file and ends it,
and the file holds its subpackets. -/
theorem zmodemRecv_follows {fuel : Nat} (fresh : w.Fresh) :
    Wp act (fun outcome w' => ∀ result, outcome = some result → w'.opened = true → result.err = .ok →
      result.cancelled = false → ∃ rest parts, Opening w.feed rest ∧ Parts rest parts ∧
        w'.heard = heardOf 0 parts ∧ w'.packets = packetsOf parts ∧ w'.file = (packetsOf parts).flatten ∧
        w'.written = (packetsOf parts).flatten.length) (zmodemRecv false fuel) w := by
  refine Wp.invoke_bind fun m => ⟨w, m.now, rfl, Wp.invoke_bind fun m' => ⟨w, m'.available, rfl, ?_⟩⟩
  cases m'.available with
  | false =>
    intro result h opened ok
    cases h
    cases ok
  | true =>
    refine Wp.bind (awaitFile_opens fresh) fun outcome w₁ ends => ?_
    cases outcome with
    | none => exact nofun
    | some awaited =>
      obtain ⟨unopened, opens⟩ := ends awaited rfl
      have taking : Wp act (fun taken w' => ∀ t, taken = some t → w'.opened = true → t.err = .ok →
          t.cancelled = false → awaited.gotFile = true ∧ ∃ parts, Parts w₁.feed parts ∧
            Follows (heardOf w₁.written parts) (packetsOf parts) w₁ w')
          (if awaited.err = .ok ∧ awaited.gotFile = true ∧ awaited.cancelled = false then takeFile fuel 0
            else return some ⟨awaited.err, awaited.cancelled, 0, awaited.gotFile⟩) w₁ := by
        split
        · rename_i begun
          refine Wp.mono (takeFile_follows (opens begun.2.1).2.isOpen) ?_
          intro taken w' follows t h opened ok kept
          exact ⟨begun.2.1, follows t h ok kept⟩
        · rename_i none
          intro t h opened ok kept
          cases h
          cases got : awaited.gotFile with
          | true => exact absurd ⟨ok, got, kept⟩ none
          | false => exact nomatch opened.symm.trans (unopened got)
      refine Wp.bind taking fun taken w₂ took => ?_
      cases taken with
      | none => exact nofun
      | some taken =>
        refine Wp.bind (closeFile_follows taken w₂) fun err w₃ closed => ?_
        intro result h opened ok kept
        cases h
        obtain ⟨got, parts, stream, follows⟩ := took taken rfl (closed.2.opened ▸ opened) (closed.1 ok) kept
        obtain ⟨opening, begun⟩ := opens got
        have whole := follows.trans closed.2
        rw [append_nil, append_nil, begun.written] at whole
        refine ⟨w₁.feed, parts, opening, stream, ?_, ?_, ?_, ?_⟩
        · rw [whole.heard, begun.heard, nil_append]
        · rw [whole.packets, begun.packets, nil_append]
        · rw [whole.file, begun.file, nil_append]
        · rw [whole.written, begun.written, Nat.zero_add]

/-- When a transfer that opened the file has succeeded, the file is intact exactly when the
positions in the stream that the peer sent are true. -/
theorem success_intact_iff (w : World) (fresh : w.Fresh) (env : Nat → Moment) (fuel : Nat) (result : Result)
    (ran : (finish act (zmodemRecv false fuel) w env).2 = some result)
    (opened : (finish act (zmodemRecv false fuel) w env).1.opened = true) (ok : result.err = .ok)
    (kept : result.cancelled = false) : (finish act (zmodemRecv false fuel) w env).1.Intact ↔
      ∃ rest parts, Opening w.feed rest ∧ Parts rest parts ∧ Truthful 0 parts := by
  obtain ⟨rest, parts, opening, stream, heard, packets, file, written⟩ :=
    Wp.result (@zmodemRecv_follows w fuel fresh) env result ran opened ok kept
  have intact : (finish act (zmodemRecv false fuel) w env).1.Intact ↔ Truthful 0 parts := by
    rw [← truthful_iff stream 0, Nat.zero_add, ← heard, ← written]
    constructor
    · exact fun h => ⟨h.ended, h.placed⟩
    · exact fun h => ⟨h.1, h.2, by rw [file, packets]⟩
  rw [intact]
  constructor
  · exact fun h => ⟨rest, parts, opening, stream, h⟩
  · rintro ⟨rest', parts', opening', stream', h⟩
    obtain rfl := opening.unique opening'
    rwa [stream.unique stream']

def zmSendChunkSize : Nat := 512

/-- The loop of `solar_os_zmodem_send` over the file. -/
def zmSendFileData (content : List UInt8) : List UInt8 :=
  if content = [] then []
  else zmData32 (content.take zmSendChunkSize) (if content.drop zmSendChunkSize = [] then zcrce else zcrcg) ++
    zmSendFileData (content.drop zmSendChunkSize)
termination_by content.length
decreasing_by
  have := length_pos_iff.mpr ‹_›
  rw [length_drop, zmSendChunkSize]
  omega

/-- What `solar_os_zmodem_send` writes when the receiver asks for the file from its start, up to `ZEOF`. -/
def zmodemSend (fileinfo content : List UInt8) : List UInt8 :=
  zmBin32Header zfile 0 ++ zmData32 fileinfo zcrcw ++ zmBin32Header zdata 0 ++ zmSendFileData content ++
    zmBin32Header zeof (UInt32.ofNat content.length)

/-- The subpackets are the file; the induction takes a chunk off it, as the loop does. -/
theorem sendFileData_subpackets {content : List UInt8} (some : content ≠ []) (rest : Feed) :
    ∃ packets, Subpackets .crc32 ((zmSendFileData content).map .ok ++ rest) packets rest ∧ packets.flatten = content := by
  induction content using zmSendFileData.induct with
  | case1 => exact absurd rfl some
  | case2 content _ ih =>
    have fits : (content.take zmSendChunkSize).length ≤ zmRecvChunkSize := (length_take_le _ _).trans (by decide)
    have parted := content.take_append_drop zmSendChunkSize
    rw [zmSendFileData, if_neg some, zmData32]
    by_cases done : content.drop zmSendChunkSize = []
    · rw [done, append_nil] at parted
      rw [done, if_pos rfl, if_neg (by decide), append_nil, zmSendFileData, if_pos rfl, append_nil]
      exact ⟨[content.take zmSendChunkSize], .last (reads_data32 rfl fits rest) (.inl rfl), flatten_singleton.trans parted⟩
    · obtain ⟨packets, later, whole⟩ := ih done
      rw [if_neg done, if_neg (by decide), append_nil, map_append, append_assoc]
      refine ⟨content.take zmSendChunkSize :: packets, .more (reads_data32 rfl fits _) (by decide) later, ?_⟩
      rw [flatten_cons, whole, parted]

/-- A file sent from its start is received whole, whatever the timing, if the receiver succeeds. -/
theorem sent_file_received (fileinfo content : List UInt8) (short : fileinfo.length < zmFileinfoMax)
    (nonempty : content ≠ []) (rest : Feed) (w : World) (fresh : w.Fresh)
    (line : w.feed = (zmodemSend fileinfo content).map .ok ++ rest) (env : Nat → Moment) (fuel : Nat) (result : Result)
    (ran : (finish act (zmodemRecv false fuel) w env).2 = some result)
    (opened : (finish act (zmodemRecv false fuel) w env).1.opened = true) (ok : result.err = .ok)
    (kept : result.cancelled = false) : (finish act (zmodemRecv false fuel) w env).1.file = content := by
  obtain ⟨rest', parts, opening, stream, -, -, file, -⟩ :=
    Wp.result (@zmodemRecv_follows w fuel fresh) env result ran opened ok kept
  obtain ⟨packets, run, whole⟩ := sendFileData_subpackets nonempty
    ((zmBin32Header zeof (UInt32.ofNat content.length)).map .ok ++ rest)
  have split : w.feed = (zmBin32Header zfile 0).map .ok ++ ((data32Core fileinfo zcrcw).map .ok ++
      (([0x11] ++ zmBin32Header zdata 0).map .ok ++ ((zmSendFileData content).map .ok ++
        ((zmBin32Header zeof (UInt32.ofNat content.length)).map .ok ++ rest)))) := by
    rw [line, zmodemSend, zmData32, if_pos rfl]
    simp only [data32Core, map_append, append_assoc]
  rw [split] at opening
  obtain rfl := opening.unique (.file (reads_bin32Header zfile 0 not_mem_nil _) rfl
    (reads_data32 rfl (Nat.le_sub_one_of_lt short) _))
  have sent := stream.unique (.data (@reads_bin32Header [0x11] zdata 0 (by decide) _) rfl run
    (.eof (reads_bin32Header zeof _ not_mem_nil rest) rfl))
  rw [file, sent, packetsOf_data]
  exact (congrArg flatten (append_nil packets)).trans whole

/-- Before a transfer, with these bytes on the line. -/
def lineWorld (bytes : List UInt8) : World where
  feed := bytes.map .ok
  sent := []
  file := []
  isOpen := false
  opened := false
  written := 0
  heard := []
  packets := []

def smooth : Nat → Moment := fun _ => ⟨true, 0, false, .ok, 0, true⟩

def fileBytes (ending : List UInt8) : List UInt8 :=
  zmBin32Header zfile 0 ++ zmData32 [0x66, 0x00] zcrcw ++ zmBin32Header zdata 0 ++
    zmData32 [1, 2, 3] zcrce ++ ending ++ zmHexHeader zfin 0

theorem file_intact :
    (finish act (zmodemRecv false 10) (lineWorld (fileBytes (zmBin32Header zeof 3))) smooth).1.Intact ↔
      ∃ rest parts, Opening ((fileBytes (zmBin32Header zeof 3)).map .ok) rest ∧ Parts rest parts ∧
        Truthful 0 parts :=
  success_intact_iff (lineWorld (fileBytes (zmBin32Header zeof 3))) ⟨rfl, rfl, rfl, rfl, rfl⟩ smooth 10
    ⟨.ok, 3, false⟩ (by decide +kernel) (by decide +kernel) rfl rfl

theorem sent_three_received :
    (finish act (zmodemRecv false 10) (lineWorld (fileBytes (zmBin32Header zeof 3))) smooth).1.file = [1, 2, 3] := by
  refine sent_file_received [0x66, 0x00] [1, 2, 3] (by decide) (by decide) ((zmHexHeader zfin 0).map .ok) _
    ⟨rfl, rfl, rfl, rfl, rfl⟩ ?_ smooth 10 ⟨.ok, 3, false⟩ (by decide +kernel) (by decide +kernel) rfl rfl
  simp [lineWorld, fileBytes, zmodemSend, zmSendFileData, zmSendChunkSize]

/-- Without a `ZEOF` header the file may be short; its transfer still succeeds. -/
theorem truncated_file_succeeds :
    (finish act (zmodemRecv false 10) (lineWorld (fileBytes [])) smooth).2 = some ⟨.ok, 3, false⟩ ∧
      (finish act (zmodemRecv false 10) (lineWorld (fileBytes [])) smooth).1.opened = true ∧
      ¬(finish act (zmodemRecv false 10) (lineWorld (fileBytes [])) smooth).1.Intact := by
  refine ⟨by decide +kernel, by decide +kernel, ?_⟩
  rintro ⟨⟨heard, there, eof, -⟩, -, -⟩
  have none : ∀ heard ∈ (finish act (zmodemRecv false 10) (lineWorld (fileBytes [])) smooth).1.heard,
      heard.1.type ≠ zeof := by decide +kernel
  exact none heard there eof

end SolarOs.Zmodem