import SolarOs.Pocsag.Page

/-! Encoding a page and decoding its batches: which pages come back, and the two
kinds that do not. -/
namespace SolarOs.Pocsag

variable {ric : Word} {function : UInt8} {format : Format} {text : CString} {textLen : Nat}
  {target : Word} {rssiDbm : Int16} {payloadCapacity batches : Nat} {payload : List UInt8}

def carried (format : Format) (textLen : Nat) : Nat :=
  messageWords format textLen * 20 / format.width

theorem le_carried (format : Format) (textLen : Nat) : textLen ≤ carried format textLen := by
  cases format <;> simp only [carried, messageWords, Format.width] <;> omega

theorem carried_overflow (h : textLen < textMax) : 255 < carried format textLen ↔ format = .alpha ∧ textLen = 255 := by
  have bound : textLen < 256 := h
  cases format with
  | numeric =>
    simp only [carried, messageWords, Format.width, reduceCtorEq, false_and, iff_false]
    omega
  | alpha =>
    simp only [carried, messageWords, Format.width, true_and]
    omega

theorem received_page (h : messageValid format text = some textLen) :
    (received format text textLen (addressed ric function format target rssiDbm)
        (messageWords format textLen * 20)).message =
      { (addressed ric function format target rssiDbm).message with
        text := (text.bytes ++ List.replicate (carried format textLen - textLen) 0x20).take 255
        truncated := decide (255 < carried format textLen) } := by
  have fresh : (addressed ric function format target rssiDbm).message.text = [] := rfl
  have collected := receivedMessage_eq (streamCharacter_printable h) fresh rfl (carried format textLen)
  rw [streamCharacters_eq h (le_carried format textLen)] at collected
  exact collected

theorem trim_received (h : messageValid format text = some textLen) (n : Nat) :
    ((text.bytes ++ List.replicate n 0x20).take 255).rdropWhile trailing = trimmed text := by
  obtain ⟨length, -, bound, -⟩ := messageValid_spec h
  have fits : text.bytes.length ≤ 255 := by
    have : textMax = 256 := rfl
    omega
  rw [List.take_append, List.take_of_length_le fits, List.take_replicate, trim_padded h]

def Message.Brings (message : Message) (ric : Word) (function : UInt8) (text : CString) : Prop :=
  message.ric = ric ∧ message.function = function ∧ message.text = trimmed text ∧
    message.truncated = false

def Delivered (ric : Word) (function : UInt8) (text : CString) (messages : List Message) : Prop :=
  if trimmed text = [] then messages = []
  else ∃ message, messages = [message] ∧ message.Brings ric function text

def Transmissible (ric : Word) (function : UInt8) (format : Format) (text : CString) : Prop :=
  trimmed text = [] ∨
    (¬ (ric >>> 3 = 0x3D44E#32 ∧ function = 0) ∧ ¬ (format = .alpha ∧ text.strlen = 255))

theorem encodePayload_accepts (h : encodePayload ric function format text payloadCapacity = .ok (payload, batches)) :
    ∃ textLen, messageValid format text = some textLen ∧ ric.toNat ≤ ricMax ∧ function ≤ 3 ∧
      batches = batchCount ric format textLen ∧
      payload = payloadBytes (payloadCodeword ric function format text textLen) batches := by
  unfold encodePayload at h
  split at h
  · cases h
  · next textLen valid =>
    split at h
    · cases h
    · next bounds =>
      rw [not_or] at bounds
      dsimp only at h
      split at h
      · cases h
      · cases h
        exact ⟨textLen, valid, Nat.le_of_not_lt bounds.1, UInt8.not_lt.mp bounds.2, rfl, rfl⟩

theorem batchCount_covers (ric : Word) (format : Format) (textLen : Nat) :
    addressIndex ric + 1 + messageWords format textLen ≤
      batchCount ric format textLen * codewordsPerBatch := by
  simp only [batchCount, codewordsPerBatch]
  omega

theorem receive_idleAddress (hric : ric.toNat ≤ ricMax) (hfunction : function ≤ 3)
    (hidle : ric >>> 3 = 0x3D44E#32 ∧ function = 0) (batches : Nat) : receive rssiDbm (decoderInit target format)
      (payloadBytes (payloadCodeword ric function format text textLen) batches) batches = [] := by
  have silent (n : Nat) : pageStream ric function format text textLen target rssiDbm n =
      (decoderInit target format, []) := by
    induction n with
    | zero => rfl
    | succ n ih =>
      have skipped : decodeWord (decoderInit target format) (n % codewordsPerBatch)
          (payloadCodeword ric function format text textLen n) rssiDbm =
          (decoderInit target format, []) := by
        unfold payloadCodeword
        split
        · rw [(encodeCodeword_idle (addressData_dataWord ric function)).mpr
            ((addressData_idle hric hfunction).mpr hidle), decodeWord_idle]
          rfl
        · split
          · rw [decodeWord_message _ _ _ (messageData_dataWord _) (messageData_top _)]
            rfl
          · rw [decodeWord_idle]
            rfl
      unfold pageStream at ih ⊢
      rw [decodeStream_succ, ih, skipped]
      rfl
  have whole : decodeBatches rssiDbm (payloadBatches
      (payloadBytes (payloadCodeword ric function format text textLen) batches) batches)
      (decoderInit target format) =
      pageStream ric function format text textLen target rssiDbm (batches * codewordsPerBatch) :=
    decodeBatches_payload _ _ _ _
  unfold receive
  rw [whole, silent]
  rfl

theorem receive_page_message (hvalid : messageValid format text = some textLen)
    (hric : ric.toNat ≤ ricMax) (hfunction : function ≤ 3)
    (hidle : ¬ (ric >>> 3 = 0x3D44E#32 ∧ function = 0)) (htarget : target = 0 ∨ target = ric) :
    receive rssiDbm (decoderInit target format)
        (payloadBytes (payloadCodeword ric function format text textLen)
          (batchCount ric format textLen)) (batchCount ric format textLen) =
      if trimmed text = [] then []
      else [{ (addressed ric function format target rssiDbm).message with
        text := trimmed text
        truncated := decide (255 < carried format textLen) }] := by
  have covers := batchCount_covers ric format textLen
  have collected : pageStream ric function format text textLen target rssiDbm
      (addressIndex ric + 1 + messageWords format textLen) =
        (received format text textLen (addressed ric function format target rssiDbm)
          (messageWords format textLen * 20), []) :=
    pageStream_message rssiDbm hric hfunction hidle htarget (Nat.le_refl _)
  rw [receive_page rssiDbm (by omega) covers collected]
  have active : (received format text textLen (addressed ric function format target rssiDbm)
      (messageWords format textLen * 20)).active = true := rfl
  simp only [finishMessage, active, if_true, received_page hvalid, trim_received hvalid]

/-- A page the encoder accepts comes back from its batches exactly when it is transmissible. -/
theorem page_round_trip (h : encodePayload ric function format text payloadCapacity = .ok (payload, batches))
    (htarget : target = 0 ∨ target = ric) :
    Delivered ric function text (receive rssiDbm (decoderInit target format) payload batches) ↔
      Transmissible ric function format text := by
  obtain ⟨textLen, valid, hric, hfunction, rfl, rfl⟩ := encodePayload_accepts h
  obtain ⟨length, -, bound, -⟩ := messageValid_spec valid
  have measured : text.strlen = textLen := length
  unfold Delivered Transmissible
  by_cases blank : trimmed text = []
  · rw [if_pos blank]
    by_cases hidle : ric >>> 3 = 0x3D44E#32 ∧ function = 0
    · simp [receive_idleAddress hric hfunction hidle, blank]
    · simp [receive_page_message valid hric hfunction hidle htarget, blank]
  · rw [if_neg blank]
    by_cases hidle : ric >>> 3 = 0x3D44E#32 ∧ function = 0
    · rw [receive_idleAddress hric hfunction hidle]
      constructor
      · rintro ⟨message, none, -⟩
        cases none
      · rintro (none | ⟨other, -⟩)
        · exact absurd none blank
        · exact absurd hidle other
    · rw [receive_page_message valid hric hfunction hidle htarget, if_neg blank, measured, ← carried_overflow bound]
      constructor
      · rintro ⟨message, same, -, -, -, whole⟩
        cases same
        exact .inr ⟨hidle, of_decide_eq_false whole⟩
      · rintro (none | ⟨-, fits⟩)
        · exact absurd none blank
        · exact ⟨_, rfl, rfl, rfl, rfl, decide_eq_false fits⟩

/-- `"HI"`. -/
def greeting : CString where
  bytes := [0x48, 0x49]
  noNul := by decide

def greetingPayload : List UInt8 :=
  match encodePayload 1841525 2 .alpha greeting 512 with
  | .ok (payload, _) => payload
  | .error _ => []

theorem page_round_trip_greeting : encodePayload 1841525 2 .alpha greeting 512 = .ok (greetingPayload, 1) ∧
      (Delivered 1841525 2 greeting
          (receive (-80) (decoderInit 1841525 .alpha) greetingPayload 1) ↔
        Transmissible 1841525 2 .alpha greeting) := by
  have accepted : encodePayload 1841525 2 .alpha greeting 512 = .ok (greetingPayload, 1) := by
    decide +kernel
  exact ⟨accepted, page_round_trip accepted (.inr rfl)⟩

def idlePayload : List UInt8 :=
  match encodePayload 2007664 0 .alpha greeting 512 with
  | .ok (payload, _) => payload
  | .error _ => []

/-- The address word of RIC 2007664 with function 0 is the idle word. -/
theorem idleAddress_lost : encodePayload 2007664 0 .alpha greeting 512 = .ok (idlePayload, 1) ∧
      ¬ Delivered 2007664 0 greeting
        (receive (-80) (decoderInit 0 .alpha) idlePayload 1) := by
  have accepted : encodePayload 2007664 0 .alpha greeting 512 = .ok (idlePayload, 1) := by
    decide +kernel
  have silent : receive (-80) (decoderInit 0 .alpha) idlePayload 1 = [] := by
    decide +kernel
  refine ⟨accepted, ?_⟩
  rw [Delivered, if_neg (by decide), silent]
  rintro ⟨message, none, -⟩
  cases none

end SolarOs.Pocsag
