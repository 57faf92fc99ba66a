import SolarOs.Esp
import SolarOs.Library.ByteOrder
import SolarOs.Library.CString
import SolarOs.Pocsag.Codeword
import Mathlib.Data.List.DropRight

/-! The encoder: one page as whole batches of sixteen code words. -/
namespace SolarOs.Pocsag
open ByteOrder

def ricMax : Nat := 2097151
def codewordsPerBatch : Nat := 16
def batchBytes : Nat := 64
def payloadMax : Nat := 512
def textMax : Nat := 256

inductive Format where
  | alpha
  | numeric
  deriving DecidableEq, Repr

def Format.width : Format → Nat
  | .numeric => 4
  | .alpha => 7

/-- `"0123456789*U -)("`. -/
def numericCharacters : List UInt8 :=
  [0x30, 0x31, 0x32, 0x33, 0x34, 0x35, 0x36, 0x37, 0x38, 0x39, 0x2A, 0x55, 0x20, 0x2D, 0x29, 0x28]

/-- `strchr` also finds the terminator. -/
def numericSymbol (character : UInt8) : Option UInt8 :=
  ((numericCharacters ++ [0]).findIdx? (· == character)).map UInt8.ofNat

section
variable (format : Format)

def characterValid (character : UInt8) : Bool :=
  match format with
  | .alpha => 0x20 ≤ character && character ≤ 0x7E
  | .numeric => (numericSymbol character).isSome

def messageValid (text : CString) : Option Nat :=
  let length := text.strnlen textMax
  if length = 0 ∨ textMax ≤ length then none
  else if text.bytes.all (characterValid format) then some length
  else none

def textSymbol (character : UInt8) : UInt8 :=
  match format with
  | .alpha => character
  | .numeric => (numericSymbol character).getD character

def paddingSymbol : Format → UInt8
  | .numeric => 12
  | .alpha => 0x20

def streamPlace (text : CString) (textLen bitIndex : Nat) : UInt8 × Nat :=
  let messageBits := textLen * format.width
  if bitIndex < messageBits then
    (textSymbol format (text.bytes.getD (bitIndex / format.width) 0), bitIndex % format.width)
  else
    (paddingSymbol format, (bitIndex - messageBits) % format.width)

def messageDataWord (text : CString) (textLen messageWord : Nat) : Word :=
  (List.range 20).foldl (fun data outputBit =>
    let (character, characterBit) := streamPlace format text textLen (messageWord * 20 + outputBit)
    data ||| ((((character.toBitVec >>> characterBit) &&& 1#8).setWidth 32) <<< (19 - outputBit)))
    0#32

def writeWord (word : Word) : List UInt8 := bigEndian32 (.ofBitVec word)

def addressIndex (ric : Word) : Nat := (ric &&& 7#32).toNat * 2

def messageWords (textLen : Nat) : Nat := (textLen * format.width + 19) / 20

end

def addressData (ric : Word) (function : UInt8) : Word :=
  (((ric >>> 3) &&& 0x3FFFF#32) <<< 13) ||| (function.toBitVec.setWidth 32 <<< 11)

/-- The word the encoder puts at one place of the payload. -/
def payloadCodeword (ric : Word) (function : UInt8) (format : Format) (text : CString)
    (textLen codewordIndex : Nat) : Word :=
  if codewordIndex = addressIndex ric then
    encodeCodeword (addressData ric function)
  else if addressIndex ric < codewordIndex ∧
      codewordIndex ≤ addressIndex ric + messageWords format textLen then
    encodeCodeword (0x80000000#32 |||
      (messageDataWord format text textLen (codewordIndex - addressIndex ric - 1) <<< 11))
  else
    idleCodeword

def batchCount (ric : Word) (format : Format) (textLen : Nat) : Nat :=
  (addressIndex ric + 1 + messageWords format textLen + codewordsPerBatch - 1) / codewordsPerBatch

def payloadBatch (word : Nat → Word) (batch : Nat) : List UInt8 :=
  (List.range codewordsPerBatch).flatMap fun slot =>
    writeWord (word (batch * codewordsPerBatch + slot))

def payloadBytes (word : Nat → Word) (batches : Nat) : List UInt8 :=
  (List.range batches).flatMap fun batch =>
    (if 0 < batch then writeWord syncCodeword else []) ++ payloadBatch word batch

def encodePayload (ric : Word) (function : UInt8) (format : Format) (text : CString)
    (payloadCapacity : Nat) : Except EspErr (List UInt8 × Nat) :=
  match messageValid format text with
  | none => .error .invalidArg
  | some textLen =>
    if ricMax < ric.toNat ∨ 3 < function then .error .invalidArg
    else
      let batches := batchCount ric format textLen
      let required := batches * batchBytes + (batches - 1) * 4
      if payloadCapacity < required ∨ payloadMax < required then .error .invalidSize
      else .ok (payloadBytes (payloadCodeword ric function format text textLen) batches, batches)

/-- `solar_os_pocsag_message_t`; `text` holds the bytes before the terminator. -/
structure Message where
  ric : Word
  function : UInt8
  format : Format
  rssiDbm : Int16
  correctedCodewords : UInt16
  uncorrectableCodewords : UInt16
  truncated : Bool
  text : List UInt8
  deriving DecidableEq

/-- `solar_os_pocsag_decoder_t`; `text_len` is the length of the message's text. -/
structure Decoder where
  targetRic : Word
  format : Format
  active : Bool
  message : Message
  character : BitVec 8
  characterBits : Nat

def Message.cleared (format : Format) : Message where
  ric := 0
  function := 0
  format := format
  rssiDbm := 0
  correctedCodewords := 0
  uncorrectableCodewords := 0
  truncated := false
  text := []

def decoderInit (targetRic : Word) (format : Format) : Decoder where
  targetRic := targetRic
  format := format
  active := false
  message := .cleared .alpha
  character := 0
  characterBits := 0

def appendCharacter (message : Message) (character : UInt8) : Message :=
  if character = 0 ∨ character = 3 ∨ character = 4 then message
  else if character < 0x20 ∧ character ≠ 0x0A ∧ character ≠ 0x0D then message
  else if textMax ≤ message.text.length + 1 then { message with truncated := true }
  else { message with text := message.text ++ [character] }

def symbolCharacter (format : Format) (symbol : BitVec 8) : UInt8 :=
  match format with
  | .numeric => numericCharacters.getD (symbol &&& 0x0F#8).toNat 0
  | .alpha => .ofBitVec (symbol &&& 0x7F#8)

section
variable (decoder : Decoder)

/-- The body of the loop over the bits of a message word. -/
def appendBit (bits : Word) (bit : Nat) : Decoder :=
  let character := decoder.character |||
    ((((bits >>> bit) &&& 1#32) <<< decoder.characterBits).setWidth 8)
  if decoder.characterBits + 1 ≠ decoder.format.width then
    { decoder with character := character, characterBits := decoder.characterBits + 1 }
  else
    { decoder with
      message := appendCharacter decoder.message (symbolCharacter decoder.format character)
      character := 0
      characterBits := 0 }

/-- `for (int bit = 19; bit >= 0; bit--)`. -/
def appendMessageBits (bits : Word) : Decoder :=
  (List.range 20).foldl (fun decoder outputBit => appendBit decoder bits (19 - outputBit)) decoder

/-- The characters `finish_message` strips from the end. -/
def trailing (character : UInt8) : Bool :=
  character = 0x20 || character = 0x0D || character = 0x0A

def finishMessage : Decoder × List Message :=
  if decoder.active then
    let message := { decoder.message with text := decoder.message.text.rdropWhile trailing }
    ({ decoder with
        active := false, message := { message with text := [] }, character := 0
        characterBits := 0 },
      if message.text = [] then [] else [message])
  else (decoder, [])

def beginMessage (ric : Word) (function : UInt8) (rssiDbm : Int16) :
    Decoder :=
  { decoder with
    message := { Message.cleared decoder.format with ric, function, rssiDbm }
    active := true
    character := 0
    characterBits := 0 }

/-- The body of the loop over the words of a batch; the messages it calls back with. -/
def decodeWord (index : Nat) (received : Word) (rssiDbm : Int16) :
    Decoder × List Message :=
  match correctCodeword received with
  | none =>
    if decoder.active then
      ({ decoder with message.uncorrectableCodewords := decoder.message.uncorrectableCodewords + 1 },
        [])
    else (decoder, [])
  | some (word, correctedBits) =>
    let decoder :=
      if decoder.active ∧ 0 < correctedBits then
        { decoder with message.correctedCodewords := decoder.message.correctedCodewords + 1 }
      else decoder
    if word = idleCodeword then finishMessage decoder
    else if word &&& 0x80000000#32 = 0#32 then
      let (decoder, emitted) := finishMessage decoder
      let ric := (((word >>> 13) &&& 0x3FFFF#32) <<< 3) ||| BitVec.ofNat 32 (index / 2)
      if decoder.targetRic = 0 ∨ ric = decoder.targetRic then
        let decoder := beginMessage decoder ric
          (.ofBitVec (((word >>> 11) &&& 3#32).setWidth 8)) rssiDbm
        ({ decoder with message.correctedCodewords := if 0 < correctedBits then 1 else 0 }, emitted)
      else (decoder, emitted)
    else if decoder.active then
      (appendMessageBits decoder ((word >>> 11) &&& 0xFFFFF#32), [])
    else (decoder, [])

end

def readWord (raw : List UInt8) : Word :=
  (fromBigEndian32 (raw.getD 0 0) (raw.getD 1 0) (raw.getD 2 0) (raw.getD 3 0)).toBitVec

/-- Runs `decodeWord` over the listed slots of a batch. -/
def decodeSlots (batch : List UInt8) (rssiDbm : Int16) (slots : List Nat)
    (state : Decoder × List Message) : Decoder × List Message :=
  slots.foldl (fun state index =>
    let (decoder, emitted) := decodeWord state.1 index (readWord (batch.drop (index * 4))) rssiDbm
    (decoder, state.2 ++ emitted)) state

/-- `solar_os_pocsag_decode_batch` with the messages passed to its callback. -/
def decodeBatch (decoder : Decoder) (batch : List UInt8) (rssiDbm : Int16) :
    Decoder × List Message :=
  if batch.length ≠ batchBytes then (decoder, [])
  else decodeSlots batch rssiDbm (List.range (batch.length / 4)) (decoder, [])

def decoderFlush (decoder : Decoder) : Decoder × List Message := finishMessage decoder

end SolarOs.Pocsag
