import SolarOs.Pocsag.Reception

/-! One page word by word: what the decoder makes of the idle, address and message
words the encoder puts into its batches. -/
namespace SolarOs.Pocsag
open List

section Characters

variable {format : Format} {text : CString} {textLen : Nat}

section
variable (h : messageValid format text = some textLen)
include h

theorem messageValid_spec : text.bytes.length = textLen ∧ 0 < textLen ∧ textLen < textMax ∧
      ∀ c ∈ text.bytes, characterValid format c = true := by
  have measured : text.strnlen textMax = min text.bytes.length textMax := rfl
  simp only [messageValid] at h
  by_cases bad : text.strnlen textMax = 0 ∨ textMax ≤ text.strnlen textMax
  · rw [if_pos bad] at h
    cases h
  · rw [if_neg bad] at h
    by_cases valid : text.bytes.all (characterValid format) = true
    · rw [if_pos valid, Option.some.injEq] at h
      exact ⟨by omega, by omega, by omega, all_eq_true.mp valid⟩
    · rw [if_neg valid] at h
      cases h

theorem messageValid_length : text.bytes.length = textLen := (messageValid_spec h).1

theorem messageValid_characters : ∀ c ∈ text.bytes, characterValid format c = true := (messageValid_spec h).2.2.2

end

variable {character : UInt8}

theorem numericSymbol_mem (h : (numericSymbol character).isSome = true)
    (nonzero : character ≠ 0) : character ∈ numericCharacters := by
  simp only [numericSymbol, Option.isSome_map, findIdx?_isSome, any_append,
    any_cons, any_nil, Bool.or_false, Bool.or_eq_true, any_eq_true, beq_iff_eq] at h
  rcases h with ⟨c, hc, rfl⟩ | rfl
  · exact hc
  · exact absurd rfl nonzero

theorem symbolCharacter_textSymbol (nonzero : character ≠ 0) (h : characterValid format character = true) :
    symbolCharacter format (textSymbol format character).toBitVec = character := by
  cases format with
  | numeric =>
    have member := numericSymbol_mem h nonzero
    have table : ∀ c ∈ numericCharacters, symbolCharacter .numeric (textSymbol .numeric c).toBitVec = c := by decide
    exact table character member
  | alpha =>
    simp only [characterValid, Bool.and_eq_true, decide_eq_true_eq] at h
    have below : character.toNat ≤ 126 := h.2
    apply UInt8.toNat_inj.mp
    simp only [symbolCharacter, textSymbol]
    change character.toNat &&& 127 = character.toNat
    rw [Nat.and_two_pow_sub_one_eq_mod character.toNat 7, Nat.mod_eq_of_lt (by omega)]

theorem symbolCharacter_padding (format : Format) : symbolCharacter format (paddingSymbol format).toBitVec = 0x20 := by
  cases format <;> decide

theorem printable_of_valid (nonzero : character ≠ 0)
    (h : characterValid format character = true) : printable character := by
  cases format with
  | numeric =>
    have table : ∀ c ∈ numericCharacters, (0x20 : UInt8) ≤ c := by decide
    exact table character (numericSymbol_mem h nonzero)
  | alpha =>
    simp only [characterValid, Bool.and_eq_true, decide_eq_true_eq] at h
    exact h.1

section
variable (h : messageValid format text = some textLen)
include h

theorem streamCharacter_eq (n : Nat) : streamCharacter format text textLen n = text.bytes.getD n 0x20 := by
  have length := messageValid_length h
  unfold streamCharacter streamSymbol
  by_cases inside : n < textLen
  · have bound : n < text.bytes.length := by omega
    have member : text.bytes[n] ∈ text.bytes := getElem_mem _
    rw [if_pos inside, getD_eq_getElem _ _ (by omega), getD_eq_getElem _ _ (by omega)]
    exact symbolCharacter_textSymbol (text.noNul _ member) (messageValid_characters h _ member)
  · rw [if_neg inside, symbolCharacter_padding, getD_eq_default _ _ (by omega)]

theorem streamCharacter_printable (n : Nat) : printable (streamCharacter format text textLen n) := by
  rw [streamCharacter_eq h]
  by_cases inside : n < text.bytes.length
  · rw [getD_eq_getElem _ _ inside]
    have member := getElem_mem inside
    exact printable_of_valid (text.noNul _ member) (messageValid_characters h _ member)
  · rw [getD_eq_default _ _ (by omega)]
    exact Nat.le_refl 32

theorem streamCharacters_eq {n : Nat} (hn : textLen ≤ n) : (List.range n).map (streamCharacter format text textLen) =
      text.bytes ++ List.replicate (n - textLen) 0x20 := by
  have length := messageValid_length h
  apply ext_getElem
  · simp
    omega
  · intro i hi _
    rw [getElem_map, getElem_range, streamCharacter_eq h]
    by_cases inside : i < text.bytes.length
    · rw [getD_eq_getElem _ _ inside, getElem_append_left inside]
    · rw [getD_eq_default _ _ (by omega), getElem_append_right (by omega),
        getElem_replicate]

end

def trimmed (text : CString) : List UInt8 := text.bytes.rdropWhile (· == 0x20)

theorem rdropWhile_replicate {p : UInt8 → Bool} {c : UInt8} (hc : p c = true) (bytes : List UInt8)
    (n : Nat) : (bytes ++ List.replicate n c).rdropWhile p = bytes.rdropWhile p := by
  induction n with
  | zero => rw [replicate_zero, append_nil]
  | succ n ih =>
    rw [replicate_succ', ← append_assoc, rdropWhile_concat_pos _ _ _ hc, ih]

theorem rdropWhile_congr {p q : UInt8 → Bool} {bytes : List UInt8} (h : ∀ c ∈ bytes, p c = q c) :
    bytes.rdropWhile p = bytes.rdropWhile q := by
  induction bytes using List.reverseRecOn with
  | nil => rfl
  | append_singleton bytes c ih =>
    have last := h c (by simp)
    have rest := ih fun d hd => h d (mem_append_left _ hd)
    rw [rdropWhile_concat, rdropWhile_concat, last, rest]

theorem trim_padded (h : messageValid format text = some textLen) (n : Nat) :
    (text.bytes ++ List.replicate n 0x20).rdropWhile trailing = trimmed text := by
  rw [rdropWhile_replicate (by decide)]
  apply rdropWhile_congr
  intro c hc
  have valid := messageValid_characters h c hc
  have high : (0x20 : UInt8) ≤ c := printable_of_valid (text.noNul c hc) valid
  have large : 32 ≤ c.toNat := high
  have notReturn : c ≠ 0x0D := by
    rintro rfl
    exact absurd large (by decide)
  have notFeed : c ≠ 0x0A := by
    rintro rfl
    exact absurd large (by decide)
  simp [trailing, notReturn, notFeed]
  rfl

end Characters

section Words

variable (ric : Word)

theorem addressIndex_le : addressIndex ric ≤ 14 := by
  have low : (ric &&& 7#32).toNat ≤ 7 := by
    rw [BitVec.toNat_and]
    exact Nat.and_le_right
  unfold addressIndex
  omega

theorem addressData_bit (function : UInt8) (i : Nat) : (addressData ric function).getLsbD i =
      ((decide (13 ≤ i ∧ i < 31) && ric.getLsbD (i - 10)) ||
        (decide (11 ≤ i ∧ i < 32) && function.toBitVec.getLsbD (i - 11))) := by
  have mask (j : Nat) : (0x3FFFF#32).getLsbD j = decide (j < 18) := by
    by_cases inside : j < 32
    · have all : ∀ j, j < 32 → (0x3FFFF#32).getLsbD j = decide (j < 18) := by decide
      exact all j inside
    · rw [BitVec.getLsbD_of_ge _ _ (by omega), decide_eq_false (by omega)]
  rw [addressData, BitVec.getLsbD_or, BitVec.getLsbD_shiftLeft, BitVec.getLsbD_and, mask,
    BitVec.getLsbD_ushiftRight, BitVec.getLsbD_shiftLeft, BitVec.getLsbD_setWidth]
  have back : 13 ≤ i → 3 + (i - 13) = i - 10 := by omega
  by_cases h13 : 13 ≤ i
  · rw [back h13]
    by_cases h31 : i < 31
    · have h32 : i < 32 := by omega
      have h18 : i - 13 < 18 := by omega
      have h11 : 11 ≤ i := by omega
      have hlow : ¬ i < 13 := by omega
      have hlow' : ¬ i < 11 := by omega
      have hin : i - 11 < 32 := by omega
      simp [h13, h31, h32, h18, h11, hlow, hlow', hin]
    · have h18 : ¬ i - 13 < 18 := by omega
      by_cases h32 : i < 32
      · have hin : i - 11 < 32 := by omega
        have h11 : 11 ≤ i := by omega
        have hlow' : ¬ i < 11 := by omega
        simp [h31, h32, h18, hin, h11, hlow']
      · simp [h31, h32]
  · by_cases h11 : 11 ≤ i
    · have h32 : i < 32 := by omega
      have hlow : i < 13 := by omega
      have hlow' : ¬ i < 11 := by omega
      have hin : i - 11 < 32 := by omega
      simp [h13, h11, h32, hlow, hlow', hin]
    · have hlow : i < 13 := by omega
      have hlow' : i < 11 := by omega
      simp [h13, h11, hlow, hlow']

theorem addressData_dataWord (function : UInt8) : DataWord (addressData ric function) := by
  intro i hi
  have h13 : ¬ (13 ≤ i ∧ i < 31) := by omega
  have h11 : ¬ (11 ≤ i ∧ i < 32) := by omega
  rw [addressData_bit, decide_eq_false h13, decide_eq_false h11]
  rfl

theorem addressData_top (function : UInt8) : (addressData ric function).getLsbD 31 = false := by
  rw [addressData_bit, BitVec.getLsbD_of_ge function.toBitVec _ (by decide)]
  rfl

theorem bit_of_small {w : Nat} {value : BitVec w} {n i : Nat} (h : value.toNat < 2 ^ n)
    (hi : n ≤ i) : value.getLsbD i = false := by
  rw [← BitVec.testBit_toNat]
  exact Nat.testBit_lt_two_pow (lt_of_lt_of_le h (Nat.pow_le_pow_right (by decide) hi))

theorem addressRic {ric : Word} (h : ric.toNat ≤ ricMax) {function : UInt8} (hf : function ≤ 3) :
    (((addressData ric function >>> 13) &&& 0x3FFFF#32) <<< 3) |||
      BitVec.ofNat 32 (addressIndex ric / 2) = ric := by
  have small : ric.toNat < 2 ^ 21 := by
    have : ricMax < 2 ^ 21 := by decide
    omega
  have three : function.toBitVec.toNat < 2 ^ 2 := by
    have : function.toNat ≤ 3 := hf
    exact Nat.lt_succ_of_le this
  have frame : addressIndex ric / 2 = (ric &&& 7#32).toNat := by
    unfold addressIndex
    omega
  have seven : ∀ i, i < 32 → (7#32).getLsbD i = decide (i < 3) := by decide
  have mask : ∀ i, i < 32 → (0x3FFFF#32).getLsbD i = decide (i < 18) := by decide
  apply BitVec.eq_of_getLsbD_eq
  intro i hi
  rw [frame, BitVec.ofNat_toNat, BitVec.setWidth_eq, BitVec.getLsbD_or, BitVec.getLsbD_shiftLeft,
    BitVec.getLsbD_and, BitVec.getLsbD_ushiftRight, BitVec.getLsbD_and, seven i hi,
    mask (i - 3) (by omega), addressData_bit]
  by_cases low : i < 3
  · simp [low]
  · have place : 13 + (i - 3) - 10 = i := by omega
    by_cases high : i < 21
    · have inside : 13 ≤ 13 + (i - 3) ∧ 13 + (i - 3) < 31 := by omega
      have below : i - 3 < 18 := by omega
      have clear := bit_of_small (i := 13 + (i - 3) - 11) three (by omega)
      simp [low, hi, place, inside, below, clear]
    · have above : ¬ i - 3 < 18 := by omega
      simp [low, above, bit_of_small small (by omega : 21 ≤ i)]

theorem addressFunction {function : UInt8} (hf : function ≤ 3) :
    UInt8.ofBitVec (((addressData ric function >>> 11) &&& 3#32).setWidth 8) = function := by
  have three : function.toBitVec.toNat < 2 ^ 2 := by
    have : function.toNat ≤ 3 := hf
    exact Nat.lt_succ_of_le this
  have mask : ∀ i, i < 32 → (3#32).getLsbD i = decide (i < 2) := by decide
  have same : ((addressData ric function >>> 11) &&& 3#32).setWidth 8 = function.toBitVec := by
    apply BitVec.eq_of_getLsbD_eq
    intro i hi
    rw [BitVec.getLsbD_setWidth, BitVec.getLsbD_and, BitVec.getLsbD_ushiftRight, mask i (by omega), addressData_bit]
    by_cases low : i < 2
    · have outside : ¬ (13 ≤ 11 + i ∧ 11 + i < 31) := by omega
      have inside : 11 ≤ 11 + i ∧ 11 + i < 32 := by omega
      have place : 11 + i - 11 = i := by omega
      rw [decide_eq_false outside, decide_eq_true inside, decide_eq_true hi, decide_eq_true low, place]
      simp
    · have clear := bit_of_small (i := i) three (by omega)
      rw [decide_eq_false low, clear]
      simp
  rw [same]

theorem addressData_idle {ric : Word} (h : ric.toNat ≤ ricMax) {function : UInt8} (hf : function ≤ 3) :
    addressData ric function = idleData ↔ ric >>> 3 = 0x3D44E#32 ∧ function = 0 := by
  constructor
  · intro same
    have hric := addressRic h hf
    have hfunction := addressFunction ric hf
    rw [same] at hric hfunction
    constructor
    · rw [← hric]
      apply BitVec.eq_of_getLsbD_eq
      intro i hi
      have frame : (BitVec.ofNat 32 (addressIndex ric / 2)).getLsbD (3 + i) = false := by
        have small := addressIndex_le ric
        apply bit_of_small (n := 3) _ (by omega)
        rw [BitVec.toNat_ofNat, Nat.mod_eq_of_lt (by omega)]
        omega
      have fixed : ∀ i, i < 32 → ((idleData >>> 13 &&& 0x3FFFF#32) <<< 3).getLsbD (3 + i) =
        (0x3D44E#32).getLsbD i := by decide
      rw [BitVec.getLsbD_ushiftRight, BitVec.getLsbD_or, frame, Bool.or_false, fixed i hi]
    · rw [← hfunction]
      decide
  · rintro ⟨hric, rfl⟩
    rw [addressData, hric]
    decide

theorem messageData_dataWord (data : Word) : DataWord (0x80000000#32 ||| (data <<< 11)) := by
  have top : ∀ i, i < 11 → (0x80000000#32).getLsbD i = false := by decide
  intro i hi
  rw [BitVec.getLsbD_or, BitVec.getLsbD_shiftLeft, top i hi]
  simp [hi]

theorem messageData_top (data : Word) : (0x80000000#32 ||| (data <<< 11)).getLsbD 31 = true := by
  rw [BitVec.getLsbD_or, show (0x80000000#32).getLsbD 31 = true by decide, Bool.true_or]

theorem messageData_bits (format : Format) (text : CString) (textLen messageWord : Nat) :
    (encodeCodeword (0x80000000#32 |||
      (messageDataWord format text textLen messageWord <<< 11)) >>> 11) &&& 0xFFFFF#32 =
      messageDataWord format text textLen messageWord := by
  have mask : ∀ i, i < 32 → (0xFFFFF#32).getLsbD i = decide (i < 20) := by decide
  have top : ∀ i, i < 20 → (0x80000000#32).getLsbD (11 + i) = false := by decide
  rw [encodeCodeword_shift _ (Nat.le_refl 11)]
  apply BitVec.eq_of_getLsbD_eq
  intro i hi
  rw [BitVec.getLsbD_and, mask i hi, BitVec.getLsbD_ushiftRight, BitVec.getLsbD_or, BitVec.getLsbD_shiftLeft]
  by_cases low : i < 20
  · have inside : 11 + i < 32 := by omega
    have back : 11 + i - 11 = i := by omega
    have above : ¬ 11 + i < 11 := by omega
    rw [top i low, back, decide_eq_true low, decide_eq_true inside, decide_eq_false above]
    simp
  · rw [decide_eq_false low, Bool.and_false, messageDataWord_high _ _ _ _ (by omega)]

end Words

section Decoding

variable (decoder : Decoder) (index : Nat) (rssiDbm : Int16)

theorem idleData_dataWord : DataWord idleData := by
  unfold DataWord
  decide

theorem decodeWord_idle : decodeWord decoder index idleCodeword rssiDbm = finishMessage decoder := by
  have accepted := correctCodeword_encode idleData_dataWord
  rw [idleCodeword_eq] at accepted
  simp only [decodeWord, accepted, lt_irrefl, and_false, if_false, if_true]

theorem top_clear (word : Word) : word &&& 0x80000000#32 = 0#32 ↔ word.getLsbD 31 = false := by
  have test := bit_test word (show 31 < 32 by decide)
  have mask : 1#32 <<< 31 = 0x80000000#32 := by decide
  rw [mask] at test
  rw [← Bool.not_eq_true, ← test, ne_eq, not_not]

theorem decodeWord_message {data : Word} (hdata : DataWord data) (top : data.getLsbD 31 = true) :
    decodeWord decoder index (encodeCodeword data) rssiDbm =
      if decoder.active then
        (appendMessageBits decoder ((encodeCodeword data >>> 11) &&& 0xFFFFF#32), [])
      else (decoder, []) := by
  have notIdle : encodeCodeword data ≠ idleCodeword := by
    rw [ne_eq, encodeCodeword_idle hdata]
    rintro rfl
    exact absurd top (by decide)
  have notAddress : ¬ encodeCodeword data &&& 0x80000000#32 = 0#32 := by
    rw [top_clear, encodeCodeword_bit data (by decide), top]
    decide
  simp only [decodeWord, correctCodeword_encode hdata, lt_irrefl, and_false, if_false, notIdle, notAddress]

theorem decodeWord_address {ric : Word} (hric : ric.toNat ≤ ricMax) {function : UInt8}
    (hfunction : function ≤ 3) (hidle : ¬ (ric >>> 3 = 0x3D44E#32 ∧ function = 0))
    (hindex : index / 2 = addressIndex ric / 2)
    (htarget : decoder.targetRic = 0 ∨ ric = decoder.targetRic) (hactive : decoder.active = false) :
    decodeWord decoder index (encodeCodeword (addressData ric function)) rssiDbm =
      (beginMessage decoder ric function rssiDbm, []) := by
  have hdata := addressData_dataWord ric function
  have notIdle : encodeCodeword (addressData ric function) ≠ idleCodeword := by
    rw [ne_eq, encodeCodeword_idle hdata, addressData_idle hric hfunction]
    exact hidle
  have address : encodeCodeword (addressData ric function) &&& 0x80000000#32 = 0#32 := by
    rw [top_clear, encodeCodeword_bit _ (by decide), addressData_top]
  have word : encodeCodeword (addressData ric function) >>> 13 = addressData ric function >>> 13 :=
    encodeCodeword_shift _ (by decide)
  have word' : encodeCodeword (addressData ric function) >>> 11 = addressData ric function >>> 11 :=
    encodeCodeword_shift _ (by decide)
  have quiet : finishMessage decoder = (decoder, []) := by
    rw [finishMessage, hactive]
    rfl
  simp only [decodeWord, correctCodeword_encode hdata, lt_irrefl, and_false, if_false, notIdle,
    address, if_true, quiet, word, word', hindex, addressRic hric hfunction,
    addressFunction ric hfunction, htarget]
  rfl

end Decoding

section Page

variable {ric : Word} {function : UInt8} {format : Format} {text : CString} {textLen : Nat}
  {target : Word} (rssiDbm : Int16)

def pageStream (ric : Word) (function : UInt8) (format : Format) (text : CString) (textLen : Nat)
    (target : Word) (rssiDbm : Int16) : Nat → Decoder × List Message :=
  decodeStream rssiDbm (payloadCodeword ric function format text textLen)
    (decoderInit target format)

def addressed (ric : Word) (function : UInt8) (format : Format) (target : Word)
    (rssiDbm : Int16) : Decoder :=
  beginMessage (decoderInit target format) ric function rssiDbm

theorem pageStream_before {k : Nat} (hk : k ≤ addressIndex ric) :
    pageStream ric function format text textLen target rssiDbm k =
      (decoderInit target format, []) := by
  induction k with
  | zero => rfl
  | succ k ih =>
    have idle : payloadCodeword ric function format text textLen k = idleCodeword := by
      rw [payloadCodeword, if_neg (by omega), if_neg (by omega)]
    have rest := ih (Nat.le_of_succ_le hk)
    unfold pageStream at rest ⊢
    simp only [decodeStream, rest, idle, decodeWord_idle]
    rfl

theorem pageStream_address (hric : ric.toNat ≤ ricMax) (hfunction : function ≤ 3)
    (hidle : ¬ (ric >>> 3 = 0x3D44E#32 ∧ function = 0)) (htarget : target = 0 ∨ target = ric) :
    pageStream ric function format text textLen target rssiDbm (addressIndex ric + 1) =
      (addressed ric function format target rssiDbm, []) := by
  have word : payloadCodeword ric function format text textLen (addressIndex ric) =
      encodeCodeword (addressData ric function) := by
    rw [payloadCodeword, if_pos rfl]
  have before : pageStream ric function format text textLen target rssiDbm (addressIndex ric) =
      (decoderInit target format, []) := pageStream_before rssiDbm (Nat.le_refl (addressIndex ric))
  have slot : addressIndex ric % codewordsPerBatch = addressIndex ric :=
    Nat.mod_eq_of_lt (lt_of_le_of_lt (addressIndex_le ric) (by decide))
  have aimed : (decoderInit target format).targetRic = 0 ∨
      ric = (decoderInit target format).targetRic := htarget.imp id Eq.symm
  have decoded := decodeWord_address (decoderInit target format) (addressIndex ric) rssiDbm hric
    hfunction hidle rfl aimed rfl
  unfold pageStream at before ⊢
  simp only [decodeStream, before, word, slot, decoded]
  rfl

theorem pageStream_message (hric : ric.toNat ≤ ricMax) (hfunction : function ≤ 3)
    (hidle : ¬ (ric >>> 3 = 0x3D44E#32 ∧ function = 0)) (htarget : target = 0 ∨ target = ric)
    {j : Nat} (hj : j ≤ messageWords format textLen) :
    pageStream ric function format text textLen target rssiDbm (addressIndex ric + 1 + j) =
      (received format text textLen (addressed ric function format target rssiDbm) (j * 20), []) := by
  induction j with
  | zero =>
    rw [add_zero, Nat.zero_mul, pageStream_address rssiDbm hric hfunction hidle htarget, received_zero _ _ _ rfl rfl]
  | succ j ih =>
    have word : payloadCodeword ric function format text textLen (addressIndex ric + 1 + j) =
        encodeCodeword (0x80000000#32 ||| (messageDataWord format text textLen j <<< 11)) := by
      have place : addressIndex ric + 1 + j - addressIndex ric - 1 = j := by omega
      rw [payloadCodeword, if_neg (by omega), if_pos (by omega), place]
    have collecting : (received format text textLen
        (addressed ric function format target rssiDbm) (j * 20)).active = true := rfl
    have advanced : appendMessageBits (received format text textLen
        (addressed ric function format target rssiDbm) (j * 20))
        (messageDataWord format text textLen j) = received format text textLen
        (addressed ric function format target rssiDbm) ((j + 1) * 20) :=
      appendMessageBits_received rfl j
    have rest := ih (Nat.le_of_succ_le hj)
    unfold pageStream at rest ⊢
    rw [← add_assoc]
    simp only [decodeStream, rest, word, decodeWord_message _ _ rssiDbm (messageData_dataWord _)
      (messageData_top _), collecting, if_true, messageData_bits, advanced]
    rfl

theorem finishMessage_idem (decoder : Decoder) :
    finishMessage (finishMessage decoder).1 = ((finishMessage decoder).1, []) := by
  have quiet : (finishMessage decoder).1.active = false := by
    unfold finishMessage
    cases active : decoder.active with
    | true => rfl
    | false => simpa using active
  generalize (finishMessage decoder).1 = finished at quiet
  rw [finishMessage, quiet]
  rfl

theorem pageStream_after {decoder : Decoder} {last : Nat}
    (hlast : addressIndex ric + messageWords format textLen < last)
    (h : pageStream ric function format text textLen target rssiDbm last = (decoder, [])) (n : Nat) :
    pageStream ric function format text textLen target rssiDbm (last + (n + 1)) =
      finishMessage decoder := by
  induction n with
  | zero =>
    have idle : payloadCodeword ric function format text textLen last = idleCodeword := by
      rw [payloadCodeword, if_neg (by omega), if_neg (by omega)]
    unfold pageStream at h ⊢
    rw [zero_add]
    simp only [decodeStream, h, idle, decodeWord_idle, nil_append]
  | succ n ih =>
    have idle : payloadCodeword ric function format text textLen (last + (n + 1)) =
        idleCodeword := by
      rw [payloadCodeword, if_neg (by omega), if_neg (by omega)]
    unfold pageStream at ih ⊢
    rw [← add_assoc last, decodeStream_succ, ih, idle, decodeWord_idle, finishMessage_idem, append_nil]

theorem receive_page {decoder : Decoder} {batches last : Nat}
    (hlast : addressIndex ric + messageWords format textLen < last) (hbatches : last ≤ batches * codewordsPerBatch)
    (h : pageStream ric function format text textLen target rssiDbm last = (decoder, [])) :
    receive rssiDbm (decoderInit target format)
        (payloadBytes (payloadCodeword ric function format text textLen) batches) batches =
      (finishMessage decoder).2 := by
  have whole : decodeBatches rssiDbm (payloadBatches
      (payloadBytes (payloadCodeword ric function format text textLen) batches) batches)
      (decoderInit target format) =
      pageStream ric function format text textLen target rssiDbm (batches * codewordsPerBatch) :=
    decodeBatches_payload _ _ _ _
  unfold receive
  rw [whole]
  by_cases exact : last = batches * codewordsPerBatch
  · rw [← exact, h]
    rfl
  · have more : batches * codewordsPerBatch = last + (batches * codewordsPerBatch - last - 1 + 1) := by omega
    rw [more, pageStream_after rssiDbm hlast h]
    simp only [decoderFlush, finishMessage_idem, append_nil]

end Page

end SolarOs.Pocsag
