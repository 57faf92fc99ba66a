import Mathlib.Data.Nat.Bitwise
import SolarOs.Pocsag.Stream

/-! Message words are one stream of symbol bits: the decoder reads the symbols back
and collects their characters. -/
namespace SolarOs.Pocsag
open List BitVec

section
variable (format : Format)

variable (text : CString)

def streamSymbol (textLen n : Nat) : UInt8 :=
  if n < textLen then textSymbol format (text.bytes.getD n 0) else paddingSymbol format

/-- The bit of the symbol stream at `bitIndex`. -/
def streamBit (textLen bitIndex : Nat) : Bool :=
  (streamSymbol format text textLen (bitIndex / format.width)).toBitVec.getLsbD
    (bitIndex % format.width)

theorem Format.width_pos : 0 < format.width := by
  cases format <;> decide

theorem Format.width_lt : format.width < 8 := by
  cases format <;> decide

theorem streamPlace_eq (textLen bitIndex : Nat) : streamPlace format text textLen bitIndex =
      (streamSymbol format text textLen (bitIndex / format.width), bitIndex % format.width) := by
  have place := Nat.div_lt_iff_lt_mul (x := bitIndex) (y := textLen) format.width_pos
  unfold streamPlace streamSymbol
  by_cases inside : bitIndex < textLen * format.width
  · rw [if_pos inside, if_pos (place.mpr inside)]
  · rw [if_neg inside, if_neg (fun h => inside (place.mp h)), mul_comm textLen,
      Nat.sub_mul_mod (by rw [mul_comm]; omega)]

theorem placedBit (byte : BitVec 8) (k : Nat) {place j : Nat} (hplace : place < 32) :
    ((((byte >>> k) &&& 1#8).setWidth 32) <<< place).getLsbD j =
      (decide (j = place) && byte.getLsbD k) := by
  rw [getLsbD_shiftLeft, getLsbD_setWidth, getLsbD_and, getLsbD_ushiftRight, getLsbD_one]
  by_cases same : j = place
  · subst same
    simp [hplace]
  · by_cases low : j < place
    · simp [same, low]
    · have apart : j - place ≠ 0 := by omega
      simp [same, apart]

theorem messageDataWord_bit (textLen messageWord : Nat) {j : Nat} (hj : j < 20) :
    (messageDataWord format text textLen messageWord).getLsbD (19 - j) =
      streamBit format text textLen (messageWord * 20 + j) := by
  let body := fun (data : Word) (outputBit : Nat) =>
    data ||| ((((streamPlace format text textLen (messageWord * 20 + outputBit)).1.toBitVec >>>
      (streamPlace format text textLen (messageWord * 20 + outputBit)).2 &&& 1#8).setWidth 32) <<<
        (19 - outputBit))
  have collected (n : Nat) (hn : n ≤ 20) :
      ((List.range n).foldl body 0#32).getLsbD (19 - j) =
        (decide (j < n) && streamBit format text textLen (messageWord * 20 + j)) := by
    induction n with
    | zero => simp
    | succ n ih =>
      rw [range_succ, foldl_append, foldl_cons, foldl_nil, getLsbD_or,
        ih (Nat.le_of_succ_le hn), placedBit _ _ (by omega), streamPlace_eq]
      by_cases same : j = n
      · subst same
        simp [streamBit]
      · have apart : 19 - j ≠ 19 - n := by omega
        have order : j < n + 1 ↔ j < n := by omega
        simp [apart, order]
  have whole := collected 20 (Nat.le_refl 20)
  rwa [decide_eq_true hj, Bool.true_and] at whole

theorem messageDataWord_high (textLen messageWord : Nat) {j : Nat} (hj : 20 ≤ j) :
    (messageDataWord format text textLen messageWord).getLsbD j = false := by
  unfold messageDataWord
  generalize List.range 20 = places
  induction places using List.reverseRecOn with
  | nil => simp
  | append_singleton places outputBit ih =>
    have apart : j ≠ 19 - outputBit := by omega
    rw [foldl_append, foldl_cons, foldl_nil, getLsbD_or, ih, placedBit _ _ (by omega)]
    simp [apart]

variable (symbol : BitVec 8)

/-- The low `k` bits of a symbol. -/
def partialSymbol (k : Nat) : BitVec 8 := (symbol.setWidth k).setWidth 8

theorem partialSymbol_bit (k i : Nat) : (partialSymbol symbol k).getLsbD i = (decide (i < k) && symbol.getLsbD i) := by
  rw [partialSymbol, getLsbD_setWidth, getLsbD_setWidth]
  by_cases inside : i < 8
  · simp [inside]
  · have outside := getLsbD_of_ge symbol i (by omega)
    simp [outside]

theorem partialSymbol_zero : partialSymbol symbol 0 = 0 := by
  apply eq_of_getLsbD_eq
  intro i _
  rw [partialSymbol_bit]
  simp

theorem partialSymbol_succ {symbol : BitVec 8} {bits : Word} {bit k : Nat} (hk : k < 8)
    (h : bits.getLsbD bit = symbol.getLsbD k) :
    partialSymbol symbol k ||| ((((bits >>> bit) &&& 1#32) <<< k).setWidth 8) =
      partialSymbol symbol (k + 1) := by
  apply eq_of_getLsbD_eq
  intro i hi
  rw [getLsbD_or, partialSymbol_bit, partialSymbol_bit, getLsbD_setWidth,
    getLsbD_shiftLeft, getLsbD_and, getLsbD_ushiftRight, getLsbD_one]
  have inside : i < 32 := by omega
  by_cases same : i = k
  · subst same
    simp [hi, inside, h]
  · by_cases low : i < k
    · have below : i < k + 1 := by omega
      simp [low, below]
    · have apart : i - k ≠ 0 := by omega
      have above : ¬ i < k + 1 := by omega
      simp [low, above, apart]

theorem symbolCharacter_partial :
    symbolCharacter format (partialSymbol symbol format.width) = symbolCharacter format symbol := by
  have masked (mask : BitVec 8) (h : ∀ i, i < 8 → mask.getLsbD i = true → i < format.width) :
      partialSymbol symbol format.width &&& mask = symbol &&& mask := by
    apply eq_of_getLsbD_eq
    intro i hi
    rw [getLsbD_and, getLsbD_and, partialSymbol_bit]
    cases set : mask.getLsbD i with
    | false => rw [Bool.and_false, Bool.and_false]
    | true => rw [decide_eq_true (h i hi set), Bool.true_and]
  cases format with
  | numeric => rw [symbolCharacter, symbolCharacter, masked 0x0F#8 (by decide)]
  | alpha => rw [symbolCharacter, symbolCharacter, masked 0x7F#8 (by decide)]

end

section Collecting

variable (format : Format) (text : CString) (textLen : Nat)

def streamCharacter (n : Nat) : UInt8 :=
  symbolCharacter format (streamSymbol format text textLen n).toBitVec

/-- The message after `n` characters of the stream. -/
def receivedMessage (start : Message) : Nat → Message
  | 0 => start
  | n + 1 => appendCharacter (receivedMessage start n) (streamCharacter format text textLen n)

/-- The decoder after `i` bits of the stream. -/
def received (start : Decoder) (i : Nat) : Decoder :=
  { start with
    message := receivedMessage format text textLen start.message (i / format.width)
    character := partialSymbol (streamSymbol format text textLen (i / format.width)).toBitVec
      (i % format.width)
    characterBits := i % format.width }

theorem received_zero {start : Decoder} (hcharacter : start.character = 0)
    (hbits : start.characterBits = 0) : received format text textLen start 0 = start := by
  simp only [received, Nat.zero_div, Nat.zero_mod, partialSymbol_zero, receivedMessage]
  rw [← hcharacter, ← hbits]

variable {format text textLen}

theorem appendBit_received {start : Decoder} (hformat : start.format = format) {bits : Word}
    {bit i : Nat} (h : bits.getLsbD bit = streamBit format text textLen i) :
    appendBit (received format text textLen start i) bits bit =
      received format text textLen start (i + 1) := by
  have below := Nat.mod_lt i format.width_pos
  have character : (received format text textLen start i).character |||
      ((((bits >>> bit) &&& 1#32) <<< (received format text textLen start i).characterBits).setWidth
        8) =
      partialSymbol (streamSymbol format text textLen (i / format.width)).toBitVec
        (i % format.width + 1) :=
    partialSymbol_succ (lt_trans below format.width_lt) h
  unfold appendBit
  rw [character]
  have whole := Nat.mod_add_div i format.width
  by_cases more : i % format.width + 1 = format.width
  · -- the symbol is complete: the next bit starts a new one
    obtain ⟨quotient, remainder⟩ :=
      (Nat.div_mod_unique format.width_pos (a := i + 1) (d := i / format.width + 1) (c := 0)).mpr
        ⟨by rw [Nat.mul_succ]; omega, format.width_pos⟩
    rw [if_neg (by simp only [received, hformat]; omega)]
    simp only [received, quotient, remainder, partialSymbol_zero, receivedMessage, hformat, more,
      symbolCharacter_partial, streamCharacter]
  · obtain ⟨quotient, remainder⟩ :=
      (Nat.div_mod_unique format.width_pos (a := i + 1) (d := i / format.width)
        (c := i % format.width + 1)).mpr ⟨by omega, by omega⟩
    rw [if_pos (by simp only [received, hformat]; omega)]
    simp only [received, quotient, remainder]

theorem appendMessageBits_received {start : Decoder} (hformat : start.format = format)
    (messageWord : Nat) : appendMessageBits (received format text textLen start (messageWord * 20))
        (messageDataWord format text textLen messageWord) =
      received format text textLen start ((messageWord + 1) * 20) := by
  have collected (n : Nat) (hn : n ≤ 20) :
      (List.range n).foldl (fun decoder outputBit =>
          appendBit decoder (messageDataWord format text textLen messageWord) (19 - outputBit))
          (received format text textLen start (messageWord * 20)) =
        received format text textLen start (messageWord * 20 + n) := by
    induction n with
    | zero => rfl
    | succ n ih =>
      rw [range_succ, foldl_append, ih (Nat.le_of_succ_le hn), foldl_cons,
        foldl_nil, appendBit_received hformat (messageDataWord_bit _ _ _ _ hn), add_assoc]
  rw [appendMessageBits, collected 20 (Nat.le_refl 20), Nat.succ_mul]

end Collecting

/-- Characters that `append_character` does not drop. -/
def printable (character : UInt8) : Prop := 0x20 ≤ character

theorem appendCharacter_printable {message : Message} {character : UInt8}
    (h : printable character) : appendCharacter message character =
      if textMax ≤ message.text.length + 1 then { message with truncated := true }
      else { message with text := message.text ++ [character] } := by
  have large : (32 : Nat) ≤ character.toNat := h
  have control (c : UInt8) (hc : c.toNat < 32) : character ≠ c := by
    rintro rfl
    omega
  have high : ¬ character < 0x20 := fun low => by
    have : character.toNat < 32 := low
    omega
  rw [appendCharacter, if_neg (by simp [control 0, control 3, control 4]),
    if_neg (by simp [high])]

theorem receivedMessage_eq {format : Format} {text : CString} {textLen : Nat}
    (hprintable : ∀ n, printable (streamCharacter format text textLen n)) {start : Message}
    (htext : start.text = []) (htruncated : start.truncated = false) (n : Nat) :
    receivedMessage format text textLen start n =
      { start with
        text := ((List.range n).map (streamCharacter format text textLen)).take 255
        truncated := decide (255 < n) } := by
  induction n with
  | zero =>
    cases start
    subst htext htruncated
    rfl
  | succ n ih =>
    rw [receivedMessage, ih, appendCharacter_printable (hprintable n)]
    simp only [length_take, length_map, length_range, textMax]
    by_cases full : 255 ≤ n
    · rw [if_pos (by omega), range_succ, map_append,
        take_append_of_le_length (by simpa using full)]
      have past : 255 < n + 1 := by omega
      simp [past]
    · rw [if_neg (by omega), take_of_length_le (by simp; omega),
        take_of_length_le (by simp; omega), range_succ, map_append]
      have under : ¬ 255 < n := by omega
      have next : ¬ 255 < n + 1 := by omega
      simp [under, next]

end SolarOs.Pocsag
