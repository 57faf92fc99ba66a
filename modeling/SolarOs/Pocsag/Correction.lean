import SolarOs.Library.BitWeight
import SolarOs.Pocsag.Stream

/-! Bit errors in code words: two are corrected, three are noticed, and batches with at most
two in each word decode to the messages of the clean ones. -/
namespace SolarOs.Pocsag
open CyclicCode BitWeight List BitVec

def syndrome (word : Word) : Word := bchRemainder (word >>> 1)

theorem syndrome_xor (x y : Word) : syndrome (x ^^^ y) = syndrome x ^^^ syndrome y := by
  unfold syndrome
  rw [ushiftRight_xor_distrib, bchRemainder_eq, bchRemainder_eq, bchRemainder_eq, remainder_xor]

theorem codewordValid_iff (word : Word) : codewordValid word = true ↔ weight word % 2 = 0 ∧ syndrome word = 0 := by
  unfold codewordValid oddParity
  rw [cpop_eq, bchRemainder_and]
  by_cases odd : weight word % 2 = 1
  · rw [if_pos (by simpa using odd)]
    constructor
    · exact nofun
    · intro both
      omega
  · rw [if_neg (by simpa using odd), decide_eq_true_eq]
    exact ⟨fun none => ⟨by omega, none⟩, fun both => both.2⟩

theorem codewordValid_xor {word : Word} (valid : codewordValid word = true) (e : Word) :
    codewordValid (word ^^^ e) = codewordValid e := by
  obtain ⟨even, clean⟩ := (codewordValid_iff word).mp valid
  have sum := weight_xor word e
  have zero : (0 : Word) ^^^ syndrome e = syndrome e := BitVec.zero_xor
  rw [Bool.eq_iff_iff, codewordValid_iff, codewordValid_iff, syndrome_xor, clean, zero]
  constructor
  · exact fun both => ⟨by omega, both.2⟩
  · exact fun both => ⟨by omega, both.2⟩

def bitSyndromes : List Nat :=
  [0, 1, 2, 4, 8, 16, 32, 64, 128, 256, 512, 873, 443, 886, 389, 778, 381, 762, 669, 595, 975, 247, 494, 988, 209, 418,
    836, 481, 962, 237, 474, 948]

def bitSyndrome (i : Nat) : Nat := bitSyndromes.getD i 0

theorem syndrome_twoPow {i : Nat} (h : i < 32) : (syndrome (BitVec.twoPow 32 i)).toNat = bitSyndrome i := by
  have all : ∀ i < 32, (syndrome (BitVec.twoPow 32 i)).toNat = bitSyndrome i := by decide +kernel
  exact all i h

def bitPairs : List (Nat × Nat) :=
  (List.range 32).flatMap fun i => (List.range' (i + 1) (31 - i)).map fun j => (i, j)

theorem mem_bitPairs {i j : Nat} (h : i < j) (hj : j < 32) : (i, j) ∈ bitPairs := by
  refine mem_flatMap.mpr ⟨i, mem_range.mpr (by omega), mem_map.mpr ⟨j, ?_, rfl⟩⟩
  rw [mem_range'_1]
  omega

def pairSyndrome (pair : Nat × Nat) : Nat := bitSyndrome pair.1 ^^^ bitSyndrome pair.2

theorem syndrome_pair {i j : Nat} (h : i < j) (hj : j < 32) :
    (syndrome (BitVec.twoPow 32 i ^^^ BitVec.twoPow 32 j)).toNat = pairSyndrome (i, j) := by
  rw [syndrome_xor, toNat_xor, syndrome_twoPow (Nat.lt_trans h hj), syndrome_twoPow hj]
  rfl

theorem pairSyndromes_new : allNew 1 (bitPairs.map pairSyndrome) = true := by decide +kernel

theorem codewordValid_light {e : Word} (light : weight e ≤ 5) : codewordValid e = true ↔ e = 0 := by
  constructor
  · intro valid
    obtain ⟨even, clean⟩ := (codewordValid_iff e).mp valid
    obtain ⟨nodup, nonzero⟩ := allNew_spec pairSyndromes_new
    have count : weight e = 0 ∨ weight e = 2 ∨ weight e = 4 := by omega
    rcases count with none | two | four
    · exact weight_eq_zero.mp none
    · obtain ⟨i, j, order, below, rfl⟩ := eq_pair two
      have inside := mem_map_of_mem (f := pairSyndrome) (mem_bitPairs order below)
      have zero := syndrome_pair order below
      rw [clean] at zero
      rw [← zero] at inside
      exact nomatch nonzero _ inside
    · obtain ⟨i, j, k, l, first, middle, last, below, rfl⟩ := eq_pairs four
      rw [syndrome_xor] at clean
      have same := congrArg BitVec.toNat (eq_of_xor_eq_zero clean)
      rw [syndrome_pair first (by omega), syndrome_pair last below] at same
      have equal := inj_on_of_nodup_map nodup (mem_bitPairs first (by omega)) (mem_bitPairs last below) same
      have twice := congrArg Prod.fst equal
      simp only at twice
      omega
  · rintro rfl
    decide +kernel

theorem codewordValid_undone {word e f : Word} (valid : codewordValid word = true) (light : weight e + weight f ≤ 5) :
    codewordValid (word ^^^ e ^^^ f) = true ↔ e = f := by
  have le := weight_xor_le e f
  rw [BitVec.xor_assoc, codewordValid_xor valid, codewordValid_light (by omega)]
  exact BitVec.xor_eq_zero_iff

theorem undo (word e : Word) : word ^^^ e ^^^ e = word := by
  rw [BitVec.xor_assoc, BitVec.xor_self, xor_zero]

section Search
variable {α β : Type*} {f g : α → Option β} {xs : List α} {v : β} {x : α}

theorem findSome?_congr (same : ∀ y ∈ xs, f y = g y) : xs.findSome? f = xs.findSome? g := by
  induction xs with
  | nil => rfl
  | cons y xs ih =>
    rw [findSome?_cons, findSome?_cons, same y mem_cons_self, ih fun z there => same z (mem_cons_of_mem _ there)]

theorem findSome?_only (only : ∀ y ∈ xs, f y = none ∨ f y = some v) (inside : x ∈ xs) (hit : f x = some v) :
    xs.findSome? f = some v := by
  induction xs with
  | nil => exact absurd inside not_mem_nil
  | cons y xs ih =>
    rw [findSome?_cons]
    rcases only y mem_cons_self with miss | found
    · rw [miss]
      rcases mem_cons.mp inside with rfl | later
      · exact nomatch miss.symm.trans hit
      · exact ih (fun y there => only y (mem_cons_of_mem _ there)) later
    · rw [found]

end Search

theorem correctCodeword_xor {word e : Word} (valid : codewordValid word = true) (light : weight e ≤ 3) :
    correctCodeword (word ^^^ e) =
      if e = 0 then some (word, 0)
      else (List.range 32).findSome? fun first =>
        if e = BitVec.twoPow 32 first then some (word, 1)
        else (List.range' (first + 1) (31 - first)).findSome? fun second =>
          if e = BitVec.twoPow 32 first ^^^ BitVec.twoPow 32 second then some (word, 2) else none := by
  have bit : ∀ i, 1#32 <<< i = BitVec.twoPow 32 i := fun i => (twoPow_eq 32 i).symm
  unfold correctCodeword
  rw [codewordValid_xor valid]
  by_cases clean : e = 0
  · rw [if_pos ((codewordValid_light (by omega)).mpr clean), if_pos clean, clean]
    simp
  · rw [if_neg (fun yes => clean ((codewordValid_light (by omega)).mp yes)), if_neg clean]
    apply findSome?_congr
    intro first below
    have below := mem_range.mp below
    have one := weight_twoPow below
    have single := @codewordValid_undone word e (BitVec.twoPow 32 first) valid (by omega)
    simp only [bit]
    by_cases hit : e = BitVec.twoPow 32 first
    · rw [if_pos (single.mpr hit), if_pos hit, hit, undo]
    · rw [if_neg (fun yes => hit (single.mp yes)), if_neg hit]
      apply findSome?_congr
      intro second inside
      obtain ⟨above, inner⟩ := mem_range'_1.mp inside
      have two := weight_pair (w := 32) (i := first) (j := second) (by omega) (by omega)
      have double := @codewordValid_undone word e (BitVec.twoPow 32 first ^^^ BitVec.twoPow 32 second) valid (by omega)
      rw [BitVec.xor_assoc (word ^^^ e)]
      by_cases hit' : e = BitVec.twoPow 32 first ^^^ BitVec.twoPow 32 second
      · rw [if_pos (double.mpr hit'), if_pos hit', ← hit', undo]
      · rw [if_neg (fun yes => hit' (double.mp yes)), if_neg hit']

theorem correctCodeword_weight {word e : Word} (valid : codewordValid word = true) :
    (weight e ≤ 2 → correctCodeword (word ^^^ e) = some (word, weight e)) ∧
      (weight e = 3 → correctCodeword (word ^^^ e) = none) := by
  constructor
  · intro light
    rw [correctCodeword_xor valid (by omega)]
    have count : weight e = 0 ∨ weight e = 1 ∨ weight e = 2 := by omega
    rcases count with none | one | two
    · rw [none, if_pos (weight_eq_zero.mp none)]
    · have some : e ≠ 0 := fun zero => by rw [weight_eq_zero.mpr zero] at one; exact nomatch one
      obtain ⟨i, below, single⟩ := eq_twoPow one
      rw [if_neg some, one]
      refine findSome?_only (x := i) (fun first inside => ?_) (mem_range.mpr below) (if_pos single)
      by_cases hit : e = BitVec.twoPow 32 first
      · exact .inr (if_pos hit)
      · rw [if_neg hit]
        refine .inl (findSome?_eq_none_iff.mpr fun second after => if_neg fun pair => ?_)
        obtain ⟨above, inner⟩ := mem_range'_1.mp after
        have twice := weight_pair (w := 32) (i := first) (j := second) (by omega) (by omega)
        rw [← pair, one] at twice
        exact nomatch twice
    · have some : e ≠ 0 := fun zero => by rw [weight_eq_zero.mpr zero] at two; exact nomatch two
      have noSingle : ∀ first ∈ List.range 32, e ≠ BitVec.twoPow 32 first := by
        intro first inside hit
        rw [hit, weight_twoPow (mem_range.mp inside)] at two
        exact nomatch two
      obtain ⟨i, j, order, below, pair⟩ := eq_pair two
      rw [if_neg some, two]
      refine findSome?_only (x := i) (fun first inside => ?_) (mem_range.mpr (by omega)) ?_
      · rw [if_neg (noSingle first inside)]
        by_cases found : ∃ second ∈ List.range' (first + 1) (31 - first),
            e = BitVec.twoPow 32 first ^^^ BitVec.twoPow 32 second
        · obtain ⟨second, after, hit⟩ := found
          refine .inr (findSome?_only (fun k _ => ?_) after (if_pos hit))
          by_cases again : e = BitVec.twoPow 32 first ^^^ BitVec.twoPow 32 k
          · exact .inr (if_pos again)
          · exact .inl (if_neg again)
        · exact .inl (findSome?_eq_none_iff.mpr fun second after => if_neg fun hit => found ⟨second, after, hit⟩)
      · rw [if_neg (noSingle i (mem_range.mpr (by omega)))]
        refine findSome?_only (x := j) (fun k _ => ?_) (mem_range'_1.mpr (by omega)) (if_pos pair)
        by_cases again : e = BitVec.twoPow 32 i ^^^ BitVec.twoPow 32 k
        · exact .inr (if_pos again)
        · exact .inl (if_neg again)
  · intro three
    have some : e ≠ 0 := fun zero => by rw [weight_eq_zero.mpr zero] at three; exact nomatch three
    rw [correctCodeword_xor valid (by omega), if_neg some]
    refine findSome?_eq_none_iff.mpr fun first inside => ?_
    have single : e ≠ BitVec.twoPow 32 first := by
      intro hit
      rw [hit, weight_twoPow (mem_range.mp inside)] at three
      exact nomatch three
    rw [if_neg single]
    refine findSome?_eq_none_iff.mpr fun second after => if_neg fun pair => ?_
    obtain ⟨above, inner⟩ := mem_range'_1.mp after
    have twice := weight_pair (w := 32) (i := first) (j := second) (by omega) (by omega)
    rw [← pair, three] at twice
    exact nomatch twice

theorem correctCodeword_reach {received : Word} {result : Word × Nat} (found : correctCodeword received = some result) :
    ∃ e : Word, weight e ≤ 2 ∧ codewordValid (received ^^^ e) = true := by
  have bit : ∀ i, 1#32 <<< i = BitVec.twoPow 32 i := fun i => (twoPow_eq 32 i).symm
  by_cases clean : codewordValid received = true
  · exact ⟨0, by rw [weight_eq_zero.mpr rfl]; decide, by simpa using clean⟩
  · rw [correctCodeword, if_neg clean] at found
    obtain ⟨first, inside, hit⟩ := exists_of_findSome?_eq_some found
    simp only [bit] at hit
    split at hit
    · rename_i valid
      exact ⟨_, by rw [weight_twoPow (mem_range.mp inside)]; decide, valid⟩
    · obtain ⟨second, after, hit⟩ := exists_of_findSome?_eq_some hit
      obtain ⟨above, inner⟩ := mem_range'_1.mp after
      split at hit
      · rename_i valid
        rw [BitVec.xor_assoc] at valid
        exact ⟨_, (weight_pair (by omega) (by omega)).le, valid⟩
      · cases hit

/-- A word is corrected to the code word that differs from it in at most two bits, and refused when
there is none. -/
theorem correctCodeword_nearest (received code : Word) (errors : Nat) : correctCodeword received = some (code, errors) ↔
      codewordValid code = true ∧ (received ^^^ code).cpop.toNat = errors ∧ errors ≤ 2 := by
  rw [cpop_eq]
  constructor
  · intro found
    obtain ⟨e, light, valid⟩ := correctCodeword_reach found
    have corrected := (correctCodeword_weight valid).1 light
    rw [undo, found] at corrected
    cases corrected
    rw [← BitVec.xor_assoc, BitVec.xor_self, BitVec.zero_xor]
    exact ⟨valid, rfl, light⟩
  · rintro ⟨valid, rfl, light⟩
    have corrected := (correctCodeword_weight valid).1 light
    have back : code ^^^ (received ^^^ code) = received := by rw [BitVec.xor_comm, undo]
    rwa [back] at corrected

section Batches

def Message.uncounted (message : Message) : Message := { message with correctedCodewords := 0 }

def Decoder.uncounted (decoder : Decoder) : Decoder := { decoder with message := decoder.message.uncounted }

def uncounted (out : Decoder × List Message) : Decoder × List Message := (out.1.uncounted, out.2.map Message.uncounted)

variable {decoder decoder' : Decoder} {rssiDbm : Int16}

theorem appendCharacter_uncounted (message : Message) (character : UInt8) :
    (appendCharacter message character).uncounted = appendCharacter message.uncounted character := by
  have text : message.uncounted.text = message.text := rfl
  unfold appendCharacter
  rw [text]
  split
  · rfl
  · split
    · rfl
    · split <;> rfl

theorem appendBit_uncounted (decoder : Decoder) (bits : Word) (bit : Nat) :
    (appendBit decoder bits bit).uncounted = appendBit decoder.uncounted bits bit := by
  have character : decoder.uncounted.character = decoder.character ∧
      decoder.uncounted.characterBits = decoder.characterBits ∧ decoder.uncounted.format = decoder.format := ⟨rfl, rfl, rfl⟩
  unfold appendBit
  rw [character.1, character.2.1, character.2.2]
  simp only
  split
  · rfl
  · simp only [Decoder.uncounted, appendCharacter_uncounted]

theorem appendMessageBits_uncounted (decoder : Decoder) (bits : Word) :
    (appendMessageBits decoder bits).uncounted = appendMessageBits decoder.uncounted bits := by
  unfold appendMessageBits
  generalize List.range 20 = places
  induction places generalizing decoder with
  | nil => rfl
  | cons place places ih =>
    rw [foldl_cons, foldl_cons, ih, appendBit_uncounted]

theorem finishMessage_uncounted (decoder : Decoder) :
    uncounted (finishMessage decoder) = uncounted (finishMessage decoder.uncounted) := by
  have active : decoder.uncounted.active = decoder.active := rfl
  unfold finishMessage
  rw [active]
  cases decoder.active with
  | false => rfl
  | true =>
    simp only [if_true]
    unfold uncounted Decoder.uncounted Message.uncounted
    simp only
    split <;> rfl

theorem beginMessage_uncounted (target : decoder.targetRic = decoder'.targetRic) (format : decoder.format = decoder'.format)
    (ric : Word) (function : UInt8) (n n' : UInt16) :
    { beginMessage decoder ric function rssiDbm with message.correctedCodewords := n }.uncounted =
      { beginMessage decoder' ric function rssiDbm with message.correctedCodewords := n' }.uncounted := by
  unfold beginMessage Decoder.uncounted Message.uncounted
  rw [target, format]

theorem decodeWord_uncounted {received word : Word} {n : Nat} (corrected : correctCodeword received = some (word, n))
    (clean : correctCodeword word = some (word, 0)) (index : Nat) :
    uncounted (decodeWord decoder index received rssiDbm) = uncounted (decodeWord decoder.uncounted index word rssiDbm) := by
  unfold decodeWord
  rw [corrected, clean]
  simp only [Nat.lt_irrefl, and_false, if_false]
  generalize counts : (if decoder.active = true ∧ 0 < n then
    { decoder with message := { decoder.message with correctedCodewords := decoder.message.correctedCodewords + 1 } }
    else decoder) = counted
  have same : counted.uncounted = decoder.uncounted := by
    rw [← counts]
    split <;> rfl
  have finish := (finishMessage_uncounted counted).trans (congrArg (fun d => uncounted (finishMessage d)) same)
  have active : counted.uncounted.active = decoder.uncounted.active := congrArg (fun d : Decoder => d.active) same
  change counted.active = decoder.uncounted.active at active
  split
  · exact finish
  · split
    · have target : (finishMessage counted).1.targetRic = (finishMessage decoder.uncounted).1.targetRic :=
        congrArg (fun out => out.1.targetRic) finish
      have emitted : (finishMessage counted).2.map Message.uncounted =
          (finishMessage decoder.uncounted).2.map Message.uncounted := congrArg Prod.snd finish
      have rest : (finishMessage counted).1.uncounted = (finishMessage decoder.uncounted).1.uncounted :=
        congrArg Prod.fst finish
      have format : (finishMessage counted).1.uncounted.format = (finishMessage decoder.uncounted).1.uncounted.format :=
        congrArg (fun d : Decoder => d.format) rest
      rw [target]
      split
      · unfold uncounted
        rw [emitted]
        exact congrArg (fun d => (d, _)) (beginMessage_uncounted target format _ _ _ _)
      · exact finish
    · rw [active]
      split
      · unfold uncounted
        rw [appendMessageBits_uncounted, appendMessageBits_uncounted, same]
        rfl
      · unfold uncounted
        rw [same]
        rfl

/-- The received bytes of a batch, where each of its code words has at most two bit errors. -/
structure Disturbed (clean received : List UInt8) : Prop where
  length : received.length = clean.length
  words : ∀ slot < codewordsPerBatch, codewordValid (readWord (clean.drop (slot * 4))) = true ∧
    ∃ e : Word, e.cpop.toNat ≤ 2 ∧ readWord (received.drop (slot * 4)) = readWord (clean.drop (slot * 4)) ^^^ e

theorem decodeWord_disturbed {word e : Word} (valid : codewordValid word = true) (light : e.cpop.toNat ≤ 2)
    (same : decoder'.uncounted = decoder.uncounted) (index : Nat) :
    uncounted (decodeWord decoder' index (word ^^^ e) rssiDbm) = uncounted (decodeWord decoder index word rssiDbm) := by
  rw [cpop_eq] at light
  have clean : correctCodeword word = some (word, 0) := by
    rw [correctCodeword, valid, if_pos rfl]
  rw [decodeWord_uncounted ((correctCodeword_weight valid).1 light) clean, same, ← decodeWord_uncounted clean clean]

theorem decodeSlots_disturbed {clean received : List UInt8} (h : Disturbed clean received) {slots : List Nat}
    (within : ∀ slot ∈ slots, slot < codewordsPerBatch) {state state' : Decoder × List Message}
    (same : uncounted state' = uncounted state) :
    uncounted (decodeSlots received rssiDbm slots state') = uncounted (decodeSlots clean rssiDbm slots state) := by
  induction slots generalizing state state' with
  | nil => exact same
  | cons slot slots ih =>
    obtain ⟨valid, e, light, disturbed⟩ := h.words slot (within slot mem_cons_self)
    have word := @decodeWord_disturbed state.1 state'.1 rssiDbm _ e valid light (congrArg Prod.fst same) slot
    have before : state'.2.map Message.uncounted = state.2.map Message.uncounted := congrArg Prod.snd same
    unfold decodeSlots at ih ⊢
    rw [foldl_cons, foldl_cons]
    apply ih (fun slot there => within slot (mem_cons_of_mem _ there))
    rw [disturbed]
    unfold uncounted at word ⊢
    rw [Prod.mk.injEq] at word
    simp only [map_append]
    rw [word.1, word.2, before]

theorem decodeBatch_disturbed {clean received : List UInt8} (h : Disturbed clean received)
    (same : decoder'.uncounted = decoder.uncounted) :
    uncounted (decodeBatch decoder' received rssiDbm) = uncounted (decodeBatch decoder clean rssiDbm) := by
  have start : uncounted (decoder', []) = uncounted (decoder, []) := congrArg (fun d => (d, [])) same
  unfold decodeBatch
  rw [h.length]
  by_cases wrong : clean.length ≠ batchBytes
  · rw [if_pos wrong, if_pos wrong]
    exact start
  · rw [if_neg wrong, if_neg wrong]
    refine decodeSlots_disturbed h (fun slot inside => ?_) start
    rw [not_not.mp wrong] at inside
    exact mem_range.mp inside

theorem decodeBatches_disturbed {clean received : List (List UInt8)} (h : List.Forall₂ Disturbed clean received)
    (decoder : Decoder) :
    uncounted (decodeBatches rssiDbm received decoder) = uncounted (decodeBatches rssiDbm clean decoder) := by
  have from_ : ∀ step : Decoder × List Message → List UInt8 → Decoder × List Message,
      (∀ state batch, step state batch =
        ((decodeBatch state.1 batch rssiDbm).1, state.2 ++ (decodeBatch state.1 batch rssiDbm).2)) →
      ∀ state state', uncounted state' = uncounted state →
        uncounted (received.foldl step state') = uncounted (clean.foldl step state) := by
    intro step steps
    induction h with
    | nil => exact fun state state' same => same
    | @cons batch batch' batches batches' disturbed _ ih =>
      intro state state' same
      have first := @decodeBatch_disturbed state.1 state'.1 rssiDbm _ _ disturbed (congrArg Prod.fst same)
      have before : state'.2.map Message.uncounted = state.2.map Message.uncounted := congrArg Prod.snd same
      rw [foldl_cons, foldl_cons, steps, steps]
      apply ih
      unfold uncounted at first ⊢
      rw [Prod.mk.injEq] at first
      simp only [map_append]
      rw [first.1, first.2, before]
  exact from_ _ (fun _ _ => rfl) _ _ rfl

theorem decoderFlush_uncounted (same : decoder'.uncounted = decoder.uncounted) :
    (decoderFlush decoder').2.map Message.uncounted = (decoderFlush decoder).2.map Message.uncounted := by
  have finish := finishMessage_uncounted decoder'
  rw [same, ← finishMessage_uncounted] at finish
  exact congrArg Prod.snd finish

end Batches

/-- Every code word with at most two bit errors is corrected and one with three is not, and
batches with at most two errors in each word give the same messages as the clean ones apart
from the counts of corrected words, those of the flush included. -/
theorem errors_corrected : (∀ word e : Word, codewordValid word = true →
      (e.cpop.toNat ≤ 2 → correctCodeword (word ^^^ e) = some (word, e.cpop.toNat)) ∧
        (e.cpop.toNat = 3 → correctCodeword (word ^^^ e) = none)) ∧
    ∀ (rssiDbm : Int16) (clean received : List (List UInt8)) (decoder : Decoder), List.Forall₂ Disturbed clean received →
      (decodeBatches rssiDbm received decoder).2.map Message.uncounted =
          (decodeBatches rssiDbm clean decoder).2.map Message.uncounted ∧
        (decoderFlush (decodeBatches rssiDbm received decoder).1).2.map Message.uncounted =
          (decoderFlush (decodeBatches rssiDbm clean decoder).1).2.map Message.uncounted := by
  constructor
  · intro word e valid
    rw [cpop_eq]
    exact correctCodeword_weight valid
  · intro rssiDbm clean received decoder disturbed
    have same := @decodeBatches_disturbed rssiDbm clean received disturbed decoder
    exact ⟨congrArg Prod.snd same, decoderFlush_uncounted (congrArg Prod.fst same)⟩

/-- Two errors in the idle word. -/
theorem errors_corrected_idle : correctCodeword (idleCodeword ^^^ 0x00010001#32) = some (idleCodeword, 2) :=
  (errors_corrected.1 idleCodeword 0x00010001#32 (by decide +kernel)).1 (by decide +kernel)

end SolarOs.Pocsag
