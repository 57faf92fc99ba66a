import SolarOs.Pocsag.Decoder

/-! The payload as one stream of code words: what the batches of an encoded page
hold, and the decoder's run over them word by word. -/
namespace SolarOs.Pocsag
open ByteOrder List

section Uniform

variable {α : Type*} {f : Nat → List α} {m : Nat}

theorem length_flatMap_range' (h : ∀ j, (f j).length = m) (start n : Nat) :
    ((List.range' start n).flatMap f).length = n * m := by
  induction n generalizing start with
  | zero => simp
  | succ n ih =>
    rw [range'_succ, flatMap_cons, length_append, h, ih, Nat.succ_mul, add_comm]

theorem drop_flatMap_range (h : ∀ j, (f j).length = m) {i n : Nat} (hi : i ≤ n) :
    ((List.range n).flatMap f).drop (i * m) = (List.range' i (n - i)).flatMap f := by
  have split : List.range n = List.range' 0 i ++ List.range' i (n - i) := by
    have joined := range'_append_1 (s := 0) (m := i) (n := n - i)
    rw [zero_add, Nat.add_sub_cancel' hi] at joined
    rw [range_eq_range', joined]
  rw [split, flatMap_append, drop_left' (length_flatMap_range' h 0 i)]

end Uniform

@[simp] theorem writeWord_length (word : Word) : (writeWord word).length = 4 := rfl

theorem readWord_writeWord (word : Word) (rest : List UInt8) : readWord (writeWord word ++ rest) = word := by
  simp only [readWord, writeWord, bigEndian32, cons_append, nil_append,
    getD_cons_zero, getD_cons_succ, fromBigEndian32_write]

variable (word : Nat → Word)

theorem payloadBatch_length (batch : Nat) : (payloadBatch word batch).length = batchBytes := by
  rw [payloadBatch, range_eq_range']
  exact length_flatMap_range' (fun slot => writeWord_length _) 0 codewordsPerBatch

theorem readWord_payloadBatch (batch : Nat) {slot : Nat} (h : slot < codewordsPerBatch) :
    readWord ((payloadBatch word batch).drop (slot * 4)) =
      word (batch * codewordsPerBatch + slot) := by
  have rest : codewordsPerBatch - slot = codewordsPerBatch - slot - 1 + 1 := by omega
  rw [payloadBatch, drop_flatMap_range (fun slot => writeWord_length _) (le_of_lt h), rest,
    range'_succ,
    flatMap_cons, readWord_writeWord]

def payloadBatches (payload : List UInt8) (batches : Nat) : List (List UInt8) :=
  (List.range batches).map fun batch => (payload.drop (batch * (batchBytes + 4))).take batchBytes

theorem sync_payloadBytes (batches : Nat) : writeWord syncCodeword ++ payloadBytes word (batches + 1) =
      (List.range (batches + 1)).flatMap fun batch =>
        writeWord syncCodeword ++ payloadBatch word batch := by
  rw [payloadBytes, range_succ_eq_map, flatMap_cons, flatMap_cons, if_neg (by omega),
    nil_append, ← append_assoc, flatMap_map, flatMap_map]
  rfl

theorem payloadBatches_payloadBytes (batches : Nat) : payloadBatches (payloadBytes word batches) batches =
      (List.range batches).map (payloadBatch word) := by
  apply map_congr_left
  intro batch hbatch
  have below : batch < batches := mem_range.mp hbatch
  obtain ⟨n, rfl⟩ : ∃ n, batches = n + 1 := ⟨batches - 1, by omega⟩
  have piece (b : Nat) : (writeWord syncCodeword ++ payloadBatch word b).length = batchBytes + 4 := by
    rw [length_append, payloadBatch_length, writeWord_length, add_comm]
  have shifted : (payloadBytes word (n + 1)).drop (batch * (batchBytes + 4)) =
      ((writeWord syncCodeword ++ payloadBytes word (n + 1)).drop
        (batch * (batchBytes + 4))).drop 4 := by
    rw [drop_drop, add_comm (batch * _), ← drop_drop, drop_left' (writeWord_length _)]
  have rest : n + 1 - batch = n - batch + 1 := by omega
  rw [shifted, sync_payloadBytes, drop_flatMap_range piece (le_of_lt below), rest,
    range'_succ, flatMap_cons, append_assoc, drop_left' (writeWord_length _),
    take_left' (payloadBatch_length word batch)]

/-- The decoder and its messages after the first `n` words of a stream. -/
def decodeStream (rssiDbm : Int16) (word : Nat → Word) (decoder : Decoder) :
    Nat → Decoder × List Message
  | 0 => (decoder, [])
  | n + 1 =>
    let state := decodeStream rssiDbm word decoder n
    let (decoder, emitted) := decodeWord state.1 (n % codewordsPerBatch) (word n) rssiDbm
    (decoder, state.2 ++ emitted)

variable (rssiDbm : Int16)

theorem decodeStream_succ (word : Nat → Word) (decoder : Decoder) (n : Nat) :
    decodeStream rssiDbm word decoder (n + 1) =
      ((decodeWord (decodeStream rssiDbm word decoder n).1 (n % codewordsPerBatch) (word n)
          rssiDbm).1,
        (decodeStream rssiDbm word decoder n).2 ++
          (decodeWord (decodeStream rssiDbm word decoder n).1 (n % codewordsPerBatch) (word n)
            rssiDbm).2) := rfl

theorem decodeSlots_append (batch : List UInt8) (rssiDbm : Int16) (slots : List Nat)
    (decoder : Decoder) (before : List Message) : decodeSlots batch rssiDbm slots (decoder, before) =
      ((decodeSlots batch rssiDbm slots (decoder, [])).1,
        before ++ (decodeSlots batch rssiDbm slots (decoder, [])).2) := by
  induction slots generalizing decoder before with
  | nil => simp [decodeSlots]
  | cons slot slots ih =>
    simp only [decodeSlots, foldl_cons] at ih ⊢
    rw [ih]
    conv => rhs; rw [ih]
    simp

theorem decodeSlots_stream (word : Nat → Word) (decoder : Decoder)
    (batch : Nat) {n : Nat} (hn : n ≤ codewordsPerBatch) : decodeSlots (payloadBatch word batch) rssiDbm (List.range n)
        (decodeStream rssiDbm word decoder (batch * codewordsPerBatch)) =
      decodeStream rssiDbm word decoder (batch * codewordsPerBatch + n) := by
  induction n with
  | zero => simp [decodeSlots]
  | succ n ih =>
    have slot : (batch * codewordsPerBatch + n) % codewordsPerBatch = n := by
      rw [mul_comm, Nat.mul_add_mod, Nat.mod_eq_of_lt hn]
    have whole := ih (Nat.le_of_succ_le hn)
    simp only [decodeSlots] at whole
    rw [decodeSlots, range_succ, foldl_append, whole, ← add_assoc]
    simp only [foldl_cons, foldl_nil, decodeStream, slot, readWord_payloadBatch word batch hn]

def decodeBatches (batches : List (List UInt8)) (decoder : Decoder) :
    Decoder × List Message :=
  batches.foldl (fun state batch =>
    let (decoder, emitted) := decodeBatch state.1 batch rssiDbm
    (decoder, state.2 ++ emitted)) (decoder, [])

theorem decodeBatches_payload (word : Nat → Word) (decoder : Decoder) (batches : Nat) :
    decodeBatches rssiDbm (payloadBatches (payloadBytes word batches) batches) decoder =
      decodeStream rssiDbm word decoder (batches * codewordsPerBatch) := by
  rw [payloadBatches_payloadBytes]
  induction batches with
  | zero => simp [decodeBatches, decodeStream]
  | succ n ih =>
    have quarter : batchBytes / 4 = codewordsPerBatch := by decide
    have next := decodeSlots_stream rssiDbm word decoder n (le_rfl)
    rw [← Prod.mk.eta (p := decodeStream rssiDbm word decoder (n * codewordsPerBatch)), decodeSlots_append] at next
    simp only [decodeBatches] at ih
    rw [decodeBatches, range_succ, map_append, foldl_append, ih, Nat.succ_mul, ← next]
    simp only [map_cons, map_nil, foldl_cons, foldl_nil, decodeBatch,
      payloadBatch_length, ne_eq, not_true_eq_false, if_false, quarter]

def receive (decoder : Decoder) (payload : List UInt8) (batches : Nat) :
    List Message :=
  let state := decodeBatches rssiDbm (payloadBatches payload batches) decoder
  state.2 ++ (decoderFlush state.1).2

end SolarOs.Pocsag
