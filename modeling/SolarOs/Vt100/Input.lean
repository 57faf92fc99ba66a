import Mathlib.Data.List.Induction
import SolarOs.Library.CString
import SolarOs.Library.Transducer

/-! The decoder of typed bytes: escape sequences become keys, and none of them is typed as text
as long as it fits. -/
namespace SolarOs.Vt100
open List
open Transducer (feed feed_nil feed_cons feed_singleton feed_append)

def maxParams : Nat := 4
def sequenceSize : Nat := 24
def intMax : Nat := 2147483647
def esc : UInt8 := 0x1b
def openBracket : UInt8 := 0x5b
def letterO : UInt8 := 0x4f
def semicolon : UInt8 := 0x3b
def keyAppExit : UInt8 := 0x92
def keyAltPrefix : UInt8 := 0x93

def emitModified (key : UInt8) (alt : Bool) : List UInt8 := if alt then [keyAltPrefix, key] else [key]

def isDigit (ch : UInt8) : Bool := 0x30 ≤ ch && ch ≤ 0x39

/-- What the loop of `vt100_parse_params` does with a byte; nothing is left of a number that an `int`
does not hold. -/
def parseByte (state : Option Nat × List Nat) (ch : UInt8) : Option (Option Nat × List Nat) :=
  if isDigit ch then
    let current := state.1.getD 0 * 10 + (ch.toNat - 0x30)
    if intMax < current then none else some (some current, state.2)
  else if ch = semicolon then
    some (none, if state.2.length < maxParams then state.2 ++ [state.1.getD 0] else state.2)
  else some state

def parseParams (text : List UInt8) : Option (List Nat) :=
  (text.foldlM parseByte (none, [])).map fun (current, values) =>
    if (current.isSome ∨ text.getLast? = some semicolon) ∧ values.length < maxParams then
      values ++ [current.getD 0]
    else values

def paramOr (params : List Nat) (index fallback : Nat) : Nat :=
  if params.getD index 0 = 0 then fallback else params.getD index 0

structure Modifier where
  shift : Bool
  alt : Bool
  ctrl : Bool

def decodeModifier (modifier : Nat) : Modifier :=
  let flags := if 1 < modifier then modifier - 1 else 0
  ⟨flags &&& 1 ≠ 0, flags &&& 2 ≠ 0, flags &&& 4 ≠ 0⟩

def arrowKey (final : UInt8) (m : Modifier) : UInt8 :=
  if final = 0x41 then
    if m.ctrl && m.shift then 0xa3 else if m.ctrl then 0x9f else if m.shift then 0x97 else 0x80
  else if final = 0x42 then
    if m.ctrl && m.shift then 0xa4 else if m.ctrl then 0xa0 else if m.shift then 0x98 else 0x81
  else if final = 0x43 then
    if m.ctrl && m.shift then 0xa6 else if m.ctrl then 0xa2 else if m.shift then 0x9a else 0x83
  else if final = 0x44 then
    if m.ctrl && m.shift then 0xa5 else if m.ctrl then 0xa1 else if m.shift then 0x99 else 0x82
  else 0

def homeEndKey (home : Bool) (m : Modifier) : UInt8 :=
  if m.ctrl && m.shift then if home then 0xa9 else 0xaa
  else if m.ctrl then if home then 0xa7 else 0xa8
  else if m.shift then if home then 0x9d else 0x9e
  else if home then 0x94 else 0x95

def pageKey (pageUp : Bool) (m : Modifier) : UInt8 :=
  if pageUp then if m.shift then 0x9b else 0x84 else if m.shift then 0x9c else 0x85

def functionKey (code : Nat) : UInt8 :=
  match code with
  | 11 => 0x86 | 12 => 0x87 | 13 => 0x88 | 14 => 0x89 | 15 => 0x8a | 17 => 0x8b
  | 18 => 0x8c | 19 => 0x8d | 20 => 0x8e | 21 => 0x8f | 23 => 0x90 | 24 => 0x91
  | _ => 0

/-- The key of `vt100_emit_csi_tilde`. -/
def tildeKey (code : Nat) (m : Modifier) : UInt8 :=
  match code with
  | 1 | 7 => homeEndKey true m
  | 3 => 0x96
  | 4 | 8 => homeEndKey false m
  | 5 => pageKey true m
  | 6 => pageKey false m
  | _ => functionKey code

/-- `vt100_emit_csi` with its parameters parsed. -/
def csiKeys (params : List Nat) (final : UInt8) : List UInt8 :=
  let m := decodeModifier (paramOr params 1 1)
  let key : UInt8 :=
    if 0x41 ≤ final ∧ final ≤ 0x44 then arrowKey final m
    else if final = 0x48 ∨ final = 0x46 then homeEndKey (final = 0x48) m
    else if final = 0x7e then tildeKey (paramOr params 0 0) m
    else if final = 0x5a then 0x09
    else 0
  if key = 0 then [] else emitModified key m.alt

/-- `vt100_emit_ss3`. -/
def ss3Keys (final : UInt8) : List UInt8 :=
  let key : UInt8 :=
    match final with
    | 0x41 => 0x80 | 0x42 => 0x81 | 0x43 => 0x83 | 0x44 => 0x82 | 0x48 => 0x94 | 0x46 => 0x95
    | 0x50 => 0x86 | 0x51 => 0x87 | 0x52 => 0x88 | 0x53 => 0x89
    | _ => 0
  if key = 0 then [] else [key]

inductive Phase where
  | normal | esc | csi | ss3
  deriving DecidableEq, Repr

/-- `solar_os_vt100_input_t`, and whether a number has been too large for an `int` so far. -/
structure Input where
  phase : Phase
  sequence : List UInt8
  overflowed : Bool
  deriving DecidableEq

def init : Input := ⟨.normal, [], false⟩

def Input.reset (input : Input) : Input := { input with phase := .normal, sequence := [] }

def typed (byte : UInt8) : UInt8 :=
  if byte = 0x1d then keyAppExit else if byte = 0x7f then 0x08 else byte

/-- `solar_os_vt100_input_feed_byte` with a callback that accepts what it is given. -/
def Input.feedByte (input : Input) (byte : UInt8) : Input × List UInt8 :=
  match input.phase with
  | .normal =>
    if byte = esc then ({ input with phase := .esc, sequence := [] }, [])
    else (input, [typed byte])
  | .esc =>
    if byte = openBracket then ({ input with phase := .csi, sequence := [] }, [])
    else if byte = letterO then ({ input with phase := .ss3 }, [])
    else if byte = esc then ({ input with phase := .esc }, [esc])
    else (input.reset, emitModified (if byte = 0x7f then 0x08 else byte) true)
  | .csi =>
    if 0x40 ≤ byte ∧ byte ≤ 0x7e then
      match parseParams input.sequence with
      | some params => (input.reset, csiKeys params byte)
      | none => ({ input.reset with overflowed := true }, [])
    else if sequenceSize ≤ input.sequence.length + 1 then (input.reset, [])
    else ({ input with sequence := input.sequence ++ [byte] }, [])
  | .ss3 => (input.reset, ss3Keys byte)

/-- `solar_os_vt100_input_feed` call after call. -/
def feedCalls (input : Input) (calls : List (List UInt8)) : Input × List UInt8 :=
  feed (feed Input.feedByte) input calls

theorem feedCalls_flatten (input : Input) (calls : List (List UInt8)) :
    feedCalls input calls = feed Input.feedByte input calls.flatten := by
  unfold feedCalls
  induction calls generalizing input with
  | nil => rfl
  | cons call calls ih => rw [feed_cons, ih, flatten_cons, feed_append]

inductive Element where
  | plain (byte : UInt8) (ordinary : byte ≠ esc)
  | alt (byte : UInt8) (ordinary : byte ≠ esc ∧ byte ≠ openBracket ∧ byte ≠ letterO)
  | ss3 (final : UInt8)
  | csi (params : List UInt8) (final : UInt8) (inner : ∀ b ∈ params, 0x20 ≤ b ∧ b ≤ 0x3f)
    (last : 0x40 ≤ final ∧ final ≤ 0x7e)

def Element.bytes : Element → List UInt8
  | .plain byte _ => [byte]
  | .alt byte _ => [esc, byte]
  | .ss3 final => [esc, letterO, final]
  | .csi params final _ _ => esc :: openBracket :: (params ++ [final])

/-- The numbers between the semicolons, where only digits count; `n` is what the first one has begun with. -/
def numbers (n : Nat) : List UInt8 → List Nat
  | [] => [n]
  | ch :: text =>
    if isDigit ch then numbers (n * 10 + (ch.toNat - 0x30)) text
    else if ch = semicolon then n :: numbers 0 text
    else numbers n text

def Element.keys : Element → List UInt8
  | .plain byte _ => [typed byte]
  | .alt byte _ => emitModified (if byte = 0x7f then 0x08 else byte) true
  | .ss3 final => ss3Keys final
  | .csi params final _ _ => csiKeys (numbers 0 params) final

/-- The parameters of a sequence fit the buffer, and their numbers an `int`. -/
def Element.Fits : Element → Prop
  | .csi params _ _ _ => params.length < sequenceSize ∧ ∀ n ∈ numbers 0 params, n ≤ intMax
  | _ => True

theorem le_numbers (n : Nat) (text : List UInt8) : ∃ m ∈ numbers n text, n ≤ m := by
  induction text generalizing n with
  | nil => exact ⟨n, mem_singleton_self n, le_rfl⟩
  | cons ch text ih =>
    unfold numbers
    split_ifs
    · obtain ⟨m, there, above⟩ := ih (n * 10 + (ch.toNat - 0x30))
      exact ⟨m, there, by omega⟩
    · exact ⟨n, mem_cons_self, le_rfl⟩
    · exact ih n

variable {text : List UInt8}

theorem parse_fits {current : Option Nat} {values : List Nat} (room : values.length ≤ maxParams)
    (fits : ∀ n ∈ numbers (current.getD 0) text, n ≤ intMax) :
    ∃ done last left, numbers (current.getD 0) text = done ++ [last] ∧ left.getD 0 = last ∧
      text.foldlM parseByte (current, values) = some (left, (values ++ done).take maxParams) := by
  induction text generalizing current values with
  | nil =>
    refine ⟨[], current.getD 0, current, rfl, rfl, ?_⟩
    rw [append_nil, take_of_length_le room]
    rfl
  | cons ch text ih =>
    unfold numbers at fits ⊢
    rw [foldlM_cons]
    unfold parseByte
    by_cases digit : isDigit ch = true
    · rw [if_pos digit] at fits
      obtain ⟨m, there, above⟩ := le_numbers (current.getD 0 * 10 + (ch.toNat - 0x30)) text
      have small : ¬intMax < current.getD 0 * 10 + (ch.toNat - 0x30) := by
        have bound := fits m there
        omega
      rw [if_pos digit, if_pos digit]
      rw [if_neg small]
      exact @ih (some _) values room fits
    · rw [if_neg digit] at fits
      rw [if_neg digit, if_neg digit]
      by_cases ends : ch = semicolon
      · rw [if_pos ends] at fits
        rw [if_pos ends, if_pos ends]
        by_cases more : values.length < maxParams
        · obtain ⟨done, last, left, split, same, parsed⟩ := @ih none (values ++ [current.getD 0])
            (by rw [length_append]; exact more) fun n there => fits n (mem_cons_of_mem _ there)
          refine ⟨current.getD 0 :: done, last, left, congrArg _ split, same, ?_⟩
          rw [if_pos more]
          rw [append_assoc] at parsed
          exact parsed
        · obtain ⟨done, last, left, split, same, parsed⟩ := @ih none values room
            fun n there => fits n (mem_cons_of_mem _ there)
          refine ⟨current.getD 0 :: done, last, left, congrArg _ split, same, ?_⟩
          have full : values.length = maxParams := le_antisymm room (not_lt.mp more)
          rw [if_neg more]
          rw [take_append_of_le_length (le_of_eq full.symm)] at parsed ⊢
          exact parsed
      · rw [if_neg ends] at fits
        rw [if_neg ends, if_neg ends]
        exact ih room fits

theorem parse_overflows {current : Option Nat} {values : List Nat} (small : current.getD 0 ≤ intMax)
    (large : ¬∀ n ∈ numbers (current.getD 0) text, n ≤ intMax) : text.foldlM parseByte (current, values) = none := by
  induction text generalizing current values with
  | nil => exact absurd (fun n there => mem_singleton.mp there ▸ small) large
  | cons ch text ih =>
    unfold numbers at large
    rw [foldlM_cons]
    unfold parseByte
    by_cases digit : isDigit ch = true
    · rw [if_pos digit] at large ⊢
      by_cases far : intMax < current.getD 0 * 10 + (ch.toNat - 0x30)
      · rw [if_pos far]
        rfl
      · rw [if_neg far]
        exact @ih (some _) values (not_lt.mp far) large
    · rw [if_neg digit] at large ⊢
      by_cases ends : ch = semicolon
      · rw [if_pos ends] at large ⊢
        refine @ih none _ (Nat.zero_le _) fun all => large ?_
        exact forall_mem_cons.mpr ⟨small, all⟩
      · rw [if_neg ends] at large ⊢
        exact ih small large

theorem csiKeys_congr {params others : List Nat} (same : ∀ i < maxParams, params.getD i 0 = others.getD i 0)
    (final : UInt8) : csiKeys params final = csiKeys others final := by
  have code : paramOr params 0 0 = paramOr others 0 0 := by
    unfold paramOr
    rw [same 0 (by decide)]
  have modifier : paramOr params 1 1 = paramOr others 1 1 := by
    unfold paramOr
    rw [same 1 (by decide)]
  unfold csiKeys
  rw [code, modifier]

theorem parseParams_fits (fits : ∀ n ∈ numbers 0 text, n ≤ intMax) :
    ∃ params, parseParams text = some params ∧ ∀ final, csiKeys params final = csiKeys (numbers 0 text) final := by
  obtain ⟨done, last, left, split, same, parsed⟩ := @parse_fits text none [] (by decide) fits
  unfold parseParams
  rw [parsed]
  refine ⟨_, rfl, fun final => csiKeys_congr ?_ final⟩
  intro i below
  have split : numbers 0 text = done ++ [last] := split
  rw [split]
  dsimp only
  rw [nil_append, same]
  by_cases short : done.length < maxParams
  · rw [take_of_length_le (le_of_lt short)]
    split
    · rfl
    · rename_i nothing
      have zero : last = 0 := by
        cases left with
        | none => exact same.symm
        | some n => exact absurd ⟨.inl rfl, short⟩ nothing
      rw [zero, getD_eq_getElem?_getD, getD_eq_getElem?_getD, getElem?_append]
      split
      · rfl
      · rename_i beyond
        rw [getElem?_eq_none (not_lt.mp beyond)]
        cases i - done.length with
        | zero => rfl
        | succ n => rfl
  · have full : ¬(done.take maxParams).length < maxParams := by
      rw [length_take]
      omega
    rw [if_neg fun both => full both.2, getD_eq_getElem?_getD, getD_eq_getElem?_getD,
      getElem?_take_of_lt below, getElem?_append_left (by omega)]

theorem parseParams_overflows (large : ¬∀ n ∈ numbers 0 text, n ≤ intMax) : parseParams text = none := by
  unfold parseParams
  rw [@parse_overflows text none [] (by decide) large]
  rfl

def rest (overflowed : Bool) : Input := ⟨.normal, [], overflowed⟩

theorem feed_plain {bytes : List UInt8} (ordinary : ∀ b ∈ bytes, b ≠ esc) (o : Bool) :
    feed Input.feedByte (rest o) bytes = (rest o, bytes.map typed) := by
  induction bytes with
  | nil => rfl
  | cons b bytes ih =>
    have step : Input.feedByte (rest o) b = (rest o, [typed b]) := if_neg (ordinary b mem_cons_self)
    rw [feed_cons, step, ih fun b there => ordinary b (mem_cons_of_mem _ there)]
    rfl

theorem feed_params {params sequence : List UInt8} (inner : ∀ b ∈ params, 0x20 ≤ b ∧ b ≤ 0x3f)
    (room : sequence.length + params.length < sequenceSize) (o : Bool) :
    feed Input.feedByte ⟨.csi, sequence, o⟩ params = (⟨.csi, sequence ++ params, o⟩, []) := by
  induction params generalizing sequence with
  | nil => rw [append_nil, feed_nil]
  | cons b params ih =>
    have inside := inner b mem_cons_self
    rw [length_cons] at room
    have step : Input.feedByte ⟨.csi, sequence, o⟩ b = (⟨.csi, sequence ++ [b], o⟩, []) := by
      unfold Input.feedByte
      dsimp only
      rw [if_neg (by grind), if_neg (by omega)]
    rw [feed_cons, step, ih (fun b there => inner b (mem_cons_of_mem _ there))
      (by rw [length_append, length_singleton]; omega), append_assoc]
    rfl

variable {params : List UInt8} {final : UInt8}

theorem typed_inner {bytes : List UInt8} (shown : ∀ b ∈ bytes, 0x20 ≤ b ∧ b ≤ 0x7e) : bytes.map typed = bytes := by
  refine (map_congr_left fun b there => ?_).trans (map_id bytes)
  have bounds := shown b there
  unfold typed
  rw [if_neg (by grind), if_neg (by grind)]
  rfl

theorem feed_csi (params : List UInt8) (final : UInt8) (o : Bool) :
    feed Input.feedByte (rest o) (esc :: openBracket :: (params ++ [final])) =
      feed Input.feedByte ⟨.csi, [], o⟩ (params ++ [final]) := rfl

theorem feed_short (inner : ∀ b ∈ params, 0x20 ≤ b ∧ b ≤ 0x3f) (last : 0x40 ≤ final ∧ final ≤ 0x7e)
    (short : params.length < sequenceSize) (o : Bool) :
    feed Input.feedByte (rest o) (esc :: openBracket :: (params ++ [final])) =
      if ∀ n ∈ numbers 0 params, n ≤ intMax then (rest o, csiKeys (numbers 0 params) final)
      else (rest true, []) := by
  rw [feed_csi, feed_append, feed_params inner (by rw [length_nil]; omega), feed_singleton]
  unfold Input.feedByte
  rw [if_pos last, nil_append, nil_append]
  by_cases fits : ∀ n ∈ numbers 0 params, n ≤ intMax
  · obtain ⟨values, parsed, same⟩ := parseParams_fits fits
    rw [if_pos fits, parsed]
    dsimp only
    rw [same]
    rfl
  · rw [if_neg fits, parseParams_overflows fits]
    rfl

theorem feed_long (inner : ∀ b ∈ params, 0x20 ≤ b ∧ b ≤ 0x3f) (last : 0x40 ≤ final ∧ final ≤ 0x7e)
    (long : sequenceSize ≤ params.length) (o : Bool) :
    feed Input.feedByte (rest o) (esc :: openBracket :: (params ++ [final])) =
      (rest o, params.drop sequenceSize ++ [final]) := by
  have first : (params.take (sequenceSize - 1)).length = sequenceSize - 1 := length_take_of_le (by omega)
  obtain ⟨b, after⟩ : ∃ b, params.drop (sequenceSize - 1) = b :: params.drop sequenceSize :=
    ⟨_, drop_eq_getElem_cons (by unfold sequenceSize at *; omega)⟩
  have split : params = params.take (sequenceSize - 1) ++ b :: params.drop sequenceSize := by
    rw [← after, take_append_drop]
  have inside : 0x20 ≤ b ∧ b ≤ 0x3f := inner b (by rw [split]; simp)
  have full : Input.feedByte ⟨.csi, params.take (sequenceSize - 1), o⟩ b = (rest o, []) := by
    unfold Input.feedByte
    dsimp only
    rw [if_neg (by grind), if_pos (by rw [first]; decide)]
    rfl
  have shown : ∀ b ∈ params.drop sequenceSize ++ [final], 0x20 ≤ b ∧ b ≤ 0x7e := by
    intro b there
    rcases mem_append.mp there with there | there
    · have := inner b (mem_of_mem_drop there)
      grind
    · cases mem_singleton.mp there
      grind
  rw [feed_csi]
  nth_rewrite 1 [split]
  rw [append_assoc, feed_append, feed_params (fun b there => inner b (mem_of_mem_take there))
    (by rw [first]; decide), nil_append, cons_append, feed_cons, full,
    feed_plain (fun b there => by have := shown b there; unfold esc; grind), typed_inner shown]
  rfl

theorem csiKeys_special {values : List Nat} {key : UInt8} (there : key ∈ csiKeys values final) :
    key = 0x09 ∨ 0x80 ≤ key := by
  unfold csiKeys at there
  extract_lets m only at there
  have apart : only = 0 ∨ only = 0x09 ∨ 0x80 ≤ only := by
    unfold only arrowKey homeEndKey tildeKey homeEndKey pageKey functionKey
    split_ifs
    all_goals try split
    all_goals try split
    all_goals decide
  split at there
  · cases there
  · rename_i other
    have apart := apart.resolve_left other
    unfold emitModified keyAltPrefix at there
    split at there
    · rcases mem_cons.mp there with rfl | there
      · exact .inr (by decide)
      · exact mem_singleton.mp there ▸ apart
    · exact mem_singleton.mp there ▸ apart

theorem csiKeys_apart (values : List Nat) (last : 0x40 ≤ final ∧ final ≤ 0x7e) : final ∉ csiKeys values final := by
  intro there
  have apart := csiKeys_special there
  grind

theorem feed_element (e : Element) (o : Bool) : e.Fits ∧ feed Input.feedByte (rest o) e.bytes = (rest o, e.keys) ∨
      ¬e.Fits ∧ (feed Input.feedByte (rest o) e.bytes = (rest true, []) ∨
        ∃ out, feed Input.feedByte (rest o) e.bytes = (rest o, out) ∧ ∃ b ∈ out, b ∉ e.keys) := by
  cases e with
  | plain byte ordinary =>
    refine .inl ⟨trivial, feed_plain (fun b there => ?_) o⟩
    rw [mem_singleton.mp there]
    exact ordinary
  | alt byte ordinary =>
    refine .inl ⟨trivial, ?_⟩
    have step : Input.feedByte ⟨.esc, [], o⟩ byte = (rest o, emitModified (if byte = 0x7f then 0x08 else byte) true) := by
      unfold Input.feedByte
      dsimp only
      rw [if_neg ordinary.2.1, if_neg ordinary.2.2, if_neg ordinary.1]
      rfl
    show feed Input.feedByte ⟨.esc, [], o⟩ [byte] = _
    rw [feed_singleton, step]
    rfl
  | ss3 final =>
    refine .inl ⟨trivial, ?_⟩
    show feed Input.feedByte ⟨.ss3, [], o⟩ [final] = _
    rw [feed_singleton]
    rfl
  | csi params final inner last =>
    by_cases short : params.length < sequenceSize
    · have fed := feed_short inner last short o
      by_cases small : ∀ n ∈ numbers 0 params, n ≤ intMax
      · rw [if_pos small] at fed
        exact .inl ⟨⟨short, small⟩, fed⟩
      · rw [if_neg small] at fed
        exact .inr ⟨fun fits => small fits.2, .inl fed⟩
    · refine .inr ⟨fun fits => short fits.1, .inr ⟨_, feed_long inner last (not_lt.mp short) o, final, ?_, ?_⟩⟩
      · exact mem_append_right _ (mem_singleton_self final)
      · exact csiKeys_apart _ last

theorem not_prefix_append {A B out keys : List UInt8} (apart : ¬A <+: B)
    (more : out.length = keys.length ∨ ∃ b ∈ out, b ∉ keys) : ¬A ++ out <+: B ++ keys := by
  intro whole
  have first : A <+: B ++ keys := (prefix_append A out).trans whole
  obtain ⟨C, rfl⟩ := (List.prefix_or_prefix_of_prefix first (prefix_append B keys)).resolve_left apart
  rw [append_assoc, prefix_append_right_inj] at whole
  rcases more with long | ⟨b, there, missing⟩
  · have bound := whole.length_le
    rw [length_append] at bound
    have none : C = [] := length_eq_zero_iff.mp (by omega)
    rw [none, append_nil] at apart
    exact apart prefix_rfl
  · exact missing (whole.subset (mem_append_right _ there))

theorem feed_elements (elements : List Element) (o : Bool) :
    ∃ o' out, feed Input.feedByte (rest o) (elements.flatMap Element.bytes) = (rest o', out) ∧
      ((∀ e ∈ elements, e.Fits) → o' = o ∧ out = elements.flatMap Element.keys) ∧
        ((¬∀ e ∈ elements, e.Fits) → o' = true ∨ ¬out <+: elements.flatMap Element.keys) := by
  induction elements using List.reverseRecOn with
  | nil => exact ⟨o, [], rfl, fun _ => ⟨rfl, rfl⟩, fun wrong => absurd (fun _ => (absurd · not_mem_nil)) wrong⟩
  | append_singleton elements e ih =>
    obtain ⟨o', out, fed, right, wrong⟩ := ih
    have all : (∀ x ∈ elements ++ [e], x.Fits) ↔ (∀ x ∈ elements, x.Fits) ∧ e.Fits := by
      rw [forall_mem_append, forall_mem_singleton]
    rw [all, flatMap_append, flatMap_append, flatMap_singleton, flatMap_singleton, feed_append, fed]
    rcases feed_element e o' with ⟨fits, last⟩ | ⟨unfit, last | ⟨typed, last, leak⟩⟩
    · rw [last]
      refine ⟨o', _, rfl, fun both => ?_, fun bad => ?_⟩
      · obtain ⟨same, rfl⟩ := right both.1
        exact ⟨same, rfl⟩
      · refine (wrong fun before => bad ⟨before, fits⟩).imp_right fun apart => ?_
        exact not_prefix_append apart (.inl rfl)
    · rw [last]
      exact ⟨true, _, rfl, fun both => absurd both.2 unfit, fun _ => .inl rfl⟩
    · rw [last]
      refine ⟨o', _, rfl, fun both => absurd both.2 unfit, fun _ => ?_⟩
      by_cases before : ∀ x ∈ elements, x.Fits
      · rw [(right before).2, prefix_append_right_inj]
        obtain ⟨b, there, missing⟩ := leak
        exact .inr fun whole => missing (whole.subset there)
      · exact (wrong before).imp_right fun apart => not_prefix_append apart (.inr leak)

/-- However a stream is cut into calls, its elements become their keys and no number is too large,
just when every sequence fits. -/
theorem feedCalls_exact_iff (elements : List Element) (calls : List (List UInt8))
    (cut : calls.flatten = elements.flatMap Element.bytes) :
    (feedCalls init calls).2 = elements.flatMap Element.keys ∧ (feedCalls init calls).1.overflowed = false ↔
      ∀ e ∈ elements, e.Fits := by
  obtain ⟨o', out, fed, right, wrong⟩ := feed_elements elements false
  have fed : feedCalls init calls = (rest o', out) := (feedCalls_flatten init calls).trans (cut ▸ fed)
  rw [fed]
  constructor
  · intro ⟨same, small⟩
    have small : o' = false := small
    by_contra unfit
    rcases wrong unfit with large | apart
    · exact Bool.noConfusion (small.symm.trans large)
    · exact apart (same ▸ prefix_rfl)
  · intro fits
    obtain ⟨same, keys⟩ := right fits
    exact ⟨keys, same⟩

def arrowElements : List Element := [.csi [] 0x41 (by decide) (by decide), .plain 0x61 (by decide)]

theorem feedCalls_exact_arrow : (feedCalls init [[esc, 0x5b], [0x41, 0x61]]).2 = [0x80, 0x61] ∧
    (feedCalls init [[esc, 0x5b], [0x41, 0x61]]).1.overflowed = false :=
  (feedCalls_exact_iff arrowElements _ rfl).mpr (by unfold arrowElements; simp [Element.Fits, numbers, sequenceSize])

def longElement : Element := .csi (List.replicate 24 0x31) 0x6d (by decide) (by decide)

/-- The end of a long sequence is typed. -/
theorem longElement_leaks : ¬∀ (elements : List Element) (calls : List (List UInt8)),
    calls.flatten = elements.flatMap Element.bytes →
      (feedCalls init calls).2 = elements.flatMap Element.keys := by
  intro claim
  exact absurd (claim [longElement] [longElement.bytes] (by decide)) (by decide)

/-- `solar_os_vt100_input_feed` called again from the first byte that it has not consumed, until all are.
The pattern says for each byte fed how many of its characters are accepted before one is refused; what a
byte does to the state does not depend on the answers. -/
def feedAgain (input : Input) : List Nat → List UInt8 → List UInt8
  | [], data => (feed Input.feedByte input data).2
  | _, [] => []
  | n :: pattern, byte :: data =>
    let (after, keys) := input.feedByte byte
    keys.take n ++ feedAgain after pattern (if n < keys.length then byte :: data else data)

/-- The characters that may be refused: a byte that is typed, the second ESC, and the second character of
a pair whose byte is typed as itself. -/
def steady (phase : Phase) (byte : UInt8) (i : Nat) : Bool :=
  match phase with
  | .normal => true
  | .esc => byte = esc || (i = 1 && byte ≠ 0x1d)
  | _ => false

/-- Only such characters are refused. -/
def Spared (input : Input) : List Nat → List UInt8 → Prop
  | [], _ => True
  | _, [] => True
  | n :: pattern, byte :: data =>
    let (after, keys) := input.feedByte byte
    (n < keys.length → steady input.phase byte n = true) ∧
      Spared after pattern (if n < keys.length then byte :: data else data)

theorem sequence_keys {input : Input} {byte key : UInt8} (inside : input.phase = .csi ∨ input.phase = .ss3)
    (there : key ∈ (input.feedByte byte).2) :
    byte ≠ esc ∧ key ≠ typed byte ∧ (input.feedByte byte).1.phase = .normal := by
  unfold Input.feedByte at there ⊢
  rcases inside with phase | phase
  · rw [phase] at there ⊢
    dsimp only at there ⊢
    split at there
    · rename_i last
      rw [if_pos last]
      split at there
      · have high := csiKeys_special there
        have plain : typed byte = byte := by
          unfold typed
          rw [if_neg (by grind), if_neg (by grind)]
        rw [plain]
        exact ⟨by unfold esc; grind, by grind, rfl⟩
      · cases there
    · split at there <;> cases there
  · rw [phase] at there ⊢
    dsimp only at there ⊢
    refine ⟨?_, ?_, rfl⟩ <;> unfold ss3Keys at there <;> split at there <;> simp_all +decide [typed]

variable {input : Input} {byte : UInt8} {data : List UInt8} {pattern : List Nat} {n : Nat}

theorem feedByte_typed (phase : input.phase = .normal) (ordinary : byte ≠ esc) :
    input.feedByte byte = (input, [typed byte]) := by
  unfold Input.feedByte
  rw [phase]
  exact if_neg ordinary

/-- The byte of a refused character is fed again in the state it came to, or it is typed then. -/
theorem refused_kinds (inside : n < (input.feedByte byte).2.length) :
    ((input.feedByte byte).1 = input ∧ (input.feedByte byte).2.length = 1 ∧ steady input.phase byte n = true) ∨
      ((input.feedByte byte).1.phase = .normal ∧ byte ≠ esc ∧
        if steady input.phase byte n = true then (input.feedByte byte).2.drop n = [typed byte]
        else (input.feedByte byte).2[n]? ≠ some (typed byte) ∨ n + 1 < (input.feedByte byte).2.length) := by
  have sequence : input.phase = .csi ∨ input.phase = .ss3 → (input.feedByte byte).1.phase = .normal ∧ byte ≠ esc ∧
      (input.feedByte byte).2[n]? ≠ some (typed byte) := by
    intro phase
    obtain ⟨ordinary, other, ended⟩ := sequence_keys phase (getElem_mem inside)
    rw [getElem?_eq_getElem inside]
    exact ⟨ended, ordinary, fun same => other (Option.some.inj same)⟩
  cases phase : input.phase with
  | normal =>
    by_cases second : byte = esc
    · simp [Input.feedByte, phase, second] at inside
    · rw [feedByte_typed phase second]
      exact .inl ⟨rfl, rfl, rfl⟩
  | esc =>
    unfold Input.feedByte at inside ⊢
    rw [phase] at inside ⊢
    dsimp only at inside ⊢
    split at inside
    · cases inside
    split at inside
    · cases inside
    rename_i bracket letter
    rw [if_neg bracket, if_neg letter]
    split at inside
    · rename_i second
      rw [if_pos second, ← phase]
      exact .inl ⟨rfl, rfl, by simp [steady, phase, second]⟩
    · rename_i ordinary
      rw [if_neg ordinary]
      refine .inr ⟨rfl, ordinary, ?_⟩
      match n, inside with
      | 0, _ => simp [steady, ordinary, emitModified]
      | 1, _ =>
        by_cases control : byte = 0x1d
        · subst control
          dsimp only
          decide
        · simp [steady, control, emitModified, typed]
  | csi =>
    obtain ⟨ended, ordinary, other⟩ := sequence (.inl phase)
    exact .inr ⟨ended, ordinary, .inl other⟩
  | ss3 =>
    obtain ⟨ended, ordinary, other⟩ := sequence (.inr phase)
    exact .inr ⟨ended, ordinary, .inl other⟩

/-- What is received of a stream: no more than it is decoded to, and just that when only characters are
refused that may be. -/
structure Receives (input : Input) (pattern : List Nat) (data accepted : List UInt8) : Prop where
  short : accepted.length ≤ (feed Input.feedByte input data).2.length
  same : accepted = (feed Input.feedByte input data).2 ↔ Spared input pattern data
  first : input.phase = .normal → ∀ byte rest, data = byte :: rest → byte ≠ esc → accepted.head? = some (typed byte)

theorem Receives.accept (all : ¬n < (input.feedByte byte).2.length) {rest : List UInt8}
    (h : Receives (input.feedByte byte).1 pattern data rest) :
    Receives input (n :: pattern) (byte :: data) ((input.feedByte byte).2.take n ++ rest) := by
  rw [take_of_length_le (not_lt.mp all)]
  constructor
  · rw [feed_cons, length_append, length_append]
    exact Nat.add_le_add_left h.short _
  · unfold Spared
    dsimp only
    rw [feed_cons, if_neg all, ← h.same, and_iff_right (absurd · all)]
    exact append_right_inj _
  · intro phase byte' data' is ordinary
    cases is
    rw [feedByte_typed phase ordinary]
    rfl

theorem Receives.refuse (inside : n < (input.feedByte byte).2.length) {rest : List UInt8}
    (h : Receives (input.feedByte byte).1 pattern (byte :: data) rest) :
    Receives input (n :: pattern) (byte :: data) ((input.feedByte byte).2.take n ++ rest) := by
  have spared : Spared input (n :: pattern) (byte :: data) ↔
      steady input.phase byte n = true ∧ Spared (input.feedByte byte).1 pattern (byte :: data) := by
    conv_lhs => unfold Spared
    dsimp only
    rw [if_pos inside, imp_iff_right inside]
  rw [← h.same] at spared
  rcases refused_kinds inside with ⟨after, one, mark⟩ | ⟨normal, ordinary, kinds⟩
  · obtain rfl : n = 0 := Nat.lt_one_iff.mp (one ▸ inside)
    rw [take_zero, nil_append]
    rw [after] at h spared
    exact ⟨h.short, (spared.trans (and_iff_right mark)).symm, h.first⟩
  · have start : rest.head? = some (typed byte) := h.first normal byte data rfl ordinary
    have short := h.short
    rw [feed_cons, feedByte_typed normal ordinary] at short spared
    constructor
    · rw [feed_cons]
      simp only [length_append, length_singleton, length_take] at short ⊢
      omega
    · rw [spared, feed_cons]
      nth_rewrite 2 [← take_append_drop n (input.feedByte byte).2]
      rw [append_assoc, append_right_inj]
      split at kinds
      · rename_i mark
        rw [kinds, and_iff_right mark]
      · rename_i mark
        refine iff_of_false (fun is => ?_) fun both => mark both.1
        rcases kinds with other | more
        · rw [is, drop_eq_getElem_cons inside, cons_append, head?_cons] at start
          exact other ((getElem?_eq_getElem inside).trans start)
        · have lengths := congrArg List.length is
          simp only [length_append, length_singleton, length_drop] at lengths short
          omega
    · intro phase byte' data' is _
      cases is
      rw [feedByte_typed phase ordinary] at inside ⊢
      rw [Nat.lt_one_iff.mp inside]
      exact start

theorem feedAgain_receives : Receives input pattern data (feedAgain input pattern data) := by
  induction pattern generalizing input data with
  | nil =>
    unfold feedAgain
    refine ⟨le_rfl, by simp only [Spared], fun phase byte rest is ordinary => ?_⟩
    rw [is, feed_cons, feedByte_typed phase ordinary]
    rfl
  | cons n pattern ih =>
    cases data with
    | nil => exact ⟨le_rfl, iff_of_true rfl trivial, nofun⟩
    | cons byte data =>
      unfold feedAgain
      dsimp only
      split
      · rename_i inside
        exact ih.refuse inside
      · rename_i all
        exact ih.accept all

/-- Whatever the callback refuses, the characters it accepts are those of the stream just when it
refuses only characters that may be refused. -/
theorem feedAgain_iff (pattern : List Nat) (data : List UInt8) :
    feedAgain init pattern data = (feed Input.feedByte init data).2 ↔ Spared init pattern data :=
  feedAgain_receives.same

theorem arrow_refused : ¬∀ (pattern : List Nat) (data : List UInt8),
    feedAgain init pattern data = (feed Input.feedByte init data).2 := by
  intro claim
  exact absurd (claim [1, 1, 0] [esc, openBracket, 0x41]) (by decide)

end SolarOs.Vt100
