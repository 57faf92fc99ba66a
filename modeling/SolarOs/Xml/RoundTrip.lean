import SolarOs.Xml.Parser
import Mathlib.Data.List.Infix
import Mathlib.Data.List.TakeWhile

/-! A document that was written from events is read back as those events. -/
namespace SolarOs.Xml
open Ctype List Option

variable {outLen : Nat} {out text rest name token : Bytes} {ch : UInt8} {setting : Setting}
  {before : List Event}

theorem appendText_fits (room : out.length + text.length < outLen) : appendText outLen out text = (out ++ text, true) := by
  induction text generalizing out with
  | nil => rw [appendText, append_nil]
  | cons ch text ih =>
    rw [length_cons] at room
    have fits : appendChar outLen out ch = (out ++ [ch], true) := if_neg (by omega)
    rw [appendText, fits]
    rw [if_pos rfl, ih (by rw [length_append, length_singleton]; omega), append_assoc]
    rfl

theorem appendUtf8OrAscii_fits (room : out.length + 1 < outLen) (value : UInt32) :
    (appendUtf8OrAscii outLen out value).2 = true ∧ (appendUtf8OrAscii outLen out value).1.length ≤ out.length + 1 := by
  have fits : ∀ ch, appendChar outLen out ch = (out ++ [ch], true) := fun ch => if_neg (by omega)
  unfold appendUtf8OrAscii
  split
  · exact ⟨rfl, Nat.le_succ _⟩
  · split
    · rw [fits]
      exact ⟨rfl, by rw [length_append, length_singleton]⟩
    · rw [fits]
      exact ⟨rfl, by rw [length_append, length_singleton]⟩

theorem replacement_short {e : Bytes × Bytes} (known : e ∈ namedEntities) : e.2.length ≤ e.1.length := by
  have all : ∀ e ∈ namedEntities, e.2.length ≤ e.1.length := by decide
  exact all e known

theorem decodeEntity_fits {source : Bytes} (room : out.length + source.length < outLen) :
    (decodeEntity outLen source out).2.length ≤ out.length + (decodeEntity outLen source out).1.getD 0 ∧
      (decodeEntity outLen source out).1.getD 0 ≤ source.length := by
  unfold decodeEntity
  dsimp only
  generalize min (source.takeWhile (· ≠ semicolon)).length 16 = len
  split
  · exact ⟨Nat.le_refl _, Nat.zero_le _⟩
  · rename_i ends
    rw [not_not] at ends
    have within : len < source.length := (List.getElem?_eq_some_iff.mp ends).1
    split
    · rename_i e found
      have known := mem_of_find?_eq_some found
      have fits := find?_some found
      rw [decide_eq_true_eq] at fits
      have short := replacement_short known
      rw [appendText_fits (by omega)]
      refine ⟨?_, within⟩
      rw [length_append]
      exact Nat.add_le_add_left (by simp only [if_true, getD_some]; omega) _
    · split
      · split
        · exact ⟨Nat.le_refl _, Nat.zero_le _⟩
        · rename_i value _
          obtain ⟨whole, one⟩ := @appendUtf8OrAscii_fits outLen out (by omega) value
          rw [whole]
          refine ⟨?_, within⟩
          simp only [if_true, getD_some]
          omega
      · exact ⟨Nat.le_refl _, Nat.zero_le _⟩

theorem decodeFrom_fits {source : Bytes} (room : out.length + source.length < outLen) :
    ∃ text, decodeFrom outLen source out = .ok text := by
  induction size : source.length using Nat.strong_induction_on generalizing source out with
  | _ size' ih =>
    cases source with
    | nil => exact ⟨out, by rw [decodeFrom]⟩
    | cons ch rest =>
      rw [length_cons] at room size
      rw [decodeFrom]
      have entity : (if ch = amp then decodeEntity outLen rest out else (none, out)).2.length ≤
          out.length + (if ch = amp then decodeEntity outLen rest out else (none, out)).1.getD 0 ∧
          (if ch = amp then decodeEntity outLen rest out else (none, out)).1.getD 0 ≤ rest.length := by
        split
        · exact decodeEntity_fits (by omega)
        · exact ⟨Nat.le_refl _, Nat.zero_le _⟩
      generalize (if ch = amp then decodeEntity outLen rest out else (none, out)) = r at entity
      obtain ⟨grows, within⟩ := entity
      split
      · rename_i taken is
        rw [is, getD_some] at grows within
        refine @ih (rest.drop taken).length ?_ r.2 (rest.drop taken) ?_ rfl
        · rw [length_drop]
          omega
        · rw [length_drop]
          omega
      · rename_i is
        rw [is, getD_none] at grows
        have fits : appendChar outLen r.2 ch = (r.2 ++ [ch], true) := if_neg (by omega)
        rw [fits]
        rw [if_pos rfl]
        refine @ih rest.length (by omega) (r.2 ++ [ch]) rest ?_ rfl
        rw [length_append, length_singleton]
        omega

/-- What stands for a character in text and values. -/
def escapeChar (ch : UInt8) : Bytes :=
  if ch = lt then chars ['&', 'l', 't', ';']
  else if ch = gt then chars ['&', 'g', 't', ';']
  else if ch = amp then chars ['&', 'a', 'm', 'p', ';']
  else if ch = quot then chars ['&', 'q', 'u', 'o', 't', ';']
  else if ch = apos then chars ['&', 'a', 'p', 'o', 's', ';']
  else [ch]

def escape (text : Bytes) : Bytes := text.flatMap escapeChar

theorem escapeChar_clean {b : UInt8} (there : b ∈ escapeChar ch) (nonzero : ch ≠ 0) :
    b ≠ lt ∧ b ≠ gt ∧ b ≠ quot ∧ b ≠ apos ∧ b ≠ 0 := by
  have clean : ∀ s ∈ [chars ['&', 'l', 't', ';'], chars ['&', 'g', 't', ';'], chars ['&', 'a', 'm', 'p', ';'],
      chars ['&', 'q', 'u', 'o', 't', ';'], chars ['&', 'a', 'p', 'o', 's', ';']], ∀ b ∈ s,
      b ≠ lt ∧ b ≠ gt ∧ b ≠ quot ∧ b ≠ apos ∧ b ≠ 0 := by decide
  unfold escapeChar at there
  split at there
  · exact clean _ (by decide) b there
  · split at there
    · exact clean _ (by decide) b there
    · split at there
      · exact clean _ (by decide) b there
      · split at there
        · exact clean _ (by decide) b there
        · split at there
          · exact clean _ (by decide) b there
          · rw [mem_singleton] at there
            subst there
            exact ⟨‹_›, ‹_›, ‹_›, ‹_›, nonzero⟩

theorem escape_clean {b : UInt8} (there : b ∈ escape text) (nonzero : (0 : UInt8) ∉ text) :
    b ≠ lt ∧ b ≠ gt ∧ b ≠ quot ∧ b ≠ apos ∧ b ≠ 0 := by
  obtain ⟨ch, within, there⟩ := mem_flatMap.mp there
  exact escapeChar_clean there fun zero => nonzero (zero ▸ within)

theorem decodeFrom_entity {entity : Bytes} (room : out.length + 1 < outLen) (rest : Bytes)
    (known : decodeEntity outLen (entity ++ rest) out =
      (if (appendText outLen out [ch]).2 then some entity.length else none, (appendText outLen out [ch]).1)) :
    decodeFrom outLen (amp :: entity ++ rest) out = decodeFrom outLen rest (out ++ [ch]) := by
  have fits : appendText outLen out [ch] = (out ++ [ch], true) := appendText_fits room
  rw [cons_append, decodeFrom, if_pos rfl, known, fits]
  rw [if_pos rfl]
  dsimp only
  rw [drop_left]

theorem decodeFrom_escapeChar (room : out.length + 1 < outLen) (ch : UInt8) (rest : Bytes) :
    decodeFrom outLen (escapeChar ch ++ rest) out = decodeFrom outLen rest (out ++ [ch]) := by
  unfold escapeChar
  split
  · subst ch
    exact @decodeFrom_entity outLen out lt (chars ['l', 't', ';']) room rest rfl
  · split
    · subst ch
      exact @decodeFrom_entity outLen out gt (chars ['g', 't', ';']) room rest rfl
    · split
      · subst ch
        exact @decodeFrom_entity outLen out amp (chars ['a', 'm', 'p', ';']) room rest rfl
      · rename_i plain
        split
        · subst ch
          exact @decodeFrom_entity outLen out quot (chars ['q', 'u', 'o', 't', ';']) room rest rfl
        · split
          · subst ch
            exact @decodeFrom_entity outLen out apos (chars ['a', 'p', 'o', 's', ';']) room rest rfl
          · have fits : appendChar outLen out ch = (out ++ [ch], true) := if_neg (by omega)
            rw [singleton_append, decodeFrom, if_neg plain]
            rw [fits]
            rw [if_pos rfl]

theorem escape_cons (ch : UInt8) (text : Bytes) : escape (ch :: text) = escapeChar ch ++ escape text := flatMap_cons

theorem escapeChar_pos (ch : UInt8) : 0 < (escapeChar ch).length := by
  unfold escapeChar
  repeat' split
  all_goals exact Nat.succ_pos _

theorem length_le_escape (text : Bytes) : text.length ≤ (escape text).length := by
  induction text with
  | nil => exact Nat.le_refl 0
  | cons ch text ih =>
    have some := escapeChar_pos ch
    rw [escape_cons, length_append, length_cons]
    omega

theorem decodeFrom_escape (room : out.length + text.length < outLen) :
    decodeFrom outLen (escape text) out = .ok (out ++ text) := by
  induction text generalizing out with
  | nil => rw [escape, flatMap_nil, decodeFrom, append_nil]
  | cons ch text ih =>
    rw [length_cons] at room
    rw [escape_cons, decodeFrom_escapeChar (by omega), ih (by rw [length_append, length_singleton]; omega),
      append_assoc]
    rfl

theorem decodeEntities_escape (room : text.length < outLen) : decodeEntities (escape text) outLen = .ok text := by
  rw [decodeEntities, if_neg (by omega), decodeFrom_escape (by rwa [length_nil, zero_add]), nil_append]

inductive Item where
  | start (name : Bytes) (attrs : List Attr) (selfClosing : Bool)
  | end_ (name : Bytes)
  | text (text : Bytes)
  | comment (text : Bytes)
  | cdata (text : Bytes)

def Attr.bytes (a : Attr) : Bytes := 0x20 :: (a.name ++ 0x3d :: quot :: (escape a.value ++ [quot]))

def tagText (name : Bytes) (attrs : List Attr) (selfClosing : Bool) : Bytes :=
  name ++ (attrs.flatMap Attr.bytes ++ if selfClosing then [slash] else [])

def Item.bytes : Item → Bytes
  | .start name attrs selfClosing => lt :: (tagText name attrs selfClosing ++ [gt])
  | .end_ name => lt :: (slash :: name ++ [gt])
  | .text text => escape text
  | .comment text => commentOpen ++ (text ++ commentClose)
  | .cdata text => cdataOpen ++ (text ++ cdataClose)

def Item.events : Item → List Event
  | .start name attrs selfClosing => .start name attrs selfClosing :: if selfClosing then [.end_ name] else []
  | .end_ name => [.end_ name]
  | .text text => [.text text]
  | .comment text => [.comment text]
  | .cdata text => [.cdata text]

def Item.isText : Item → Bool
  | .text _ => true
  | _ => false

def IsName (name : Bytes) : Prop := name ≠ [] ∧ leadingName name = name

def Ascii (text : Bytes) : Prop := ∀ b ∈ text, b ≠ 0 ∧ b < 0x80

/-- The tags have names, no more attributes than fit, and few enough bytes; what is escaped is
text, and what is not does not hold its terminator. -/
def Item.Fair : Item → Prop
  | .start name attrs selfClosing => IsName name ∧ attrs.length ≤ maxAttrs ∧
      (∀ a ∈ attrs, IsName a.name ∧ a.value.length < attrValueMax ∧ Ascii a.value) ∧
      (tagText name attrs selfClosing).length < tagMax
  | .end_ name => IsName name
  | .text text => text ≠ [] ∧ Ascii text
  | .comment text => ¬commentClose <:+: text ∧ Ascii text
  | .cdata text => ¬cdataClose <:+: text ∧ Ascii text

def Item.Short : Item → Prop
  | .start name attrs _ => name.length < nameMax ∧ ∀ a ∈ attrs, a.name.length < nameMax ∧ (escape a.value).length < attrValueMax
  | .end_ name => name.length < nameMax
  | _ => True

def Apart : List Item → Prop
  | [] => True
  | item :: items => (item.isText = true → ∀ next, items.head? = some next → next.isText = false) ∧ Apart items

def Calm (setting : Setting) : Prop := (∀ events n, setting.alloc events n = true) ∧ ∀ events event, setting.callback events event = .ok

def Stops (f : UInt8 → Bool) (rest : Bytes) : Prop := ∀ b, rest.head? = some b → f b = false

theorem span_stop {f : UInt8 → Bool} {run : Bytes} (all : ∀ b ∈ run, f b = true) (stops : Stops f rest) :
    (run ++ rest).takeWhile f = run ∧ (run ++ rest).dropWhile f = rest := by
  rw [takeWhile_append_of_pos all, dropWhile_append_of_pos all]
  cases rest with
  | nil => exact ⟨append_nil run, rfl⟩
  | cons b rest =>
    have no := stops b rfl
    rw [takeWhile_cons_of_neg (by rw [no]; decide), dropWhile_cons_of_neg (by rw [no]; decide)]
    exact ⟨append_nil run, rfl⟩

theorem nameChar_plain {first : Bool} (is : nameChar first ch = true) :
    ch ≠ quot ∧ ch ≠ apos ∧ ch ≠ gt ∧ ch ≠ slash ∧ ch ≠ 0x21 ∧ ch ≠ 0x3f ∧ ch ≠ 0 ∧ isSpace ch = false ∧ nameChar false ch = true := by
  have all : ∀ n : Fin 256, ∀ first : Bool, nameChar first (UInt8.ofNat n) = true →
      UInt8.ofNat n ≠ quot ∧ UInt8.ofNat n ≠ apos ∧ UInt8.ofNat n ≠ gt ∧ UInt8.ofNat n ≠ slash ∧ UInt8.ofNat n ≠ 0x21 ∧
        UInt8.ofNat n ≠ 0x3f ∧ UInt8.ofNat n ≠ 0 ∧ isSpace (UInt8.ofNat n) = false ∧ nameChar false (UInt8.ofNat n) = true := by
    decide +kernel
  have here := all ⟨ch.toNat, ch.toNat_lt⟩ first
  rw [UInt8.ofNat_toNat] at here
  exact here is

theorem IsName.split (h : IsName name) : ∃ ch more, name = ch :: more ∧ nameChar true ch = true ∧
    ∀ b ∈ more, nameChar false b = true := by
  obtain ⟨some, whole⟩ := h
  cases name with
  | nil => exact absurd rfl some
  | cons ch more =>
    rw [leadingName] at whole
    split at whole
    · rename_i first
      exact ⟨ch, more, rfl, first, takeWhile_eq_self_iff.mp (List.cons.inj whole).2⟩
    · cases whole

theorem IsName.plain (h : IsName name) {b : UInt8} (there : b ∈ name) : nameChar false b = true := by
  obtain ⟨ch, more, rfl, first, later⟩ := h.split
  rcases mem_cons.mp there with rfl | there
  · exact (nameChar_plain first).2.2.2.2.2.2.2.2
  · exact later b there

theorem copyName_append (h : IsName name) (short : name.length < nameMax) (stops : Stops (nameChar false) rest) :
    copyName (name ++ rest) = (name, rest) := by
  have leading : leadingName (name ++ rest) = name := by
    obtain ⟨ch, more, rfl, first, later⟩ := h.split
    rw [cons_append, leadingName, if_pos first, (span_stop later stops).1]
  rw [copyName, leading, take_of_length_le (by omega), drop_left]

theorem skipSpace_name (h : IsName name) (rest : Bytes) : skipSpace (name ++ rest) = name ++ rest := by
  obtain ⟨ch, more, rfl, first, -⟩ := h.split
  have solid := (nameChar_plain first).2.2.2.2.2.2.2.1
  exact dropWhile_cons_of_neg (by rw [solid]; decide)

theorem findTagEnd_plain {run : Bytes} (plain : ∀ b ∈ run, b ≠ quot ∧ b ≠ apos ∧ b ≠ gt) :
    findTagEnd none (run ++ rest) = (findTagEnd none rest).map (run.length + ·) := by
  induction run with
  | nil => simp
  | cons ch run ih =>
    obtain ⟨notQuot, notApos, notGt⟩ := plain ch mem_cons_self
    rw [cons_append, findTagEnd, if_neg (not_or.mpr ⟨notQuot, notApos⟩), if_neg notGt,
      ih fun b there => plain b (mem_cons_of_mem _ there), Option.map_map]
    congr 1
    funext n
    simp only [Function.comp, length_cons]
    omega

theorem findTagEnd_quoted {run : Bytes} (plain : quot ∉ run) :
    findTagEnd (some quot) (run ++ quot :: rest) = (findTagEnd none rest).map (run.length + 1 + ·) := by
  induction run with
  | nil =>
    rw [nil_append, findTagEnd, if_pos rfl]
    congr 1
    funext n
    exact add_comm n 1
  | cons ch run ih =>
    rw [mem_cons, not_or] at plain
    rw [cons_append, findTagEnd, if_neg (Ne.symm plain.1), ih plain.2, Option.map_map]
    congr 1
    funext n
    simp only [Function.comp, length_cons]
    omega

theorem findTagEnd_attr {a : Attr} (named : IsName a.name) (nonzero : (0 : UInt8) ∉ a.value) :
    findTagEnd none (a.bytes ++ rest) = (findTagEnd none rest).map (a.bytes.length + ·) := by
  have before : ∀ b ∈ 0x20 :: (a.name ++ [0x3d]), b ≠ quot ∧ b ≠ apos ∧ b ≠ gt := by
    intro b there
    rcases mem_cons.mp there with rfl | there
    · decide
    · rcases mem_append.mp there with there | there
      · have plain := nameChar_plain (named.plain there)
        exact ⟨plain.1, plain.2.1, plain.2.2.1⟩
      · rw [mem_singleton.mp there]
        decide
  have inside : quot ∉ escape a.value := fun there => (escape_clean there nonzero).2.2.1 rfl
  have shape : a.bytes ++ rest = (0x20 :: (a.name ++ [0x3d])) ++ (quot :: (escape a.value ++ quot :: rest)) := by
    simp [Attr.bytes]
  rw [shape, findTagEnd_plain before, findTagEnd, if_pos (.inl rfl), findTagEnd_quoted inside, Option.map_map, Option.map_map]
  congr 1
  funext n
  simp only [Function.comp, Attr.bytes, length_cons, length_append, length_nil]
  omega

theorem findTagEnd_attrs {attrs : List Attr} (fair : ∀ a ∈ attrs, IsName a.name ∧ (0 : UInt8) ∉ a.value) :
    findTagEnd none (attrs.flatMap Attr.bytes ++ rest) =
      (findTagEnd none rest).map ((attrs.flatMap Attr.bytes).length + ·) := by
  induction attrs with
  | nil => simp
  | cons a attrs ih =>
    obtain ⟨named, nonzero⟩ := fair a mem_cons_self
    rw [flatMap_cons, append_assoc, findTagEnd_attr named nonzero,
      ih fun b there => fair b (mem_cons_of_mem _ there), Option.map_map, length_append]
    congr 1
    funext n
    exact (add_assoc ..).symm

theorem findTagEnd_tag (named : IsName name) {attrs : List Attr} (fair : ∀ a ∈ attrs, IsName a.name ∧ (0 : UInt8) ∉ a.value)
    (selfClosing : Bool) :
    findTagEnd none (tagText name attrs selfClosing ++ gt :: rest) = some (tagText name attrs selfClosing).length := by
  have plainName : ∀ b ∈ name, b ≠ quot ∧ b ≠ apos ∧ b ≠ gt := by
    intro b there
    have plain := nameChar_plain (named.plain there)
    exact ⟨plain.1, plain.2.1, plain.2.2.1⟩
  have plainEnd : ∀ b ∈ (if selfClosing then [slash] else []), b ≠ quot ∧ b ≠ apos ∧ b ≠ gt := by
    cases selfClosing <;> decide
  have closed : findTagEnd none (gt :: rest) = some 0 := rfl
  rw [tagText, append_assoc, append_assoc, findTagEnd_plain plainName, findTagEnd_attrs fair,
    findTagEnd_plain plainEnd, closed, map_some, map_some, map_some, length_append,
    length_append, add_zero]

theorem stops_cons {f : UInt8 → Bool} (no : f ch = false) (rest : Bytes) : Stops f (ch :: rest) := by
  intro b is
  cases is
  exact no

theorem stops_attrs (attrs : List Attr) (selfClosing : Bool) :
    Stops (nameChar false) (attrs.flatMap Attr.bytes ++ if selfClosing then [slash] else []) := by
  cases attrs with
  | nil =>
    cases selfClosing with
    | false => exact nofun
    | true => exact stops_cons (by decide) []
  | cons a attrs => exact stops_cons (by decide) _

theorem parseAttrs_attr {a : Attr} (named : IsName a.name) (short : a.name.length < nameMax)
    (small : (escape a.value).length < attrValueMax) (nonzero : (0 : UInt8) ∉ a.value) {attrs : List Attr}
    (room : attrs.length < maxAttrs) (rest : Bytes) :
    parseAttrs (a.bytes ++ rest) attrs = parseAttrs rest (attrs ++ [a]) := by
  have value : copyAttrValue (quot :: (escape a.value ++ quot :: rest)) = (.ok a.value, rest) := by
    have inside : ∀ b ∈ escape a.value, decide (b ≠ quot) = true := by
      intro b there
      exact decide_eq_true (escape_clean there nonzero).2.2.1
    have stops : Stops (fun b => decide (b ≠ quot)) (quot :: rest) := stops_cons (by decide) rest
    have fits := length_le_escape a.value
    rw [copyAttrValue, if_pos (.inl rfl), (span_stop inside stops).1, (span_stop inside stops).2,
      take_of_length_le (by omega), decodeEntities_escape (by omega)]
    rfl
  have start : skipSpace (a.bytes ++ rest) = a.name ++ 0x3d :: (quot :: (escape a.value ++ quot :: rest)) := by
    have shape : a.bytes ++ rest = 0x20 :: (a.name ++ 0x3d :: (quot :: (escape a.value ++ quot :: rest))) := by
      simp [Attr.bytes]
    rw [shape, skipSpace, dropWhile_cons_of_pos (by decide)]
    exact skipSpace_name named _
  have copied : copyName (a.name ++ 0x3d :: (quot :: (escape a.value ++ quot :: rest))) =
      (a.name, 0x3d :: (quot :: (escape a.value ++ quot :: rest))) :=
    copyName_append named short (stops_cons (by decide) _)
  obtain ⟨ch, more, split, first, -⟩ := named.split
  have solid := (nameChar_plain first).2.2.2.1
  rw [parseAttrs]
  split
  · rename_i empty
    rw [start, split] at empty
    cases empty
  · rename_i ch' rest' here
    rw [start] at here
    rw [← here, copied]
    obtain rfl : ch' = ch := by
      rw [split] at here
      exact (List.cons.inj here).1.symm
    rw [if_neg solid, dif_neg (by rw [split]; exact cons_ne_nil _ _)]
    have same : skipSpace (0x3d :: (quot :: (escape a.value ++ quot :: rest))) =
      0x3d :: (quot :: (escape a.value ++ quot :: rest)) := dropWhile_cons_of_neg (by decide)
    split
    · rename_i empty
      rw [same] at empty
      cases empty
    · rename_i eq after equals
      rw [same] at equals
      cases equals
      have opened : skipSpace (quot :: (escape a.value ++ quot :: rest)) = quot :: (escape a.value ++ quot :: rest) :=
        dropWhile_cons_of_neg (by decide)
      rw [if_neg (not_not.mpr rfl), opened, value]
      dsimp only
      rw [if_pos room]

theorem parseAttrs_end (attrs : List Attr) (selfClosing : Bool) :
    parseAttrs (if selfClosing then [slash] else []) attrs = .ok (attrs, selfClosing) := by
  cases selfClosing with
  | false =>
    rw [parseAttrs]
    rfl
  | true =>
    rw [parseAttrs]
    rfl

theorem parseAttrs_written (selfClosing : Bool) {attrs read : List Attr}
    (fair : ∀ a ∈ attrs, IsName a.name ∧ a.name.length < nameMax ∧ (escape a.value).length < attrValueMax ∧ (0 : UInt8) ∉ a.value)
    (room : read.length + attrs.length ≤ maxAttrs) :
    parseAttrs (attrs.flatMap Attr.bytes ++ if selfClosing then [slash] else []) read = .ok (read ++ attrs, selfClosing) := by
  induction attrs generalizing read with
  | nil => rw [flatMap_nil, nil_append, parseAttrs_end, append_nil]
  | cons a attrs ih =>
    obtain ⟨named, short, small, nonzero⟩ := fair a mem_cons_self
    rw [length_cons] at room
    rw [flatMap_cons, append_assoc, parseAttrs_attr named short small nonzero (by omega),
      ih (fun b there => fair b (mem_cons_of_mem _ there)) (by rw [length_append, length_singleton]; omega),
      append_assoc]
    rfl

theorem Calm.emit (calm : Calm setting) (before : List Event) (event : Event) :
    emit setting before event = (.ok, before ++ [event]) := congrArg (·, before ++ [event]) (calm.2 before event)

theorem takeWhile_nonzero {text : Bytes} (nonzero : (0 : UInt8) ∉ text) : text.takeWhile (· ≠ 0) = text :=
  takeWhile_eq_self_iff.mpr fun _ there => decide_eq_true fun zero => nonzero (zero ▸ there)

theorem Ascii.nonzero (h : Ascii text) : (0 : UInt8) ∉ text := fun there => (h 0 there).1 rfl

theorem parseTag_start (calm : Calm setting) {attrs : List Attr} {selfClosing : Bool}
    (fair : (Item.start name attrs selfClosing).Fair) (short : (Item.start name attrs selfClosing).Short) :
    parseTag setting before (tagText name attrs selfClosing) =
      (.ok, before ++ (Item.start name attrs selfClosing).events) := by
  obtain ⟨named, few, values, -⟩ := fair
  have nonzero : (0 : UInt8) ∉ tagText name attrs selfClosing := by
    intro there
    rcases mem_append.mp there with there | there
    · exact (nameChar_plain (named.plain there)).2.2.2.2.2.2.1 rfl
    · rcases mem_append.mp there with there | there
      · obtain ⟨a, within, there⟩ := mem_flatMap.mp there
        obtain ⟨attrNamed, -, ascii⟩ := values a within
        simp only [Attr.bytes, mem_cons, mem_append] at there
        rcases there with zero | there | zero | zero | there | zero | none
        · cases zero
        · exact (nameChar_plain (attrNamed.plain there)).2.2.2.2.2.2.1 rfl
        · cases zero
        · cases zero
        · exact (escape_clean there ascii.nonzero).2.2.2.2 rfl
        · cases zero
        · cases none
      · cases selfClosing
        · cases there
        · exact absurd (mem_singleton.mp there) (by decide)
  have kept : skipSpace (tagText name attrs selfClosing) = tagText name attrs selfClosing := skipSpace_name named _
  have copied : copyName (tagText name attrs selfClosing) =
      (name, attrs.flatMap Attr.bytes ++ if selfClosing then [slash] else []) :=
    copyName_append named short.1 (stops_attrs attrs selfClosing)
  have read : parseAttrs (attrs.flatMap Attr.bytes ++ if selfClosing then [slash] else []) [] = .ok (attrs, selfClosing) := by
    refine parseAttrs_written selfClosing (fun a there => ?_) (by rwa [length_nil, zero_add])
    obtain ⟨attrNamed, -, ascii⟩ := values a there
    obtain ⟨attrShort, small⟩ := short.2 a there
    exact ⟨attrNamed, attrShort, small, ascii.nonzero⟩
  have started : parseStartTag setting before (tagText name attrs selfClosing) =
      (.ok, before ++ (Item.start name attrs selfClosing).events) := by
    unfold parseStartTag
    rw [kept, copied]
    rw [if_neg named.1, if_neg (by rw [calm.1]; decide), read]
    dsimp only
    rw [calm.emit]
    cases selfClosing with
    | false => rfl
    | true =>
      dsimp only
      rw [if_neg (by decide), calm.emit, append_assoc]
      rfl
  obtain ⟨ch, more, split, first, -⟩ := named.split
  have solid := (nameChar_plain first).2.2.2.1
  unfold parseTag
  rw [takeWhile_nonzero nonzero]
  dsimp only
  rw [kept]
  have shape : tagText name attrs selfClosing = ch :: (more ++ (attrs.flatMap Attr.bytes ++ if selfClosing then [slash] else [])) := by
    rw [tagText, split]
    rfl
  rw [shape] at started ⊢
  dsimp only
  rw [if_neg solid, started]

theorem parseTag_end (calm : Calm setting) (named : IsName name) (short : name.length < nameMax) :
    parseTag setting before (slash :: name) = (.ok, before ++ [.end_ name]) := by
  have nonzero : (0 : UInt8) ∉ slash :: name := by
    intro there
    rcases mem_cons.mp there with zero | there
    · cases zero
    · exact (nameChar_plain (named.plain there)).2.2.2.2.2.2.1 rfl
  have kept : skipSpace (slash :: name) = slash :: name := dropWhile_cons_of_neg (by decide)
  have same : skipSpace name = name := by
    have whole := skipSpace_name named []
    rwa [append_nil] at whole
  have copied : copyName name = (name, []) := by
    have whole := @copyName_append [] name named short nofun
    rwa [append_nil] at whole
  unfold parseTag
  rw [takeWhile_nonzero nonzero]
  dsimp only
  rw [kept]
  dsimp only
  rw [if_pos rfl, same, copied, if_neg named.1, calm.emit]

theorem findToken_written {a b : UInt8} (apart : a ≠ b) (rest : Bytes) (absent : ¬[a, a, b] <:+: text) :
    findToken [a, a, b] (text ++ ([a, a, b] ++ rest)) = some text.length := by
  induction text with
  | nil => exact if_pos (prefix_append [a, a, b] rest)
  | cons ch text ih =>
    have later : ¬[a, a, b] <:+: text := fun within => absent (List.IsInfix.trans within (suffix_cons ch text).isInfix)
    have here : ¬[a, a, b] <+: ch :: (text ++ ([a, a, b] ++ rest)) := by
      intro starts
      match text with
      | [] =>
        simp only [cons_append, nil_append, cons_prefix_cons] at starts
        exact apart starts.2.2.1.symm
      | [c] =>
        simp only [cons_append, nil_append, cons_prefix_cons] at starts
        exact apart starts.2.2.1.symm
      | c :: d :: text =>
        simp only [cons_append, cons_prefix_cons] at starts
        obtain ⟨rfl, rfl, rfl, -⟩ := starts
        exact absent (List.IsPrefix.isInfix ⟨text, rfl⟩)
    rw [cons_append, findToken, if_neg here, ih later]
    rfl

theorem Calm.emitText (calm : Calm setting) (before : List Event) (event : Bytes → Event) {text source : Bytes} {decode : Bool}
    (is : (if decode then decodeEntities source (source.length + 1) else .ok source) = .ok text)
    (nonzero : (0 : UInt8) ∉ text) : emitText setting before event source decode = (.ok, before ++ [event text]) := by
  unfold Xml.emitText
  rw [if_neg (by rw [calm.1]; decide), is]
  dsimp only
  rw [takeWhile_nonzero nonzero, calm.emit]

theorem parse_tag (calm : Calm setting) {tag : Bytes} {now : List Event} (notBang : ch ≠ 0x21) (notQuestion : ch ≠ 0x3f)
    (found : findTagEnd none (ch :: tag ++ gt :: rest) = some (ch :: tag).length) (some : (ch :: tag).length ≠ 0)
    (small : (ch :: tag).length < tagMax) (read : parseTag setting before (ch :: tag) = (.ok, before ++ now)) :
    parse setting (lt :: (ch :: tag ++ gt :: rest)) before = parse setting rest (before ++ now) := by
  have second : ∀ {c : UInt8} {open_ : Bytes}, c ≠ ch → ¬lt :: c :: open_ <+: lt :: (ch :: tag ++ gt :: rest) := by
    intro c open_ other starts
    rw [cons_append, cons_prefix_cons, cons_prefix_cons] at starts
    exact other starts.2.1
  have left : (ch :: tag ++ gt :: rest).drop ((ch :: tag).length + 1) = rest := by
    rw [← drop_drop, drop_left]
    rfl
  have comment : ¬commentOpen <+: lt :: (ch :: tag ++ gt :: rest) := second notBang.symm
  have cdata : ¬cdataOpen <+: lt :: (ch :: tag ++ gt :: rest) := second notBang.symm
  have pi : ¬piOpen <+: lt :: (ch :: tag ++ gt :: rest) := second notQuestion.symm
  have declaration : ¬declarationOpen <+: lt :: (ch :: tag ++ gt :: rest) := second notBang.symm
  rw [parse, if_neg (not_not.mpr rfl), if_neg comment, if_neg cdata, if_neg pi, if_neg declaration, found]
  dsimp only
  rw [if_neg (not_or.mpr ⟨some, not_le.mpr small⟩), if_neg (by rw [calm.1]; decide), take_left, read, left]
  exact if_neg (not_not.mpr rfl)

theorem parse_item (calm : Calm setting) {item : Item} (fair : item.Fair) (short : item.Short)
    (ends : item.isText = true → Stops (· ≠ lt) rest) :
    parse setting (item.bytes ++ rest) before = parse setting rest (before ++ item.events) := by
  cases item with
  | text text =>
    obtain ⟨some, ascii⟩ := fair
    have plain : ∀ b ∈ escape text, decide (b ≠ lt) = true := fun b there => decide_eq_true (escape_clean there ascii.nonzero).1
    have stops : Stops (fun b => decide (b ≠ lt)) rest := ends rfl
    obtain ⟨run, left⟩ := span_stop plain stops
    have decoded : (if true then decodeEntities (escape text) ((escape text).length + 1) else .ok (escape text)) = .ok text := by
      rw [if_pos rfl]
      exact decodeEntities_escape (Nat.lt_succ_of_le (length_le_escape text))
    cases whole : escape text with
    | nil =>
      have none := length_le_escape text
      rw [whole] at none
      exact absurd (length_eq_zero_iff.mp (Nat.le_zero.mp none)) some
    | cons ch more =>
      have first : ch ≠ lt := of_decide_eq_true (plain ch (whole ▸ mem_cons_self))
      rw [whole, cons_append] at run left
      have skipped : List.dropWhile (fun b => decide (b ≠ lt)) (ch :: (more ++ rest)) = (more ++ rest).dropWhile (· ≠ lt) :=
        dropWhile_cons_of_pos (decide_eq_true first)
      rw [skipped] at left
      rw [Item.bytes, whole, cons_append, parse, if_pos first, run, ← whole, calm.emitText before .text decoded ascii.nonzero]
      rw [if_neg (not_not.mpr rfl), left]
      rfl
  | comment text =>
    obtain ⟨absent, ascii⟩ := fair
    have found : findToken commentClose (text ++ (commentClose ++ rest)) = some text.length :=
      findToken_written (by decide) rest absent
    have shape : Item.bytes (.comment text) ++ rest = lt :: (chars ['!', '-', '-'] ++ (text ++ (commentClose ++ rest))) := by
      simp [Item.bytes, commentOpen, chars, lt]
    have opened : commentOpen <+: lt :: (chars ['!', '-', '-'] ++ (text ++ (commentClose ++ rest))) := ⟨_, rfl⟩
    have place : (lt :: (chars ['!', '-', '-'] ++ (text ++ (commentClose ++ rest)))).drop 4 = text ++ (commentClose ++ rest) := rfl
    have after : (lt :: (chars ['!', '-', '-'] ++ (text ++ (commentClose ++ rest)))).drop (4 + text.length + 3) = rest := by
      rw [add_assoc, ← drop_drop, place, ← drop_drop, drop_left]
      rfl
    rw [shape, parse, if_neg (not_not.mpr rfl), if_pos opened, place, found]
    dsimp only
    rw [after, take_left, @Calm.emitText _ calm before .comment text text false rfl ascii.nonzero]
    exact if_neg (not_not.mpr rfl)
  | cdata text =>
    obtain ⟨absent, ascii⟩ := fair
    have found : findToken cdataClose (text ++ (cdataClose ++ rest)) = some text.length :=
      findToken_written (by decide) rest absent
    have shape : Item.bytes (.cdata text) ++ rest =
        lt :: (chars ['!', '[', 'C', 'D', 'A', 'T', 'A', '['] ++ (text ++ (cdataClose ++ rest))) := by
      simp [Item.bytes, cdataOpen, chars, lt]
    generalize tail : chars ['!', '[', 'C', 'D', 'A', 'T', 'A', '['] ++ (text ++ (cdataClose ++ rest)) = source at shape
    have opened : cdataOpen <+: lt :: source := ⟨text ++ (cdataClose ++ rest), by rw [← tail]; rfl⟩
    have comment : ¬commentOpen <+: lt :: source := by
      intro comment
      rw [← tail] at comment
      simp [commentOpen, chars, cons_prefix_cons] at comment
    have place : (lt :: source).drop 9 = text ++ (cdataClose ++ rest) := by
      rw [← tail]
      rfl
    have after : (lt :: source).drop (9 + text.length + 3) = rest := by
      rw [add_assoc, ← drop_drop, place, ← drop_drop, drop_left]
      rfl
    rw [shape, parse, if_neg (not_not.mpr rfl), if_neg comment, if_pos opened, place, found]
    dsimp only
    rw [after, take_left, @Calm.emitText _ calm before .cdata text text false rfl ascii.nonzero]
    exact if_neg (not_not.mpr rfl)
  | end_ name =>
    have named : IsName name := fair
    have small : (slash :: name).length < tagMax := by
      have few : name.length < nameMax := short
      unfold nameMax at few
      unfold tagMax
      rw [length_cons]
      omega
    have plain : ∀ b ∈ slash :: name, b ≠ quot ∧ b ≠ apos ∧ b ≠ gt := by
      intro b there
      rcases mem_cons.mp there with rfl | there
      · decide
      · have plain := nameChar_plain (named.plain there)
        exact ⟨plain.1, plain.2.1, plain.2.2.1⟩
    have found : findTagEnd none (slash :: name ++ gt :: rest) = some (slash :: name).length := findTagEnd_plain plain
    have shape : Item.bytes (.end_ name) ++ rest = lt :: (slash :: name ++ gt :: rest) := by simp [Item.bytes]
    rw [shape]
    exact parse_tag calm (by decide) (by decide) found (Nat.succ_ne_zero _) small (parseTag_end calm named short)
  | start name attrs selfClosing =>
    obtain ⟨named, few, values, small⟩ := fair
    have found := @findTagEnd_tag rest name named attrs
      (fun a there => ⟨(values a there).1, (values a there).2.2.nonzero⟩) selfClosing
    have shape : Item.bytes (.start name attrs selfClosing) ++ rest = lt :: (tagText name attrs selfClosing ++ gt :: rest) := by
      simp [Item.bytes]
    obtain ⟨ch, more, split, first, -⟩ := named.split
    obtain ⟨-, -, -, -, notBang, notQuestion, -⟩ := nameChar_plain first
    have head : tagText name attrs selfClosing = ch :: (more ++ (attrs.flatMap Attr.bytes ++ if selfClosing then [slash] else [])) := by
      rw [tagText, split]
      rfl
    have read := @parseTag_start name setting before calm attrs selfClosing ⟨named, few, values, small⟩ short
    rw [shape]
    rw [head] at found small read ⊢
    exact parse_tag calm notBang notQuestion found (Nat.succ_ne_zero _) small read

/-- A document of tags, texts, comments and CDATA sections is read as the events that it was
written from, and text is never too long for its buffer. -/
theorem parse_written (calm : Calm setting) {items : List Item} (fair : ∀ item ∈ items, item.Fair)
    (short : ∀ item ∈ items, item.Short) (apart : Apart items) :
    parse setting (items.flatMap Item.bytes) [] = (.ok, items.flatMap Item.events) ∧
      ∀ source outLen, source.length < outLen → ∃ text, decodeEntities source outLen = .ok text := by
  have document : ∀ before, parse setting (items.flatMap Item.bytes) before = (.ok, before ++ items.flatMap Item.events) := by
    induction items with
    | nil =>
      intro before
      rw [flatMap_nil, flatMap_nil, parse, append_nil]
    | cons item items ih =>
      intro before
      have later := ih (fun i there => fair i (mem_cons_of_mem _ there))
        (fun i there => short i (mem_cons_of_mem _ there)) apart.2
      have ends : item.isText = true → Stops (fun b => decide (b ≠ lt)) (items.flatMap Item.bytes) := by
        intro text
        cases items with
        | nil => rintro _ ⟨⟩
        | cons next items =>
          have other := apart.1 text next rfl
          cases next with
          | text => cases other
          | start | end_ | comment | cdata => exact stops_cons (by decide) _
      rw [flatMap_cons, flatMap_cons, parse_item calm (fair item mem_cons_self) (short item mem_cons_self) ends,
        later, append_assoc]
  refine ⟨by rw [document, nil_append], fun source outLen room => ?_⟩
  rw [decodeEntities, if_neg (by omega)]
  exact decodeFrom_fits (by rwa [length_nil, zero_add])

def calmSetting : Setting := ⟨fun _ _ => true, fun _ _ => .ok⟩

theorem calmSetting_calm : Calm calmSetting := ⟨fun _ _ => rfl, fun _ _ => rfl⟩

/-- Two texts with nothing between them are read as one. -/
theorem texts_merged : ¬∀ items : List Item, (∀ item ∈ items, item.Fair) →
    parse calmSetting (items.flatMap Item.bytes) [] = (.ok, items.flatMap Item.events) := by
  intro claimed
  have ascii : ∀ ch ∈ [0x61, 0x62], Ascii [ch] := by
    intro ch there b is
    rw [mem_singleton.mp is]
    have all : ∀ ch ∈ [(0x61 : UInt8), 0x62], ch ≠ 0 ∧ ch < 0x80 := by decide
    exact all ch there
  have two := claimed [.text [0x61], .text [0x62]] (by
    intro item there
    rcases mem_cons.mp there with rfl | there
    · exact ⟨cons_ne_nil _ _, ascii 0x61 mem_cons_self⟩
    · rw [mem_singleton.mp there]
      exact ⟨cons_ne_nil _ _, ascii 0x62 (mem_cons_of_mem _ mem_cons_self)⟩)
  have one := @parse_item [] calmSetting [] calmSetting_calm (.text [0x61, 0x62])
    ⟨cons_ne_nil _ _, by
      intro b there
      revert b
      decide⟩ trivial nofun
  rw [append_nil, parse] at one
  have same : [Item.text [0x61], .text [0x62]].flatMap Item.bytes = Item.bytes (.text [0x61, 0x62]) := by decide
  rw [same, one] at two
  have events := (Prod.mk.inj two).2
  cases events

theorem parse_written_first : parse calmSetting ([Item.start [0x61] [⟨[0x62], [quot]⟩] true].flatMap Item.bytes) [] =
        (.ok, [Item.start [0x61] [⟨[0x62], [quot]⟩] true].flatMap Item.events) ∧
      ∀ source outLen, source.length < outLen → ∃ text, decodeEntities source outLen = .ok text := by
  have value : Ascii [quot] := by
    intro b there
    rw [mem_singleton.mp there]
    decide
  refine parse_written calmSetting_calm ?_ ?_ ⟨nofun, trivial⟩
  · intro item there
    rw [mem_singleton.mp there]
    refine ⟨⟨cons_ne_nil _ _, by decide⟩, by decide, fun a within => ?_, by decide⟩
    rw [mem_singleton.mp within]
    exact ⟨⟨cons_ne_nil _ _, by decide⟩, by decide, value⟩
  · intro item there
    rw [mem_singleton.mp there]
    refine ⟨by decide, fun a within => ?_⟩
    rw [mem_singleton.mp within]
    decide

end SolarOs.Xml
