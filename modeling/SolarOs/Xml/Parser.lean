import SolarOs.Esp
import SolarOs.Library.CString

/-! The XML reader: tags, their attributes, text with entities, comments and CDATA, and the
events that they become. -/
namespace SolarOs.Xml
open Ctype List

abbrev Bytes := List UInt8

def chars (s : List Char) : Bytes := s.map fun c => UInt8.ofNat c.toNat

def tagMax : Nat := 768
def nameMax : Nat := 64
def attrValueMax : Nat := 256
def maxAttrs : Nat := 16

def lt : UInt8 := 0x3c
def gt : UInt8 := 0x3e
def amp : UInt8 := 0x26
def quot : UInt8 := 0x22
def apos : UInt8 := 0x27
def slash : UInt8 := 0x2f
def semicolon : UInt8 := 0x3b

/-- `xml_append_char`: what is then in a buffer of `outLen` bytes, and whether it fitted. -/
def appendChar (outLen : Nat) (out : Bytes) (ch : UInt8) : Bytes × Bool :=
  if outLen ≤ out.length + 1 then (out, false) else (out ++ [ch], true)

def appendUtf8OrAscii (outLen : Nat) (out : Bytes) (value : UInt32) : Bytes × Bool :=
  if value = 0 then (out, true)
  else if value < 0x80 then appendChar outLen out value.toUInt8
  else appendChar outLen out 0x3f

def appendText (outLen : Nat) (out : Bytes) : Bytes → Bytes × Bool
  | [] => (out, true)
  | ch :: text =>
    let r := appendChar outLen out ch
    if r.2 then appendText outLen r.1 text else (r.1, false)

/-- The entities with a name, in the order in which they are looked up. -/
def namedEntities : List (Bytes × Bytes) :=
  [(chars ['l', 't'], [lt]), (chars ['g', 't'], [gt]), (chars ['a', 'm', 'p'], [amp]), (chars ['q', 'u', 'o', 't'], [quot]),
    (chars ['a', 'p', 'o', 's'], [apos]), (chars ['n', 'b', 's', 'p'], [0x20]), (chars ['l', 's', 'q', 'u', 'o'], [apos]),
    (chars ['r', 's', 'q', 'u', 'o'], [apos]), (chars ['l', 'd', 'q', 'u', 'o'], [quot]),
    (chars ['r', 'd', 'q', 'u', 'o'], [quot]), (chars ['n', 'd', 'a', 's', 'h'], [0x2d]),
    (chars ['m', 'd', 'a', 's', 'h'], [0x2d]), (chars ['h', 'e', 'l', 'l', 'i', 'p'], chars ['.', '.', '.']),
    (chars ['b', 'u', 'l', 'l'], [0x2a]), (chars ['c', 'o', 'p', 'y'], chars ['(', 'c', ')']),
    (chars ['r', 'e', 'g'], chars ['(', 'r', ')']), (chars ['t', 'r', 'a', 'd', 'e'], chars ['T', 'M'])]

def isHexDigit (ch : UInt8) : Bool := isDigit ch || (0x61 ≤ toLower ch && toLower ch ≤ 0x66)

/-- The number of a character reference. -/
def charNumber (hex : Bool) : UInt32 → Bytes → Option UInt32
  | value, [] => some value
  | value, ch :: rest =>
    if hex && isHexDigit ch then
      charNumber hex (value * 16 + if isDigit ch then ch.toUInt32 - 0x30 else (toLower ch).toUInt32 - 0x61 + 10) rest
    else if !hex && isDigit ch then charNumber hex (value * 10 + (ch.toUInt32 - 0x30)) rest
    else none

/-- `xml_decode_entity` of what follows an ampersand: how many bytes the entity takes, and what
is then in the buffer. -/
def decodeEntity (outLen : Nat) (source out : Bytes) : Option Nat × Bytes :=
  let len := min (source.takeWhile (· ≠ semicolon)).length 16
  let name := source.take len
  let taken := fun r : Bytes × Bool => (if r.2 then some (len + 1) else none, r.1)
  if source[len]? ≠ some semicolon then (none, out)
  else
    match namedEntities.find? fun e => e.1.length = len ∧ name.map toLower = e.1 with
    | some e => taken (appendText outLen out e.2)
    | none =>
      if 1 < len ∧ name.head? = some 0x23 then
        let digits := name.drop 1
        let hex := digits.head? = some 0x78 ∨ digits.head? = some 0x58
        match charNumber hex 0 (if hex then digits.drop 1 else digits) with
        | none => (none, out)
        | some value => taken (appendUtf8OrAscii outLen out value)
      else (none, out)

/-- The loop of `solar_os_xml_decode_entities`. -/
def decodeFrom (outLen : Nat) (source out : Bytes) : Except EspErr Bytes :=
  match source with
  | [] => .ok out
  | ch :: rest =>
    let r := if ch = amp then decodeEntity outLen rest out else (none, out)
    match r.1 with
    | some taken => decodeFrom outLen (rest.drop taken) r.2
    | none =>
      let appended := appendChar outLen r.2 ch
      if appended.2 then decodeFrom outLen rest appended.1 else .error .invalidSize
termination_by source.length
decreasing_by
  · rw [length_drop, length_cons]; omega
  · exact Nat.lt_succ_self _

/-- `solar_os_xml_decode_entities` into a buffer that there is. -/
def decodeEntities (source : Bytes) (outLen : Nat) : Except EspErr Bytes :=
  if outLen = 0 then .error .invalidArg else decodeFrom outLen source []

def nameChar (first : Bool) (ch : UInt8) : Bool :=
  isAlpha ch || ch = 0x5f || ch = 0x3a || (!first && (isDigit ch || ch = 0x2d || ch = 0x2e))

def leadingName : Bytes → Bytes
  | [] => []
  | ch :: rest => if nameChar true ch then ch :: rest.takeWhile (nameChar false) else []

variable (cursor : Bytes)

/-- `xml_copy_name`: the name as far as it fits, and what follows it. -/
def copyName : Bytes × Bytes :=
  ((leadingName cursor).take (nameMax - 1), cursor.drop (leadingName cursor).length)

def skipSpace : Bytes := cursor.dropWhile isSpace

def copyAttrValue : Except EspErr Bytes × Bytes :=
  match cursor with
  | [] => (decodeEntities [] attrValueMax, [])
  | ch :: rest =>
    if ch = quot ∨ ch = apos then
      (decodeEntities ((rest.takeWhile (· ≠ ch)).take (attrValueMax - 1)) attrValueMax, (rest.dropWhile (· ≠ ch)).drop 1)
    else
      let bare := fun c => !(isSpace c || c = slash)
      (decodeEntities ((cursor.takeWhile bare).take (attrValueMax - 1)) attrValueMax, cursor.dropWhile bare)

structure Attr where
  name : Bytes
  value : Bytes
  deriving DecidableEq

inductive Event where
  | start (name : Bytes) (attrs : List Attr) (selfClosing : Bool)
  | end_ (name : Bytes)
  | text (text : Bytes)
  | cdata (text : Bytes)
  | comment (text : Bytes)
  | pi (text : Bytes)
  deriving DecidableEq

theorem copyName_shorter {cursor : Bytes} (some : (copyName cursor).1 ≠ []) : (copyName cursor).2.length < cursor.length := by
  have long : (leadingName cursor).length ≠ 0 := by
    intro none
    rw [copyName, length_eq_zero_iff.mp none] at some
    exact some rfl
  have nonempty : cursor.length ≠ 0 := by
    intro none
    rw [length_eq_zero_iff.mp none] at long
    exact long rfl
  rw [copyName, length_drop]
  omega

theorem length_skipSpace_le : (skipSpace cursor).length ≤ cursor.length :=
  (dropWhile_suffix isSpace).length_le

theorem length_copyAttrValue_le : (copyAttrValue cursor).2.length ≤ cursor.length := by
  cases cursor with
  | nil => exact Nat.le_refl 0
  | cons ch rest =>
    unfold copyAttrValue
    dsimp only
    split
    · have less := (dropWhile_suffix (l := rest) (p := (· ≠ ch))).length_le
      rw [length_drop, length_cons]
      omega
    · exact (dropWhile_suffix _).length_le

/-- The attributes of a start tag, and whether it closes itself. -/
def parseAttrs (cursor : Bytes) (attrs : List Attr) : Except EspErr (List Attr × Bool) :=
  match here : skipSpace cursor with
  | [] => .ok (attrs, false)
  | ch :: rest =>
    if ch = slash then (if skipSpace rest = [] then .ok (attrs, true) else .error .invalidResponse)
    else if some : (copyName (ch :: rest)).1 = [] then .error .invalidResponse
    else
      match equals : skipSpace (copyName (ch :: rest)).2 with
      | [] => .error .invalidResponse
      | eq :: after =>
        if eq ≠ 0x3d then .error .invalidResponse
        else
          match (copyAttrValue (skipSpace after)).1 with
          | .error error => .error error
          | .ok value =>
            parseAttrs (copyAttrValue (skipSpace after)).2
              (if attrs.length < maxAttrs then attrs ++ [⟨(copyName (ch :: rest)).1, value⟩] else attrs)
termination_by cursor.length
decreasing_by
  have one := length_skipSpace_le cursor
  have two := copyName_shorter some
  have three := length_skipSpace_le (copyName (ch :: rest)).2
  have four := length_skipSpace_le after
  have five := length_copyAttrValue_le (skipSpace after)
  rw [here] at one
  rw [equals, length_cons] at three
  omega

/-- What the allocations and the callback answer, which may depend on the events before. -/
structure Setting where
  alloc : List Event → Nat → Bool
  callback : List Event → Event → EspErr

/-- The error that ends the parse or none, and the events so far. -/
abbrev Out := EspErr × List Event

variable (setting : Setting)

variable (events : List Event)

def emit (event : Event) : Out :=
  (setting.callback events event, events ++ [event])

def attrsSize : Nat := maxAttrs * (nameMax + attrValueMax)

def parseStartTag (tag : Bytes) : Out :=
  let r := copyName (skipSpace tag)
  if r.1 = [] then (.invalidResponse, events)
  else if setting.alloc events attrsSize = false then (.noMem, events)
  else
    match parseAttrs r.2 [] with
    | .error error => (error, events)
    | .ok (attrs, selfClosing) =>
      let out := emit setting events (.start r.1 attrs selfClosing)
      if out.1 ≠ .ok ∨ selfClosing = false then out else emit setting out.2 (.end_ r.1)

/-- The part of `solar_os_xml_parse` that reads what is between the brackets of a tag. -/
def parseTag (tag : Bytes) : Out :=
  -- the copy of the tag is a string, which ends at the first zero byte
  let tag := tag.takeWhile (· ≠ 0)
  match skipSpace tag with
  | ch :: rest =>
    if ch = slash then
      let name := (copyName (skipSpace rest)).1
      if name = [] then (.invalidResponse, events) else emit setting events (.end_ name)
    else parseStartTag setting events tag
  | [] => parseStartTag setting events tag

def emitText (event : Bytes → Event) (source : Bytes) (decode : Bool) : Out :=
  if setting.alloc events (source.length + 1) = false then (.noMem, events)
  else
    match (if decode then decodeEntities source (source.length + 1) else .ok source) with
    | .error error => (error, events)
    | .ok text => emit setting events (event (text.takeWhile (· ≠ 0)))

/-- `xml_find_token` in what is left of the source. -/
def findToken (token : Bytes) : Bytes → Option Nat
  | [] => none
  | ch :: rest => if token <+: ch :: rest then some 0 else (findToken token rest).map (· + 1)

def findTagEnd : Option UInt8 → Bytes → Option Nat
  | _, [] => none
  | some quote, ch :: rest => (findTagEnd (if ch = quote then none else some quote) rest).map (· + 1)
  | none, ch :: rest =>
    if ch = quot ∨ ch = apos then (findTagEnd (some ch) rest).map (· + 1)
    else if ch = gt then some 0
    else (findTagEnd none rest).map (· + 1)

def commentOpen : Bytes := chars ['<', '!', '-', '-']
def commentClose : Bytes := chars ['-', '-', '>']
def cdataOpen : Bytes := chars ['<', '!', '[', 'C', 'D', 'A', 'T', 'A', '[']
def cdataClose : Bytes := chars [']', ']', '>']
def piOpen : Bytes := chars ['<', '?']
def piClose : Bytes := chars ['?', '>']
def declarationOpen : Bytes := chars ['<', '!']

/-- `solar_os_xml_parse` of what is left of the source. -/
def parse (setting : Setting) (source : Bytes) (events : List Event) : Out :=
  match source with
  | [] => (.ok, events)
  | ch :: rest =>
    if ch ≠ lt then
      let out := emitText setting events .text ((ch :: rest).takeWhile (· ≠ lt)) true
      if out.1 ≠ .ok then out else parse setting (rest.dropWhile (· ≠ lt)) out.2
    else if commentOpen <+: ch :: rest then
      match findToken commentClose ((ch :: rest).drop 4) with
      | none => (.invalidResponse, events)
      | some n =>
        let out := emitText setting events .comment (((ch :: rest).drop 4).take n) false
        if out.1 ≠ .ok then out else parse setting ((ch :: rest).drop (4 + n + 3)) out.2
    else if cdataOpen <+: ch :: rest then
      match findToken cdataClose ((ch :: rest).drop 9) with
      | none => (.invalidResponse, events)
      | some n =>
        let out := emitText setting events .cdata (((ch :: rest).drop 9).take n) false
        if out.1 ≠ .ok then out else parse setting ((ch :: rest).drop (9 + n + 3)) out.2
    else if piOpen <+: ch :: rest then
      match findToken piClose ((ch :: rest).drop 2) with
      | none => (.invalidResponse, events)
      | some n =>
        let out := emitText setting events .pi (((ch :: rest).drop 2).take n) false
        if out.1 ≠ .ok then out else parse setting ((ch :: rest).drop (2 + n + 2)) out.2
    else if declarationOpen <+: ch :: rest then
      match findTagEnd none ((ch :: rest).drop 2) with
      | none => (.invalidResponse, events)
      | some n => parse setting ((ch :: rest).drop (2 + n + 1)) events
    else
      match findTagEnd none rest with
      | none => (.invalidResponse, events)
      | some n =>
        if n = 0 ∨ tagMax ≤ n then (.invalidSize, events)
        else if setting.alloc events (n + 1) = false then (.noMem, events)
        else
          let out := parseTag setting events (rest.take n)
          if out.1 ≠ .ok then out else parse setting (rest.drop (n + 1)) out.2
termination_by source.length
decreasing_by
  · exact Nat.lt_succ_of_le (dropWhile_suffix _).length_le
  all_goals
    rw [length_drop]
    try rw [length_cons]
    omega

end SolarOs.Xml
