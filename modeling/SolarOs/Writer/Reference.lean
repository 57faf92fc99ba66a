import SolarOs.Writer.Records

/-! The buffer as a list of versions with a cursor: any calls, with allocations failing
anywhere, act on the buffer as they act on the versions. -/
namespace SolarOs.Writer
open EditHistory List

inductive Call where
  | set (text : Text)
  | replace (offset removeLen : Nat) (insert : Text) (cursorBefore cursorAfter : Nat)
  | undo
  | redo

/-- An error code, or the cursor of a history step that was made. -/
inductive Outcome where
  | returned (e : EspErr)
  | moved (cursor : Option Nat)

def call (b : Buffer) : Call × Grants → Buffer × Outcome
  | (.set text, g) => ((set b text g).1, .returned (set b text g).2)
  | (.replace offset removeLen insert before after, g) =>
    ((replace b offset removeLen insert before after g).1,
      .returned (replace b offset removeLen insert before after g).2)
  | (.undo, g) => ((undo b g).1, .moved (undo b g).2)
  | (.redo, g) => ((redo b g).1, .moved (redo b g).2)

def after (b : Buffer) : List (Call × Grants) → Buffer
  | [] => b
  | c :: calls => after (call b c).1 calls

def outcomes (b : Buffer) : List (Call × Grants) → List Outcome
  | [] => []
  | c :: calls => (call b c).2 :: outcomes (call b c).1 calls

/-- The recorded versions of a text; the cursor stands at the current one. -/
structure Reference where
  versions : List Text
  cursor : Nat
  inside : cursor < versions.length

namespace Reference

def text (r : Reference) : Text := getElem r.versions r.cursor r.inside

def only (t : Text) : Reference where
  versions := [t]
  cursor := 0
  inside := Nat.zero_lt_one

/-- What one call does to the versions. A replacement forgets the versions behind the
cursor; a call fails for the reasons given here only. -/
inductive Step (r : Reference) (g : Grants) : Call → Outcome → Reference → Prop
  | set {t : Text} (fits : t.length ≤ maxBytes) : Step r g (.set t) (.returned .ok) (only t)
  | setLarge {t : Text} (large : maxBytes < t.length) :
      Step r g (.set t) (.returned .invalidSize) r
  | setRefused {t : Text} (refused : g.data = false) :
      Step r g (.set t) (.returned .noMem) (only [])
  | replace {offset removeLen before after : Nat} {insert : Text} {r' : Reference}
      (inside : offset + removeLen ≤ r.text.length)
      (kept : Succeeds (r.versions.take (r.cursor + 1)) (splice r.text offset removeLen insert)
        r'.versions)
      (newest : r'.cursor + 1 = r'.versions.length)
      (text_eq : r'.text = splice r.text offset removeLen insert) :
      Step r g (.replace offset removeLen insert before after) (.returned .ok) r'
  | replaceNothing {offset before after : Nat} (inside : offset ≤ r.text.length) :
      Step r g (.replace offset 0 [] before after) (.returned .ok) r
  | replaceOutside {offset removeLen before after : Nat} {insert : Text}
      (outside : r.text.length < offset + removeLen) :
      Step r g (.replace offset removeLen insert before after) (.returned .invalidArg) r
  | replaceLarge {offset removeLen before after : Nat} {insert : Text}
      (large : maxBytes < (splice r.text offset removeLen insert).length) :
      Step r g (.replace offset removeLen insert before after) (.returned .invalidSize) r
  | replaceRefused {offset removeLen before after : Nat} {insert : Text}
      (refused : g.removed = false ∨ g.inserted = false ∨ g.data = false ∨
        objectMax < insert.length) :
      Step r g (.replace offset removeLen insert before after) (.returned .noMem) r
  | undo {r' : Reference} (same : r'.versions = r.versions) (back : r'.cursor + 1 = r.cursor)
      (cursor : Nat) : Step r g .undo (.moved (some cursor)) r'
  | undoNone (stays : r.cursor = 0 ∨ g.data = false) : Step r g .undo (.moved none) r
  | redo {r' : Reference} (same : r'.versions = r.versions) (forth : r'.cursor = r.cursor + 1)
      (cursor : Nat) : Step r g .redo (.moved (some cursor)) r'
  | redoNone (stays : r.cursor + 1 = r.versions.length ∨ g.data = false) :
      Step r g .redo (.moved none) r

end Reference

/-- The buffer holds the current version, and its records link the versions. -/
structure Relates (b : Buffer) (r : Reference) : Prop where
  shaped : Shaped b
  text_eq : text b = r.text
  cursor : b.undoCursor = r.cursor
  journal : Journal b r.versions r.text
  bounded : Bounded b
  fits : ∀ v ∈ r.versions, v.length ≤ maxBytes

theorem Bounded.congr {b b' : Buffer} (h : Bounded b) (same : SameUndo b b') : Bounded b' where
  payload := by rw [same.payload]; exact h.payload
  count := by rw [same.undo]; exact h.count

variable {b : Buffer} {r : Reference} {g : Grants}

theorem Relates.text_length_le (h : Relates b r) : r.text.length ≤ maxBytes :=
  h.fits r.text (getElem_mem r.inside)

theorem Relates.only {t : Text} (shaped : Shaped b) (text_eq : text b = t) (undo : b.undo = [])
    (cursor : b.undoCursor = 0) (payload : b.undoPayload = 0) : Relates b (.only t) where
  shaped := shaped
  text_eq := text_eq
  cursor := cursor
  journal := .fresh undo cursor payload t
  bounded := by
    constructor
    · rw [payload]
      exact Nat.zero_le _
    · rw [undo]
      exact Nat.zero_le _
  fits v hv := by
    cases mem_singleton.mp hv
    rw [← text_eq]
    exact Writer.text_length_le shaped

theorem Relates.spliced {b' : Buffer} {ret : EspErr} {offset removeLen : Nat} {insert : Text}
    (h : Relates b r) (spliced : Spliced b offset removeLen insert g (b', ret)) :
    (ret = .ok → offset + removeLen ≤ r.text.length ∧ Shaped b' ∧
      text b' = splice r.text offset removeLen insert ∧ SameUndo b b') ∧
    (ret ≠ .ok → b' = b ∧ (ret = .invalidArg ∧ r.text.length < offset + removeLen ∨
      ret = .invalidSize ∧ maxBytes < (splice r.text offset removeLen insert).length ∨
      ret = .noMem ∧ g.data = false)) := by
  rw [← h.text_eq]
  cases spliced with
  | done shaped inside text_eq undo =>
    exact ⟨fun _ => ⟨inside, shaped, text_eq, undo⟩, fun no => absurd rfl no⟩
  | outside out => exact ⟨nofun, fun _ => ⟨rfl, .inl ⟨rfl, out⟩⟩⟩
  | large inside long => exact ⟨nofun, fun _ => ⟨rfl, .inr (.inl ⟨rfl, long⟩)⟩⟩
  | refused inside grant => exact ⟨nofun, fun _ => ⟨rfl, .inr (.inr ⟨rfl, grant⟩)⟩⟩

theorem Relates.stepped {b' : Buffer} {e : Edit UInt8} {place : Nat} {next : Text} (h : Relates b r)
    (lead : e.Leads r.text next) (there : r.versions[place]? = some next)
    (spliced : Spliced b e.offset e.removed.length e.inserted g (b', .ok)) :
    ∃ r' : Reference, r'.versions = r.versions ∧ r'.cursor = place ∧
      Relates { b' with undoCursor := place } r' := by
  obtain ⟨-, shaped, text_eq, undo⟩ := (h.spliced spliced).1 rfl
  obtain ⟨inside, here⟩ := List.getElem?_eq_some_iff.mp there
  have same : SameText b' { b' with undoCursor := place } := ⟨rfl, rfl, rfl, rfl⟩
  refine ⟨⟨r.versions, place, inside⟩, rfl, rfl, shaped.congr same, ?_, rfl, ?_, ?_, h.fits⟩
  · exact same.text_eq.trans (text_eq.trans (lead.splice.trans here.symm))
  · have journal := h.journal.congr undo
    refine ⟨journal.chain, ?_, journal.payload, journal.storage⟩
    rw [Reference.text, here]
    exact there
  · exact ⟨(h.bounded.congr undo).payload, (h.bounded.congr undo).count⟩

theorem Relates.refused {b' : Buffer} {ret : EspErr} {e : Edit UInt8} {next : Text}
    (h : Relates b r) (lead : e.Leads r.text next) (fits : next.length ≤ maxBytes)
    (spliced : Spliced b e.offset e.removed.length e.inserted g (b', ret)) (failed : ret ≠ .ok) :
    b' = b ∧ g.data = false := by
  obtain ⟨same, out | large | refused⟩ := (h.spliced spliced).2 failed
  · exact absurd lead.le_length (Nat.not_le_of_lt out.2)
  · rw [lead.splice] at large
    exact absurd fits (Nat.not_le_of_lt large.2)
  · exact ⟨same, refused.2⟩

theorem Reference.Step.version {r' : Reference} {c : Call} {o : Outcome} (step : Step r g c o r') :
    ∀ v ∈ r'.versions, v ∈ r.versions ∨ v = r'.text := by
  intro v hv
  cases step with
  | set | setRefused => exact .inr (mem_singleton.mp hv)
  | replace _ kept _ text_eq =>
    rw [text_eq]
    exact (kept.mem hv).imp_left mem_of_mem_take
  | undo same _ _ => exact .inl (same ▸ hv)
  | redo same _ _ => exact .inl (same ▸ hv)
  | setLarge => exact .inl hv
  | replaceNothing => exact .inl hv
  | replaceOutside => exact .inl hv
  | replaceLarge => exact .inl hv
  | replaceRefused => exact .inl hv
  | undoNone => exact .inl hv
  | redoNone => exact .inl hv

end SolarOs.Writer
