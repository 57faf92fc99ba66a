import Mathlib.Data.List.Basic

/-! The grammar of JSON texts over bytes, with the nesting of arrays and objects. -/
namespace JsonGrammar

def Space (t : List UInt8) : Prop := ∀ b ∈ t, b ∈ [0x20, 0x09, 0x0a, (0x0d : UInt8)]

def isDigit (b : UInt8) : Bool := 0x30 ≤ b && b ≤ 0x39

def isHex (b : UInt8) : Bool := isDigit b || (0x41 ≤ b && b ≤ 0x46) || (0x61 ≤ b && b ≤ 0x66)

def escapes : List (UInt8 × UInt8) :=
  [(0x22, 0x22), (0x5c, 0x5c), (0x2f, 0x2f), (0x62, 0x08), (0x66, 0x0c), (0x6e, 0x0a), (0x72, 0x0d), (0x74, 0x09)]

/-- The inside of a string and its bytes, where an escape with a code point is left open. -/
inductive Chars : List UInt8 → List (Option UInt8) → Prop
  | nil : Chars [] []
  | raw {b : UInt8} {t : List UInt8} {v : List (Option UInt8)} : 0x20 ≤ b → b ≠ 0x22 → b ≠ 0x5c →
      Chars t v → Chars (b :: t) (some b :: v)
  | escape {e b : UInt8} {t : List UInt8} {v : List (Option UInt8)} : (e, b) ∈ escapes →
      Chars t v → Chars (0x5c :: e :: t) (some b :: v)
  | codePoint {h₁ h₂ h₃ h₄ : UInt8} {t : List UInt8} {v : List (Option UInt8)} :
      (∀ h ∈ [h₁, h₂, h₃, h₄], isHex h = true) →
      Chars t v → Chars (0x5c :: 0x75 :: h₁ :: h₂ :: h₃ :: h₄ :: t) (none :: v)

section
variable (t : List UInt8)

def quoted : List UInt8 := 0x22 :: (t ++ [0x22])

def Digits : Prop := t ≠ [] ∧ ∀ b ∈ t, isDigit b = true

def Sign : Prop := t = [] ∨ t = [0x2d]

def Whole : Prop := t = [0x30] ∨ (Digits t ∧ t.head? ≠ some 0x30)

def Fraction : Prop := t = [] ∨ ∃ d, Digits d ∧ t = 0x2e :: d

def Exponent : Prop :=
  t = [] ∨ ∃ e s d, (e = 0x65 ∨ e = 0x45) ∧ (Sign s ∨ s = [0x2b]) ∧ Digits d ∧ t = e :: (s ++ d)

def Number : Prop :=
  ∃ s w f e, Sign s ∧ Whole w ∧ Fraction f ∧ Exponent e ∧ t = s ++ w ++ f ++ e

end

/-- `true`, `false` and `null`. -/
def literals : List (List UInt8) :=
  [[0x74, 0x72, 0x75, 0x65], [0x66, 0x61, 0x6c, 0x73, 0x65], [0x6e, 0x75, 0x6c, 0x6c]]

inductive Kind where
  | value
  | elements
  | members

/-- The texts of each kind whose arrays and objects nest so deep at most. -/
inductive Derives : Kind → Nat → List UInt8 → Prop
  | literal {n : Nat} {t : List UInt8} : t ∈ literals → Derives .value n t
  | number {n : Nat} {t : List UInt8} : Number t → Derives .value n t
  | string {n : Nat} {t : List UInt8} {v : List (Option UInt8)} : Chars t v → Derives .value n (quoted t)
  | emptyArray {n : Nat} {w : List UInt8} : Space w → Derives .value (n + 1) (0x5b :: (w ++ [0x5d]))
  | array {n : Nat} {t : List UInt8} : Derives .elements n t → Derives .value (n + 1) (0x5b :: (t ++ [0x5d]))
  | emptyObject {n : Nat} {w : List UInt8} : Space w → Derives .value (n + 1) (0x7b :: (w ++ [0x7d]))
  | object {n : Nat} {t : List UInt8} : Derives .members n t → Derives .value (n + 1) (0x7b :: (t ++ [0x7d]))
  | element {n : Nat} {a t b : List UInt8} : Space a → Derives .value n t → Space b →
      Derives .elements n (a ++ (t ++ b))
  | elements {n : Nat} {a t b rest : List UInt8} : Space a → Derives .value n t → Space b →
      Derives .elements n rest → Derives .elements n (a ++ (t ++ (b ++ 0x2c :: rest)))
  | member {n : Nat} {a k b c t d : List UInt8} {v : List (Option UInt8)} : Space a → Chars k v → Space b →
      Space c → Derives .value n t → Space d →
      Derives .members n (a ++ (quoted k ++ (b ++ 0x3a :: (c ++ (t ++ d)))))
  | members {n : Nat} {a k b c t d rest : List UInt8} {v : List (Option UInt8)} : Space a → Chars k v → Space b →
      Space c → Derives .value n t → Space d → Derives .members n rest →
      Derives .members n (a ++ (quoted k ++ (b ++ 0x3a :: (c ++ (t ++ (d ++ 0x2c :: rest))))))

/-- A member of an object, with the spaces around its parts. -/
structure Member (n : Nat) where
  before : List UInt8
  key : List UInt8
  name : List (Option UInt8)
  between : List UInt8
  gap : List UInt8
  value : List UInt8
  after : List UInt8
  spaces : Space before ∧ Space between ∧ Space gap ∧ Space after
  keyed : Chars key name
  derives : Derives .value n value

variable {n : Nat}

def Member.lead (m : Member n) : List UInt8 := m.before ++ (quoted m.key ++ (m.between ++ 0x3a :: m.gap))

def following : List (Member n) → List UInt8
  | [] => [0x7d]
  | m :: ms => 0x2c :: (m.lead ++ (m.value ++ (m.after ++ following ms)))

def body : Member n → List (Member n) → List UInt8
  | m, ms => m.lead ++ (m.value ++ (m.after ++ following ms))

/-- The texts of objects after the opening bracket, by their members. -/
inductive Inside : List (Member n) → List UInt8 → Prop
  | empty {w : List UInt8} : Space w → Inside [] (w ++ [0x7d])
  | some (m : Member n) (ms : List (Member n)) : Inside (m :: ms) (body m ms)

def valueOf (name : List (Option UInt8)) : List (Member n) → Option (List UInt8)
  | [] => none
  | m :: ms => if m.name = name then some (m.value ++ (m.after ++ following ms)) else valueOf name ms

theorem Derives.split {t : List UInt8} (h : Derives .members n t) :
    ∃ (m : Member n) (ms : List (Member n)), t ++ [0x7d] = body m ms := by
  generalize members : Kind.members = kind at h
  induction h with
  | member before keyed between gap derives after =>
    refine ⟨⟨_, _, _, _, _, _, _, ⟨before, between, gap, after⟩, keyed, derives⟩, [], ?_⟩
    simp only [body, following, Member.lead, List.append_assoc, List.cons_append]
  | members before keyed between gap derives after _ _ ih =>
    obtain ⟨m, ms, rest⟩ := ih members
    refine ⟨⟨_, _, _, _, _, _, _, ⟨before, between, gap, after⟩, keyed, derives⟩, m :: ms, ?_⟩
    simp only [body, following, Member.lead, List.append_assoc, List.cons_append] at rest ⊢
    rw [rest]
  | _ => exact nomatch members

theorem Derives.inside {t : List UInt8} (h : Derives .value (n + 1) (0x7b :: t)) :
    ∃ ms : List (Member n), Inside ms t := by
  generalize object : (0x7b :: t : List UInt8) = u at h
  cases h with
  | literal known =>
    subst object
    have every : ∀ t ∈ literals, t.head? ≠ some 0x7b := by decide
    exact absurd rfl (every _ known)
  | number number =>
    obtain ⟨s, w, f, e, sign, whole, -, -, rfl⟩ := number
    have start : ∀ b u, s ++ w = b :: u → b ≠ 0x7b := by
      rintro b u split rfl
      have digit : ∀ u, ¬(Whole (0x7b :: u)) := by
        rintro u (zero | ⟨digits, -⟩)
        · cases zero
        · exact absurd (digits.2 _ List.mem_cons_self) (by decide)
      rcases sign with rfl | rfl
      · exact digit u (split ▸ whole)
      · cases split
    cases split : s ++ w with
    | nil =>
      have none : w = [] := (List.append_eq_nil_iff.mp split).2
      rcases whole with zero | ⟨digits, -⟩
      · exact nomatch none.symm.trans zero
      · exact absurd none digits.1
    | cons b u =>
      rw [split] at object
      exact absurd (List.cons.inj object).1.symm (start b u split)
  | string => cases object
  | emptyArray => cases object
  | array => cases object
  | emptyObject space =>
    cases object
    exact ⟨[], .empty space⟩
  | object members =>
    cases object
    obtain ⟨m, ms, split⟩ := members.split
    exact ⟨m :: ms, split ▸ .some m ms⟩

end JsonGrammar
