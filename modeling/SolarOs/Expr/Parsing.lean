import SolarOs.Expr.Tree

/-! Whatever the parser builds is the layout of a tree, and its recursion is never cut off. -/
namespace SolarOs.Expr
open List Option

variable {F : Type}

section Cursor

variable {p : Parser F} {digit : UInt8 → Bool} {text rest : List UInt8}

theorem space_le (p : Parser F) : p.space.cursor.length ≤ p.cursor.length := (dropWhile_suffix _).length_le

theorem advance_lt {ch : UInt8} (here : p.peek = ch) (some : ch ≠ 0) : p.advance.cursor.length < p.cursor.length := by
  cases cursor : p.cursor with
  | nil =>
    rw [Parser.peek, cursor] at here
    exact absurd here.symm some
  | cons c rest =>
    rw [Parser.advance, cursor]
    exact Nat.lt_succ_self _

theorem fail_cursor (p : Parser F) (message : String) : (p.fail message).cursor = p.cursor := by
  unfold Parser.fail
  split <;> rfl

theorem fail_nodes (p : Parser F) (message : String) : (p.fail message).nodes = p.nodes := by
  unfold Parser.fail
  split <;> rfl

theorem mantissa_lt (h : mantissa digit text = some rest) : rest.length < text.length := by
  have whole : (text.dropWhile digit).length ≤ text.length := (dropWhile_suffix _).length_le
  unfold mantissa at h
  dsimp only at h
  split at h
  · rename_i more split
    have after : (more.dropWhile digit).length ≤ more.length := (dropWhile_suffix _).length_le
    split at h
    · exact nomatch h
    · cases h
      rw [split, length_cons] at whole
      omega
  · split at h
    · exact nomatch h
    · cases h
      omega

theorem afterSign_le (text : List UInt8) : (afterSign text).length ≤ text.length := by
  cases text with
  | nil => exact le_rfl
  | cons sign rest =>
    rw [afterSign]
    split
    · exact Nat.le_succ _
    · exact le_rfl

theorem exponent_le (letter : UInt8) (text : List UInt8) : (exponent letter text).length ≤ text.length := by
  cases text with
  | nil => exact le_rfl
  | cons ch rest =>
    have after : ((afterSign rest).dropWhile isDigit).length ≤ rest.length :=
      le_trans (dropWhile_suffix _).length_le (afterSign_le rest)
    rw [exponent]
    split
    · exact le_rfl
    · exact le_trans after (Nat.le_succ _)

theorem strtodEnd_lt (h : strtodEnd text = some rest) : rest.length < text.length := by
  unfold strtodEnd at h
  dsimp only at h
  split at h
  · rename_i after hex
    cases h
    split at hex
    · split at hex
      · have shorter := mantissa_lt hex
        have := exponent_le 0x70 after
        simp only [length_cons]
        omega
      · exact nomatch hex
    · exact nomatch hex
  · obtain ⟨after, decimal, rfl⟩ := map_eq_some_iff.mp h
    exact lt_of_le_of_lt (exponent_le 0x65 after) (mantissa_lt decimal)

theorem nameLoop_le (name text : List UInt8) : (Parser.nameLoop name text).2.2.length ≤ text.length := by
  induction text generalizing name with
  | nil => exact le_rfl
  | cons ch rest ih =>
    rw [Parser.nameLoop]
    split
    · exact le_rfl
    · split
      · exact le_rfl
      · exact le_trans (ih _) (Nat.le_succ _)

theorem identifier_spec (p : Parser F) :
    p.identifier.2.nodes = p.nodes ∧ p.identifier.2.cursor.length ≤ p.cursor.length ∧
      (p.identifier.1.isSome = true → p.identifier.2.cursor.length < p.cursor.length) := by
  have spaces := space_le p
  unfold Parser.identifier
  dsimp only
  split
  · exact ⟨rfl, spaces, nofun⟩
  · rename_i letter
    have shorter : (Parser.nameLoop [] p.space.cursor).2.2.length < p.space.cursor.length := by
      cases cursor : p.space.cursor with
      | nil =>
        rw [Parser.peek, cursor] at letter
        exact absurd (by decide) letter
      | cons ch rest =>
        have first : isName ch = true := by
          rw [Parser.peek, cursor, not_not] at letter
          rw [isName]
          rw [headD_cons, Bool.or_eq_true] at letter
          rw [Bool.or_eq_true, Bool.or_eq_true]
          exact letter.imp_left .inl
        rw [Parser.nameLoop, if_neg (not_not.mpr first), if_neg (by decide)]
        exact Nat.lt_succ_of_le (nameLoop_le _ _)
    split
    · exact ⟨rfl, le_of_lt (lt_of_lt_of_le shorter spaces), fun _ => lt_of_lt_of_le shorter spaces⟩
    · refine ⟨fail_nodes _ _, ?_, nofun⟩
      rw [fail_cursor]
      exact le_of_lt (lt_of_lt_of_le shorter spaces)

end Cursor

def Holds (before nodes : List (Node F)) (index : Nat) : Prop :=
  ∃ t : Tree F, t.Known ∧ nodes = before ++ t.layout before.length ∧ index = before.length + t.size - 1 ∧
    nodes.length ≤ nodeMax

/-- What a parser function does: it never gets back, and an index it gives is that of a tree
it has added, for which it read something. -/
structure Good (p : Parser F) (r : Parsed F Nat) : Prop where
  le : r.2.cursor.length ≤ p.cursor.length
  lt : ∀ i, r.1 = some i → r.2.cursor.length < p.cursor.length
  holds : ∀ i, r.1 = some i → Holds p.nodes r.2.nodes i

structure GoodLoop (before : List (Node F)) (p : Parser F) (r : Parsed F Nat) : Prop where
  le : r.2.cursor.length ≤ p.cursor.length
  holds : ∀ i, r.1 = some i → Holds before r.2.nodes i

inductive Args (before : List (Node F)) : List (Node F) → List Nat → Prop
  | zero : Args before before []
  | one {nodes : List (Node F)} {i : Nat} : Holds before nodes i → Args before nodes [i]
  | two {nodes nodes' : List (Node F)} {i j : Nat} : Holds before nodes i → Holds nodes nodes' j →
      Args before nodes' [i, j]

structure GoodArgs (before : List (Node F)) (p : Parser F) (r : Parsed F (List Nat)) : Prop where
  le : r.2.cursor.length ≤ p.cursor.length
  args : ∀ args, r.1 = some args → Args before r.2.nodes args

section Node

variable {p : Parser F} {n : Node F} {before nodes nodes' : List (Node F)} {i j : Nat} {op : UInt8}

theorem node_cursor (p : Parser F) (n : Node F) : (p.node n).2.cursor = p.cursor := by
  unfold Parser.node
  split
  · exact fail_cursor ..
  · rfl

theorem node_holds {t : Tree F} (known : t.Known) (tree : p.nodes ++ [n] = before ++ t.layout before.length) :
    ∀ i, (p.node n).1 = some i → Holds before (p.node n).2.nodes i := by
  intro i given
  unfold Parser.node at given ⊢
  split at given
  · exact nomatch given
  · rename_i room
    rw [if_neg room]
    cases given
    have length := congrArg List.length tree
    rw [length_append, length_append, length_singleton, Tree.layout_length] at length
    refine ⟨t, known, tree, by omega, ?_⟩
    simp only [length_append, length_singleton]
    omega

theorem Holds.unary (h : Holds before nodes i) (op : UInt8) :
    ∃ t : Tree F, t.Known ∧ nodes ++ [.unary op i] = before ++ t.layout before.length := by
  obtain ⟨t, known, rfl, rfl, -⟩ := h
  exact ⟨.unary op t, known, append_assoc ..⟩

theorem Holds.binary (known : op ∈ Tree.operators) (h : Holds before nodes i) (h' : Holds nodes nodes' j) :
    ∃ t : Tree F, t.Known ∧ nodes' ++ [.binary op i j] = before ++ t.layout before.length := by
  obtain ⟨t, knownT, rfl, rfl, -⟩ := h
  obtain ⟨t', knownT', rfl, rfl, -⟩ := h'
  refine ⟨.binary op t t', ⟨known, knownT, knownT'⟩, ?_⟩
  simp only [Tree.layout, length_append, Tree.layout_length, append_assoc]

theorem Args.call {args : List Nat} (h : Args before nodes args) (name : String) :
    ∃ t : Tree F, t.Known ∧ nodes ++ [.call name args] = before ++ t.layout before.length := by
  cases h with
  | zero => exact ⟨.call₀ name, trivial, rfl⟩
  | one h =>
    obtain ⟨t, known, rfl, rfl, -⟩ := h
    exact ⟨.call₁ name t, known, append_assoc ..⟩
  | two h h' =>
    obtain ⟨t, known, rfl, rfl, -⟩ := h
    obtain ⟨t', known', rfl, rfl, -⟩ := h'
    refine ⟨.call₂ name t t', ⟨known, known'⟩, ?_⟩
    simp only [Tree.layout, length_append, Tree.layout_length, append_assoc]

end Node

/-- What all parser functions do with that depth of recursion, as long as it is enough for
the text that is left. -/
structure Specs (d : Doubles F) (depth : Nat) : Prop where
  primary : ∀ p, 10 * p.cursor.length + 1 ≤ depth → ∃ r, parserPrimary d depth p = some r ∧ Good p r
  power : ∀ p, 10 * p.cursor.length + 2 ≤ depth → ∃ r, parserPower d depth p = some r ∧ Good p r
  unary : ∀ p, 10 * p.cursor.length + 3 ≤ depth → ∃ r, parserUnary d depth p = some r ∧ Good p r
  termLoop : ∀ before left p, 10 * p.cursor.length + 4 ≤ depth → (∀ i, left = some i → Holds before p.nodes i) →
    ∃ r, termLoop d depth left p = some r ∧ GoodLoop before p r
  term : ∀ p, 10 * p.cursor.length + 5 ≤ depth → ∃ r, parserTerm d depth p = some r ∧ Good p r
  expressionLoop : ∀ before left p, 10 * p.cursor.length + 5 ≤ depth → (∀ i, left = some i → Holds before p.nodes i) →
    ∃ r, expressionLoop d depth left p = some r ∧ GoodLoop before p r
  expression : ∀ p, 10 * p.cursor.length + 6 ≤ depth → ∃ r, parserExpression d depth p = some r ∧ Good p r
  arguments : ∀ before args p, 10 * p.cursor.length + 7 ≤ depth → Args before p.nodes args →
    ∃ r, parserArguments d depth args p = some r ∧ GoodArgs before p r

section Functions

variable {d : Doubles F} {depth : Nat} {p : Parser F}

theorem parserNumber_good (d : Doubles F) (p : Parser F) : Good p (parserNumber d p) := by
  unfold parserNumber
  split
  · exact ⟨le_of_eq (congrArg List.length (fail_cursor ..)), nofun, nofun⟩
  · rename_i rest ends
    have shorter := strtodEnd_lt ends
    refine ⟨?_, ?_, ?_⟩
    · rw [node_cursor]
      exact le_of_lt shorter
    · intro i _
      rw [node_cursor]
      exact shorter
    · exact node_holds (t := .number _) trivial rfl

theorem power_spec (specs : Specs d depth) (enough : 10 * p.cursor.length + 2 ≤ depth + 1) :
    ∃ r, parserPower d (depth + 1) p = some r ∧ Good p r := by
  obtain ⟨⟨left, p₁⟩, ran, le, lt, holds⟩ := specs.primary p (by omega)
  rw [parserPower, ran]
  simp only [bind_eq_bind, bind_some]
  cases left with
  | none => exact ⟨_, rfl, le, nofun, nofun⟩
  | some left =>
    simp only at le lt holds ⊢
    have read := lt left rfl
    have spaces := space_le p₁
    split
    · rename_i hat
      have shorter := advance_lt hat (by decide)
      obtain ⟨⟨right, p₂⟩, ran', le', lt', holds'⟩ := specs.unary p₁.space.advance (by omega)
      rw [ran']
      simp only [bind_some]
      simp only at le' lt' holds'
      cases right with
      | none => exact ⟨_, rfl, by simp only; omega, nofun, nofun⟩
      | some right =>
        obtain ⟨t, known, tree⟩ := Holds.binary (by decide : 0x5e ∈ Tree.operators) (holds left rfl) (holds' right rfl)
        refine ⟨_, rfl, ?_, ?_, node_holds known tree⟩
        · rw [node_cursor]
          omega
        · intro i _
          rw [node_cursor]
          omega
    · exact ⟨_, rfl, by simp only; omega, fun i _ => by simp only; omega, holds⟩

theorem unary_spec (specs : Specs d depth) (enough : 10 * p.cursor.length + 3 ≤ depth + 1) :
    ∃ r, parserUnary d (depth + 1) p = some r ∧ Good p r := by
  have spaces := space_le p
  rw [parserUnary]
  simp only [bind_eq_bind]
  split
  · rename_i sign
    have shorter : p.space.advance.cursor.length < p.space.cursor.length := by
      rcases sign with plus | minus
      · exact advance_lt plus (by decide)
      · exact advance_lt minus (by decide)
    obtain ⟨⟨child, p₁⟩, ran, le, lt, holds⟩ := specs.unary p.space.advance (by omega)
    rw [ran]
    simp only [bind_some]
    simp only at le lt holds
    cases child with
    | none => exact ⟨_, rfl, by simp only; omega, nofun, nofun⟩
    | some child =>
      obtain ⟨t, known, tree⟩ := (holds child rfl).unary p.space.peek
      refine ⟨_, rfl, ?_, ?_, node_holds known tree⟩
      · rw [node_cursor]
        omega
      · intro i _
        rw [node_cursor]
        omega
  · obtain ⟨r, ran, le, lt, holds⟩ := specs.power p.space (by omega)
    exact ⟨r, ran, by omega, fun i given => by have := lt i given; omega, holds⟩

variable {before : List (Node F)}

theorem termLoop_spec (specs : Specs d depth) {left : Option Nat}
    (enough : 10 * p.cursor.length + 4 ≤ depth + 1) (have_ : ∀ i, left = some i → Holds before p.nodes i) :
    ∃ r, termLoop d (depth + 1) left p = some r ∧ GoodLoop before p r := by
  cases left with
  | none => exact ⟨_, rfl, le_rfl, nofun⟩
  | some left =>
    have spaces := space_le p
    -- one operator, written or not, and the factor after it
    have goes : ∀ (op : UInt8) (q : Parser F) (next : Option Nat × Parser F → Option (Option Nat × Parser F)),
        op ∈ Tree.operators → q.nodes = p.nodes → q.cursor.length ≤ p.cursor.length →
        (∀ p₁, next (none, p₁) = some (none, p₁)) →
        (∀ right p₁, next (some right, p₁) =
          termLoop d depth (p₁.node (.binary op left right)).1 (p₁.node (.binary op left right)).2) →
        ∃ r, (parserUnary d depth q).bind next = some r ∧ GoodLoop before p r := by
      intro op q next known nodes shorter stops loops
      obtain ⟨⟨right, p₁⟩, ran, le, lt, holds⟩ := specs.unary q (by omega)
      rw [ran, bind_some]
      simp only [nodes] at le lt holds
      cases right with
      | none => exact ⟨_, stops p₁, by simp only; omega, nofun⟩
      | some right =>
        rw [loops]
        obtain ⟨t, knownT, tree⟩ := Holds.binary known (have_ left rfl) (holds right rfl)
        have read := lt right rfl
        have cursor := node_cursor p₁ (.binary op left right)
        obtain ⟨r, ran', le', holds'⟩ := specs.termLoop before (p₁.node (.binary op left right)).1
          (p₁.node (.binary op left right)).2 (by rw [cursor]; omega) (node_holds knownT tree)
        rw [cursor] at le'
        exact ⟨r, ran', by omega, holds'⟩
    rw [termLoop]
    simp only [bind_eq_bind]
    split
    · rename_i written
      have shorter : p.space.advance.cursor.length < p.space.cursor.length := by
        rcases written with times | past | modulo
        · exact advance_lt times (by decide)
        · exact advance_lt past (by decide)
        · exact advance_lt modulo (by decide)
      have known : p.space.peek ∈ Tree.operators := by
        rcases written with here | here | here <;> rw [here] <;> decide
      exact goes p.space.peek p.space.advance _ known rfl (by omega) (fun _ => rfl) fun _ _ => rfl
    · have spaces' := space_le p.space
      split
      · exact goes 0x2a p.space.space _ (by decide) rfl (by omega) (fun _ => rfl) fun _ _ => rfl
      · exact ⟨_, rfl, le_trans spaces' spaces, have_⟩

theorem term_spec (specs : Specs d depth) (enough : 10 * p.cursor.length + 5 ≤ depth + 1) :
    ∃ r, parserTerm d (depth + 1) p = some r ∧ Good p r := by
  obtain ⟨⟨left, p₁⟩, ran, le, lt, holds⟩ := specs.unary p (by omega)
  rw [parserTerm, ran]
  simp only [bind_eq_bind, bind_some]
  simp only at le lt holds
  obtain ⟨r, ran', le', holds'⟩ := specs.termLoop p.nodes left p₁ (by omega) holds
  refine ⟨r, ran', by omega, ?_, holds'⟩
  intro i given
  cases left with
  | none =>
    cases depth with
    | zero => exact nomatch ran'
    | succ depth =>
      cases ran'
      exact nomatch given
  | some left =>
    have := lt left rfl
    omega

theorem expressionLoop_spec (specs : Specs d depth) {left : Option Nat}
    (enough : 10 * p.cursor.length + 5 ≤ depth + 1) (have_ : ∀ i, left = some i → Holds before p.nodes i) :
    ∃ r, expressionLoop d (depth + 1) left p = some r ∧ GoodLoop before p r := by
  cases left with
  | none => exact ⟨_, rfl, le_rfl, nofun⟩
  | some left =>
    have spaces := space_le p
    rw [expressionLoop]
    simp only [bind_eq_bind]
    split
    · exact ⟨_, rfl, spaces, have_⟩
    · rename_i sign
      have sign : p.space.peek = 0x2b ∨ p.space.peek = 0x2d := by
        by_contra none
        exact sign (not_or.mp none)
      have shorter : p.space.advance.cursor.length < p.space.cursor.length := by
        rcases sign with plus | minus
        · exact advance_lt plus (by decide)
        · exact advance_lt minus (by decide)
      have known : p.space.peek ∈ Tree.operators := by
        rcases sign with here | here <;> rw [here] <;> decide
      obtain ⟨⟨right, p₁⟩, ran, le, lt, holds⟩ := specs.term p.space.advance (by omega)
      rw [ran]
      simp only [bind_some]
      simp only at le lt holds
      cases right with
      | none => exact ⟨_, rfl, by simp only; omega, nofun⟩
      | some right =>
        obtain ⟨t, knownT, tree⟩ := Holds.binary known (have_ left rfl) (holds right rfl)
        have cursor := node_cursor p₁ (.binary p.space.peek left right)
        obtain ⟨r, ran', le', holds'⟩ := specs.expressionLoop before (p₁.node (.binary p.space.peek left right)).1
          (p₁.node (.binary p.space.peek left right)).2 (by rw [cursor]; omega) (node_holds knownT tree)
        rw [cursor] at le'
        exact ⟨r, ran', by omega, holds'⟩

theorem expression_spec (specs : Specs d depth) (enough : 10 * p.cursor.length + 6 ≤ depth + 1) :
    ∃ r, parserExpression d (depth + 1) p = some r ∧ Good p r := by
  obtain ⟨⟨left, p₁⟩, ran, le, lt, holds⟩ := specs.term p (by omega)
  rw [parserExpression, ran]
  simp only [bind_eq_bind, bind_some]
  simp only at le lt holds
  obtain ⟨r, ran', le', holds'⟩ := specs.expressionLoop p.nodes left p₁ (by omega) holds
  refine ⟨r, ran', by omega, ?_, holds'⟩
  intro i given
  cases left with
  | none =>
    cases depth with
    | zero => exact nomatch ran'
    | succ depth =>
      cases ran'
      exact nomatch given
  | some left =>
    have := lt left rfl
    omega

theorem arguments_spec (specs : Specs d depth) {args : List Nat}
    (enough : 10 * p.cursor.length + 7 ≤ depth + 1) (have_ : Args before p.nodes args) :
    ∃ r, parserArguments d (depth + 1) args p = some r ∧ GoodArgs before p r := by
  rw [parserArguments]
  split
  · exact ⟨_, rfl, le_of_eq (congrArg List.length (fail_cursor ..)), nofun⟩
  · rename_i room
    obtain ⟨⟨arg, p₁⟩, ran, le, lt, holds⟩ := specs.expression p (by omega)
    simp only [bind_eq_bind]
    rw [ran]
    simp only [bind_some]
    simp only at le lt holds
    cases arg with
    | none => exact ⟨_, rfl, le, nofun⟩
    | some arg =>
      have spaces := space_le p₁
      have read := lt arg rfl
      have joined : Args before p₁.nodes (args ++ [arg]) := by
        cases have_ with
        | zero => exact .one (holds arg rfl)
        | one h => exact .two h (holds arg rfl)
        | two => exact absurd (le_rfl) room
      simp only
      split
      · refine ⟨_, rfl, by simp only; omega, ?_⟩
        rintro _ ⟨rfl⟩
        exact joined
      · rename_i comma
        have shorter := advance_lt (not_not.mp comma) (by decide)
        obtain ⟨r, ran', le', args'⟩ := specs.arguments before (args ++ [arg]) p₁.space.advance (by omega) joined
        exact ⟨r, ran', by omega, args'⟩

theorem parserVariable_good (name : String) {q : Parser F} (nodes : q.nodes = p.nodes)
    (shorter : q.cursor.length < p.cursor.length) : Good p (parserVariable name q) := by
  unfold parserVariable
  refine ⟨?_, ?_, ?_⟩
  · rw [node_cursor]
    exact le_of_lt shorter
  · intro i _
    rw [node_cursor]
    exact shorter
  · rw [← nodes]
    exact node_holds (t := .var name) trivial rfl

theorem name_spec (specs : Specs d depth) (name : String) {q : Parser F} (nodes : q.nodes = p.nodes)
    (shorter : q.cursor.length < p.cursor.length) (enough : 10 * p.cursor.length + 1 ≤ depth + 1) :
    ∃ r, (if q.space.peek ≠ 0x28 then some (parserVariable name q.space)
      else if q.space.advance.space.peek = 0x29 then some (q.space.advance.space.advance.node (.call name []))
      else (parserArguments d depth [] q.space.advance.space).bind fun x =>
        match x.1 with
        | none => some (none, x.2)
        | some args =>
          if x.2.peek ≠ 0x29 then some (none, x.2.fail "expected ')' after arguments")
          else some (x.2.advance.node (.call name args))) = some r ∧ Good p r := by
  have spaces := space_le q
  split
  · exact ⟨_, rfl, parserVariable_good name nodes (lt_of_le_of_lt spaces shorter)⟩
  · rename_i bracket
    have passed := advance_lt (not_not.mp bracket) (by decide)
    have spaces' := space_le q.space.advance
    split
    · rename_i closing
      have passed' := advance_lt closing (by decide)
      have cursor := node_cursor q.space.advance.space.advance (.call name [])
      refine ⟨_, rfl, by rw [cursor]; omega, fun i _ => by rw [cursor]; omega, ?_⟩
      rw [← nodes]
      exact node_holds (t := .call₀ name) trivial rfl
    · obtain ⟨⟨args, p₁⟩, ran, le, holds⟩ := specs.arguments q.nodes [] q.space.advance.space (by omega) .zero
      rw [ran]
      simp only [bind_some]
      simp only at le holds
      cases args with
      | none => exact ⟨_, rfl, by simp only; omega, nofun, nofun⟩
      | some args =>
        simp only
        split
        · refine ⟨_, rfl, ?_, nofun, nofun⟩
          rw [fail_cursor]
          omega
        · rename_i closing
          have passed' := advance_lt (not_not.mp closing) (by decide)
          obtain ⟨t, known, tree⟩ := (holds args rfl).call name
          have cursor := node_cursor p₁.advance (.call name args)
          refine ⟨_, rfl, by rw [cursor]; omega, fun i _ => by rw [cursor]; omega, ?_⟩
          rw [← nodes]
          exact node_holds known tree

theorem primary_spec (specs : Specs d depth) (enough : 10 * p.cursor.length + 1 ≤ depth + 1) :
    ∃ r, parserPrimary d (depth + 1) p = some r ∧ Good p r := by
  have spaces := space_le p
  rw [parserPrimary]
  simp only [bind_eq_bind]
  split
  · rename_i bracket
    have shorter := advance_lt bracket (by decide)
    obtain ⟨⟨child, p₁⟩, ran, le, lt, holds⟩ := specs.expression p.space.advance (by omega)
    rw [ran]
    simp only [bind_some]
    simp only at le lt holds
    have spaces' := space_le p₁
    split
    · refine ⟨_, rfl, ?_, nofun, nofun⟩
      rw [fail_cursor]
      omega
    · rename_i closing
      have shorter' := advance_lt (not_not.mp closing) (by decide)
      exact ⟨_, rfl, by simp only; omega, fun i _ => by simp only; omega, holds⟩
  · split
    · obtain ⟨le, lt, holds⟩ := parserNumber_good d p.space
      exact ⟨_, rfl, by omega, fun i given => by have := lt i given; omega, holds⟩
    · obtain ⟨nodes, le, lt⟩ := identifier_spec p.space
      rcases named : p.space.identifier with ⟨_ | name, p₁⟩
      · rw [named] at le
        refine ⟨_, rfl, ?_, nofun, nofun⟩
        rw [fail_cursor]
        exact le_trans le spaces
      · rw [named] at nodes lt
        simp only at nodes lt
        have read := lt rfl
        exact name_spec specs name nodes (by omega) enough

theorem specs (d : Doubles F) (depth : Nat) : Specs d depth := by
  induction depth with
  | zero => constructor <;> omega
  | succ depth ih =>
    exact ⟨fun _ => primary_spec ih, fun _ => power_spec ih, fun _ => unary_spec ih, fun _ _ _ => termLoop_spec ih,
      fun _ => term_spec ih, fun _ _ _ => expressionLoop_spec ih, fun _ => expression_spec ih,
      fun _ _ _ => arguments_spec ih⟩

end Functions

end SolarOs.Expr
