import SolarOs.Expr.Parsing

/-! What is compiled is a tree, and it has its value as long as it is not too deep. -/
namespace SolarOs.Expr
open List

variable {F σ : Type}

theorem Tree.layout_before {t : Tree F} {base i : Nat} {n : Node F} (h : (t.layout base)[i]? = some n) :
    ∀ c ∈ n.children, c < base + i := by
  -- the root is the last node, the others are in the parts
  have last : ∀ {inner : List (Node F)} {root : Node F} {base i : Nat} {n : Node F},
      (∀ i n, inner[i]? = some n → ∀ c ∈ n.children, c < base + i) → (∀ c ∈ root.children, c < base + inner.length) →
      (inner ++ [root])[i]? = some n → ∀ c ∈ n.children, c < base + i := by
    intro inner root base i n parts root h
    rcases lt_or_ge i inner.length with inside | outside
    · rw [getElem?_append_left inside] at h
      exact parts i n h
    · rw [getElem?_append_right outside] at h
      obtain ⟨place, same⟩ := List.getElem?_eq_some_iff.mp h
      rw [length_singleton] at place
      have end_ : i = inner.length := by omega
      subst end_
      simp only [Nat.sub_self, getElem_cons_zero] at same
      exact same ▸ root
  have single : ∀ {root : Node F} {base i : Nat} {n : Node F}, root.children = [] → [root][i]? = some n →
      ∀ c ∈ n.children, c < base + i := by
    intro root base i n leaf h
    exact @last [] root base i n nofun (fun c child => nomatch leaf ▸ child) h
  have both : ∀ {a b : Tree F} {base : Nat}, (∀ base i n, (a.layout base)[i]? = some n → ∀ c ∈ n.children, c < base + i) →
      (∀ base i n, (b.layout base)[i]? = some n → ∀ c ∈ n.children, c < base + i) →
      ∀ i n, (a.layout base ++ b.layout (base + a.size))[i]? = some n → ∀ c ∈ n.children, c < base + i := by
    intro a b base ha hb i n h
    rcases lt_or_ge i (a.layout base).length with inside | outside
    · rw [getElem?_append_left inside] at h
      exact ha base i n h
    · rw [getElem?_append_right outside, Tree.layout_length] at h
      rw [Tree.layout_length] at outside
      intro c child
      have := hb _ _ n h c child
      omega
  induction t generalizing base i n with
  | number => exact single rfl h
  | var => exact single rfl h
  | call₀ => exact single rfl h
  | unary op child ih =>
    refine last (fun i n => ih) ?_ h
    have := Tree.size_pos child
    simp only [Node.children, mem_singleton, Tree.layout_length]
    omega
  | binary op left right ih ih' =>
    refine last (both (fun _ _ _ => ih) fun _ _ _ => ih') ?_ h
    have := Tree.size_pos left
    have := Tree.size_pos right
    simp only [Node.children, mem_cons, not_mem_nil, or_false, length_append, Tree.layout_length]
    omega
  | call₁ name arg ih =>
    refine last (fun i n => ih) ?_ h
    have := Tree.size_pos arg
    simp only [Node.children, mem_singleton, Tree.layout_length]
    omega
  | call₂ name arg₁ arg₂ ih ih' =>
    refine last (both (fun _ _ _ => ih) fun _ _ _ => ih') ?_ h
    have := Tree.size_pos arg₁
    have := Tree.size_pos arg₂
    simp only [Node.children, mem_cons, not_mem_nil, or_false, length_append, Tree.layout_length]
    omega

theorem compile_spec (d : Doubles F) (source : CString) :
    ∃ result, compile d source = some result ∧ ∀ program, result = .ok program →
      ∃ t : Tree F, t.Known ∧ program.nodes = t.layout 0 ∧ program.root + 1 = t.size ∧ t.size ≤ nodeMax := by
  unfold compile
  dsimp only
  split
  · exact ⟨_, rfl, nofun⟩
  · obtain ⟨⟨root, p⟩, ran, -, -, holds⟩ := (specs d _).expression _ (Nat.le_succ _)
    rw [enough, ran]
    simp only [Option.bind_eq_bind, Option.bind_some]
    have kept : ∀ q, q = (if (p.space.error.isNone && decide (p.space.peek ≠ 0)) = true then
        p.space.fail "unexpected character" else p.space) → q.nodes = p.nodes := by
      rintro q rfl
      split
      · exact fail_nodes ..
      · rfl
    generalize (if (p.space.error.isNone && decide (p.space.peek ≠ 0)) = true then
        p.space.fail "unexpected character" else p.space) = q at kept ⊢
    cases root with
    | none =>
      cases q.error with
      | none => exact ⟨_, rfl, nofun⟩
      | some error => exact ⟨_, rfl, nofun⟩
    | some root =>
      cases q.error with
      | some error => exact ⟨_, rfl, nofun⟩
      | none =>
        refine ⟨_, rfl, ?_⟩
        rintro program ⟨rfl⟩
        obtain ⟨t, known, nodes, index, room⟩ := holds root rfl
        have size := t.size_pos
        rw [nodes] at room
        simp only [Parser.space, nil_append, length_nil, Tree.layout_length] at nodes room index
        refine ⟨t, known, ?_, ?_, room⟩
        · exact (kept q rfl).trans nodes
        · show root + 1 = t.size
          omega

/-- Every source is compiled or refused. What is compiled is the layout of a tree, in which
children stand before their parents and every node but the root has one parent. Where the tree
is at most 24 deep, the program has its value in every context, and fails only for an unknown
name or a result that is not finite; a deeper one fails for its depth wherever all names are
known. -/
theorem compile_evaluates (d : Doubles F) (source : CString) :
    ∃ result, compile d source = some result ∧ ∀ program, result = .ok program →
      ∃ t : Tree F, program.nodes = t.layout 0 ∧ program.root + 1 = program.nodes.length ∧
        program.nodes.length ≤ nodeMax ∧
        (∀ (i : Nat) (n : Node F), program.nodes[i]? = some n → ∀ c ∈ n.children, c < i) ∧
        (program.nodes.flatMap Node.children).Perm (List.range program.root) ∧
        (t.depth ≤ evalDepthMax → ∀ (σ : Type) (ctx : Context F σ) (s : σ),
          evaluate d program ctx s = checkFinite d (t.eval d ctx) s ∧
            ∀ e, evaluate d program ctx s = .error e → e.1 = .notFound ∨ e.1 = .invalidResponse) ∧
        (evalDepthMax < t.depth → ∀ (σ : Type) (ctx : Context F σ) (s : σ), Tree.Accepts ctx →
          evaluate d program ctx s = .error (.invalidState, "evaluation depth exceeded")) := by
  obtain ⟨result, ran, spec⟩ := compile_spec d source
  refine ⟨result, ran, fun program given => ?_⟩
  obtain ⟨t, known, nodes, root, room⟩ := spec program given
  have length : program.nodes.length = t.size := by rw [nodes, Tree.layout_length]
  have place : Tree.At program.nodes 0 t := ⟨[], [], rfl, by rw [nodes, nil_append, append_nil]⟩
  have start : program.root = 0 + t.size - 1 := by omega
  have evaluates : ∀ (σ : Type) (ctx : Context F σ), evaluate d program ctx =
      checkFinite d (evalNode d program ctx (evalDepthMax + 1) (0 + t.size - 1)) := by
    intro σ ctx
    rw [evaluate, if_neg (by omega), start]
  refine ⟨t, nodes, by omega, by omega, ?_, ?_, ?_, ?_⟩
  · intro i n here c child
    rw [nodes] at here
    have := Tree.layout_before here c child
    omega
  · rw [nodes, range_eq_range', start, zero_add]
    exact t.layout_children 0
  · intro shallow σ ctx s
    rw [evaluates, Tree.evalNode_at d ctx place (Nat.lt_succ_of_le shallow)]
    refine ⟨rfl, fun e failed => ?_⟩
    rcases Eval.bind_error failed with failed | ⟨value, s', _, failed⟩
    · exact .inl (Tree.eval_error known failed).1
    · split at failed
      · exact nomatch failed
      · cases failed
        exact .inr rfl
  · intro deep σ ctx s accepts
    rw [evaluates]
    exact Eval.bind_of_error (Tree.evalNode_deep d place known accepts deep s)

def signs (k : Nat) : List UInt8 := List.replicate k 0x2d ++ [0x78]

def negations : Nat → Tree F
  | 0 => .var (Parser.nameOf [0x78])
  | k + 1 => .unary 0x2d (negations k)

theorem negations_size (k : Nat) : (negations k : Tree F).size = k + 1 := by
  induction k with
  | zero => rfl
  | succ k ih => rw [negations, Tree.size, ih]

section Signs

variable (d : Doubles F) (source : List UInt8) (nodes : List (Node F)) (usesX : Bool) (error : Option (Nat × String))

theorem node_eq {p : Parser F} (n : Node F) (room : p.nodes.length < nodeMax) :
    p.node n = (some p.nodes.length, { p with nodes := p.nodes ++ [n] }) := if_neg (not_le.mpr room)

theorem parserPower_name (m : Nat) (room : nodes.length < nodeMax) :
    ∃ usesX', parserPower d (m + 2) ⟨source, [0x78], nodes, usesX, error⟩ =
      some (some nodes.length, ⟨source, [], nodes ++ [.variable (Parser.nameOf [0x78])], usesX', error⟩) := by
  have primary : parserPrimary d (m + 1) ⟨source, [0x78], nodes, usesX, error⟩ =
      some (parserVariable (Parser.nameOf [0x78]) ⟨source, [], nodes, usesX, error⟩) := by
    rw [parserPrimary]
    rfl
  refine ⟨usesX || decide (Parser.nameOf [0x78] = "x"), ?_⟩
  rw [parserPower, primary, parserVariable, node_eq _ room]
  rfl

theorem parserUnary_signs (k m : Nat) (room : nodes.length + k < nodeMax) :
    ∃ usesX', parserUnary d (k + 3 + m) ⟨source, signs k, nodes, usesX, error⟩ =
      some (some (nodes.length + k), ⟨source, [], nodes ++ (negations k).layout nodes.length, usesX', error⟩) := by
  induction k with
  | zero =>
    obtain ⟨usesX', power⟩ := parserPower_name d source nodes usesX error m room
    refine ⟨usesX', ?_⟩
    have depth : 0 + 3 + m = (m + 2) + 1 := by omega
    rw [depth, parserUnary]
    exact power
  | succ k ih =>
    obtain ⟨usesX', inner⟩ := ih (by omega)
    refine ⟨usesX', ?_⟩
    have depth : k + 1 + 3 + m = (k + 3 + m) + 1 := by omega
    have full : (nodes ++ (negations k).layout nodes.length).length < nodeMax := by
      rw [length_append, Tree.layout_length, negations_size]
      omega
    rw [depth, parserUnary, if_pos (.inr rfl)]
    show (parserUnary d (k + 3 + m) ⟨source, signs k, nodes, usesX, error⟩).bind _ = _
    rw [inner, Option.bind_some]
    show some (Parser.node _ (.unary 0x2d (nodes.length + k))) = _
    rw [node_eq _ full]
    simp only [length_append, Tree.layout_length, negations_size, append_assoc, negations, Tree.layout]
    rfl

end Signs

variable (d : Doubles F)

theorem evalNode_signs (ctx : Context F σ) {program : Program F} {base levels k : Nat}
    (place : Tree.At program.nodes base (negations k)) (deep : levels ≤ k) (s : σ) :
    evalNode d program ctx levels (base + (negations k : Tree F).size - 1) s =
      .error (.invalidState, "evaluation depth exceeded") := by
  induction k generalizing levels with
  | zero =>
    cases Nat.le_zero.mp deep
    rfl
  | succ k ih =>
    cases levels with
    | zero => rfl
    | succ levels =>
      rw [evalNode, place.root]
      exact Eval.bind_of_error (ih (Tree.At.only place) (Nat.le_of_succ_le_succ deep))

theorem termLoop_end (depth i : Nat) (source : List UInt8) (nodes : List (Node F)) (usesX : Bool)
    (error : Option (Nat × String)) : termLoop d (depth + 1) (some i) ⟨source, [], nodes, usesX, error⟩ =
      some (some i, ⟨source, [], nodes, usesX, error⟩) := by
  rw [termLoop]
  rfl

theorem expressionLoop_end (depth i : Nat) (source : List UInt8) (nodes : List (Node F)) (usesX : Bool)
    (error : Option (Nat × String)) : expressionLoop d (depth + 1) (some i) ⟨source, [], nodes, usesX, error⟩ =
      some (some i, ⟨source, [], nodes, usesX, error⟩) := by
  rw [expressionLoop]
  rfl

theorem compile_signs {k : Nat} (room : k < nodeMax) (nonzero : ∀ b ∈ signs k, b ≠ 0) :
    ∃ usesX, compile d ⟨signs k, nonzero⟩ = some (.ok ⟨(negations k).layout 0, k, usesX⟩) := by
  obtain ⟨usesX, unary⟩ := parserUnary_signs d (signs k) [] false none k (9 * k + 12) (by simpa using room)
  refine ⟨usesX, ?_⟩
  have depth : enough (signs k).length = k + 3 + (9 * k + 12) + 1 + 1 := by
    rw [enough, signs, length_append, length_replicate, length_singleton]
    omega
  have start : ∃ ch rest, signs k = ch :: rest ∧ isSpace ch = false ∧ ch ≠ 0 := by
    cases k with
    | zero | succ k => exact ⟨_, _, rfl, by decide⟩
  obtain ⟨ch, rest, text, other, some⟩ := start
  have here : (signs k).dropWhile isSpace = signs k := by
    rw [text, dropWhile_cons, other]
    rfl
  have more : (signs k).headD 0 ≠ 0 := by
    rw [text]
    exact some
  have loop : k + 3 + (9 * k + 12) = (k + 2 + (9 * k + 12)) + 1 := by omega
  have term : parserTerm d (k + 3 + (9 * k + 12) + 1) ⟨signs k, signs k, [], false, none⟩ =
      .some (.some k, ⟨signs k, [], (negations k).layout 0, usesX, none⟩) := by
    rw [parserTerm, unary, length_nil, zero_add, loop]
    exact termLoop_end d (k + 2 + (9 * k + 12)) ..
  have expression : parserExpression d (k + 3 + (9 * k + 12) + 1 + 1) ⟨signs k, signs k, [], false, none⟩ =
      .some (.some k, ⟨signs k, [], (negations k).layout 0, usesX, none⟩) := by
    rw [parserExpression, term]
    exact expressionLoop_end d (k + 3 + (9 * k + 12)) ..
  simp only [compile, Parser.space, Parser.peek, here, if_neg more, depth]
  rw [expression]
  rfl

/-- Twenty-five signs are compiled, and not evaluated in any context, whatever the numbers are. -/
theorem signs_too_deep : ∃ source : CString, source.bytes = signs 25 ∧ ∀ (F : Type) (d : Doubles F), ∃ program,
      compile d source = some (.ok program) ∧ ∀ (σ : Type) (ctx : Context F σ) (s : σ),
        evaluate d program ctx s = .error (.invalidState, "evaluation depth exceeded") := by
  refine ⟨⟨signs 25, by decide⟩, rfl, fun F d => ?_⟩
  obtain ⟨usesX, compiled⟩ := compile_signs d (by decide : 25 < nodeMax) (by decide)
  refine ⟨_, compiled, fun σ ctx s => ?_⟩
  have place : Tree.At ((negations 25 : Tree F).layout 0) 0 (negations 25) :=
    ⟨[], [], rfl, by rw [nil_append, append_nil]⟩
  have deep := @evalNode_signs F σ d ctx ⟨(negations 25).layout 0, 25, usesX⟩ 0 (evalDepthMax + 1) 25 place (by decide) s
  rw [negations_size] at deep
  rw [evaluate, if_neg (by rw [Tree.layout_length, negations_size]; decide)]
  exact Eval.bind_of_error deep

end SolarOs.Expr
