import SolarOs.Expr.Model
import Mathlib.Data.List.Perm.Basic

/-! Expression trees: their value, and their nodes laid out in an array with the children
before their parents. -/
namespace SolarOs.Expr
open List

inductive Tree (F : Type) where
  | number (value : F)
  | var (name : String)
  | unary (op : UInt8) (child : Tree F)
  | binary (op : UInt8) (left right : Tree F)
  | call₀ (name : String)
  | call₁ (name : String) (arg : Tree F)
  | call₂ (name : String) (arg₁ arg₂ : Tree F)

variable {F σ : Type}

section Bind

variable {α β : Type} {x : σ → Except (EspErr × String) (α × σ)} {f : α → σ → Except (EspErr × String) (β × σ)}
  {s s' : σ} {e : EspErr × String}

theorem Eval.bind_of_ok {a : α} (h : x s = .ok (a, s')) : Eval.bind x f s = f a s' := by
  rw [Eval.bind, h]

theorem Eval.bind_of_error (h : x s = .error e) : Eval.bind x f s = .error e := by
  rw [Eval.bind, h]

theorem Eval.bind_error (h : Eval.bind x f s = .error e) :
    x s = .error e ∨ ∃ a s', x s = .ok (a, s') ∧ f a s' = .error e := by
  cases ran : x s with
  | error e' =>
    rw [Eval.bind_of_error ran] at h
    cases h
    exact .inl rfl
  | ok pair =>
    rw [Eval.bind_of_ok ran] at h
    exact .inr ⟨pair.1, pair.2, rfl, h⟩

end Bind

theorem evalAll_one (x : Eval F σ) (f : List F → Eval F σ) :
    Eval.bind (evalAll [x]) f = Eval.bind x fun value => f [value] := by
  funext s
  cases ran : x s with
  | error e =>
    rw [Eval.bind_of_error ran]
    exact Eval.bind_of_error (Eval.bind_of_error ran)
  | ok pair =>
    rw [Eval.bind_of_ok ran]
    exact Eval.bind_of_ok (Eval.bind_of_ok ran)

theorem evalAll_two (x y : Eval F σ) (f : List F → Eval F σ) :
    Eval.bind (evalAll [x, y]) f = Eval.bind x fun value => Eval.bind y fun value' => f [value, value'] := by
  funext s
  cases ran : x s with
  | error e =>
    rw [Eval.bind_of_error ran]
    exact Eval.bind_of_error (Eval.bind_of_error ran)
  | ok pair =>
    rw [Eval.bind_of_ok ran]
    cases ran' : y pair.2 with
    | error e =>
      rw [Eval.bind_of_error ran']
      have rest : evalAll [x, y] s = .error e :=
        (Eval.bind_of_ok ran).trans (Eval.bind_of_error (Eval.bind_of_error ran'))
      exact Eval.bind_of_error rest
    | ok pair' =>
      rw [Eval.bind_of_ok ran']
      have rest : evalAll [x, y] s = .ok ([pair.1, pair'.1], pair'.2) :=
        (Eval.bind_of_ok ran).trans (Eval.bind_of_ok (Eval.bind_of_ok ran'))
      exact Eval.bind_of_ok rest

namespace Tree

/-- How many nodes the tree has. -/
def size : Tree F → Nat
  | number _ => 1
  | var _ => 1
  | unary _ child => child.size + 1
  | binary _ left right => left.size + right.size + 1
  | call₀ _ => 1
  | call₁ _ arg => arg.size + 1
  | call₂ _ arg₁ arg₂ => arg₁.size + arg₂.size + 1

/-- How deep the tree is; a tree of one node has depth zero. -/
def depth : Tree F → Nat
  | number _ => 0
  | var _ => 0
  | unary _ child => child.depth + 1
  | binary _ left right => max left.depth right.depth + 1
  | call₀ _ => 0
  | call₁ _ arg => arg.depth + 1
  | call₂ _ arg₁ arg₂ => max arg₁.depth arg₂.depth + 1

def operators : List UInt8 := [0x2b, 0x2d, 0x2a, 0x2f, 0x25, 0x5e]

/-- The operators are known. -/
def Known : Tree F → Prop
  | number _ => True
  | var _ => True
  | unary _ child => child.Known
  | binary op left right => op ∈ operators ∧ left.Known ∧ right.Known
  | call₀ _ => True
  | call₁ _ arg => arg.Known
  | call₂ _ arg₁ arg₂ => arg₁.Known ∧ arg₂.Known

/-- The nodes of the tree from an index on, the root last. -/
def layout (base : Nat) : Tree F → List (Node F)
  | number value => [.number value]
  | var name => [.variable name]
  | unary op child => layout base child ++ [.unary op (base + child.size - 1)]
  | binary op left right =>
    layout base left ++ layout (base + left.size) right ++
      [.binary op (base + left.size - 1) (base + left.size + right.size - 1)]
  | call₀ name => [.call name []]
  | call₁ name arg => layout base arg ++ [.call name [base + arg.size - 1]]
  | call₂ name arg₁ arg₂ =>
    layout base arg₁ ++ layout (base + arg₁.size) arg₂ ++
      [.call name [base + arg₁.size - 1, base + arg₁.size + arg₂.size - 1]]

/-- The value of the tree. -/
def eval (d : Doubles F) (ctx : Context F σ) : Tree F → Eval F σ
  | number value => fun s => .ok (value, s)
  | var name => evalVariable d ctx name
  | unary op child => Eval.bind (child.eval d ctx) fun child s => .ok (evalUnary d op child, s)
  | binary op left right =>
    Eval.bind (left.eval d ctx) fun left => Eval.bind (right.eval d ctx) fun right => applyBinary d op left right
  | call₀ name => evalCall d ctx name []
  | call₁ name arg => Eval.bind (arg.eval d ctx) fun arg => evalCall d ctx name [arg]
  | call₂ name arg₁ arg₂ =>
    Eval.bind (arg₁.eval d ctx) fun arg₁ => Eval.bind (arg₂.eval d ctx) fun arg₂ => evalCall d ctx name [arg₁, arg₂]

theorem size_pos (t : Tree F) : 0 < t.size := by
  cases t <;> simp [size]

@[simp] theorem layout_length (t : Tree F) (base : Nat) : (t.layout base).length = t.size := by
  induction t generalizing base with
  | number => rfl
  | var => rfl
  | unary _ _ ih => simp [layout, size, ih]
  | binary _ _ _ ih ih' | call₂ _ _ _ ih ih' => simp [layout, size, ih, ih', Nat.add_assoc]
  | call₀ => rfl
  | call₁ _ _ ih => simp [layout, size, ih]

theorem layout_children (t : Tree F) (base : Nat) :
    ((t.layout base).flatMap Node.children).Perm (List.range' base (t.size - 1)) := by
  have whole : ∀ (u : Tree F) (base : Nat), List.range' base u.size = List.range' base (u.size - 1) ++ [base + u.size - 1] := by
    intro u base
    have some := u.size_pos
    obtain ⟨n, size⟩ : ∃ n, u.size = n + 1 := ⟨u.size - 1, by omega⟩
    rw [size, range'_concat]
    simp
  have both : ∀ (a b : Tree F) (base : Nat) (xs ys : List Nat), xs.Perm (List.range' base (a.size - 1)) →
      ys.Perm (List.range' (base + a.size) (b.size - 1)) →
      (xs ++ ys ++ [base + a.size - 1, base + a.size + b.size - 1]).Perm (List.range' base (a.size + b.size)) := by
    intro a b base xs ys hx hy
    have split : List.range' base (a.size + b.size) = List.range' base a.size ++ List.range' (base + a.size) b.size := by
      rw [range'_append_1]
    rw [split, whole a, whole b]
    refine (List.Perm.append_right _ (hx.append hy)).trans ?_
    simp only [append_assoc]
    refine List.Perm.append_left _ ?_
    exact (perm_append_comm_assoc _ [base + a.size - 1] [base + a.size + b.size - 1]).trans (.refl _)
  induction t generalizing base with
  | number => exact .refl _
  | var => exact .refl _
  | unary op child ih =>
    simp only [layout, size, flatMap_append, flatMap_singleton, Node.children, Nat.add_sub_cancel]
    rw [whole child]
    exact (ih base).append_right _
  | binary op left right ih ih' =>
    simp only [layout, size, flatMap_append, flatMap_singleton, Node.children, Nat.add_sub_cancel]
    exact both left right base _ _ (ih base) (ih' _)
  | call₀ => exact .refl _
  | call₁ name arg ih =>
    simp only [layout, size, flatMap_append, flatMap_singleton, Node.children, Nat.add_sub_cancel]
    rw [whole arg]
    exact (ih base).append_right _
  | call₂ name arg₁ arg₂ ih ih' =>
    simp only [layout, size, flatMap_append, flatMap_singleton, Node.children, Nat.add_sub_cancel]
    exact both arg₁ arg₂ base _ _ (ih base) (ih' _)

/-- The node of the root. -/
def rootNode (base : Nat) : Tree F → Node F
  | number value => .number value
  | var name => .variable name
  | unary op child => .unary op (base + child.size - 1)
  | binary op left right => .binary op (base + left.size - 1) (base + left.size + right.size - 1)
  | call₀ name => .call name []
  | call₁ name arg => .call name [base + arg.size - 1]
  | call₂ name arg₁ arg₂ => .call name [base + arg₁.size - 1, base + arg₁.size + arg₂.size - 1]

def At (nodes : List (Node F)) (base : Nat) (t : Tree F) : Prop :=
  ∃ pre post, pre.length = base ∧ nodes = pre ++ (t.layout base ++ post)

section At

variable {nodes : List (Node F)} {base : Nat} {t left right : Tree F} {n : Node F} {pre post : List (Node F)}

theorem layout_root (t : Tree F) (base : Nat) : ∃ inner, t.layout base = inner ++ [t.rootNode base] := by
  cases t with
  | number => exact ⟨[], rfl⟩
  | var => exact ⟨[], rfl⟩
  | unary => exact ⟨_, rfl⟩
  | binary => exact ⟨_, rfl⟩
  | call₀ => exact ⟨[], rfl⟩
  | call₁ => exact ⟨_, rfl⟩
  | call₂ => exact ⟨_, rfl⟩

theorem At.root (h : At nodes base t) : nodes[base + t.size - 1]? = some (t.rootNode base) := by
  obtain ⟨pre, post, rfl, rfl⟩ := h
  obtain ⟨inner, split⟩ := t.layout_root pre.length
  have size : inner.length + 1 = t.size := by
    rw [← layout_length t pre.length, split, length_append, length_singleton]
  have place : pre.length + t.size - 1 = pre.length + inner.length := by omega
  rw [split, place]
  simp

theorem At.only {rest : List (Node F)} (h : ∃ pre post, pre.length = base ∧ nodes = pre ++ (t.layout base ++ rest ++ post)) :
    At nodes base t := by
  obtain ⟨pre, post, length, split⟩ := h
  exact ⟨pre, rest ++ post, length, by rw [split, append_assoc]⟩

theorem At.both {rest : List (Node F)} (h : ∃ pre post, pre.length = base ∧
      nodes = pre ++ (left.layout base ++ right.layout (base + left.size) ++ rest ++ post)) :
    At nodes base left ∧ At nodes (base + left.size) right := by
  obtain ⟨pre, post, length, split⟩ := h
  constructor
  · refine ⟨pre, right.layout (base + left.size) ++ (rest ++ post), length, ?_⟩
    rw [split]
    simp only [append_assoc]
  · refine ⟨pre ++ left.layout base, rest ++ post, ?_, ?_⟩
    · rw [length_append, length, layout_length]
    · rw [split]
      simp only [append_assoc]

end At

theorem evalNode_at (d : Doubles F) (ctx : Context F σ) {program : Program F} {t : Tree F} {base levels : Nat}
    (place : At program.nodes base t) (room : t.depth < levels) :
    evalNode d program ctx levels (base + t.size - 1) = t.eval d ctx := by
  induction t generalizing base levels with
  | number value | var name =>
    obtain ⟨levels, rfl⟩ := Nat.exists_eq_add_one_of_ne_zero (Nat.ne_zero_of_lt room)
    simp only [evalNode, place.root, rootNode, eval]
  | unary op child ih =>
    obtain ⟨levels, rfl⟩ := Nat.exists_eq_add_one_of_ne_zero (Nat.ne_zero_of_lt room)
    have inner := ih (At.only place) (Nat.lt_of_succ_lt_succ room)
    simp only [evalNode, place.root, rootNode, eval, inner]
  | binary op left right ih ih' =>
    obtain ⟨levels, rfl⟩ := Nat.exists_eq_add_one_of_ne_zero (Nat.ne_zero_of_lt room)
    obtain ⟨leftPlace, rightPlace⟩ := At.both place
    rw [depth] at room
    have first : evalNode d program ctx levels _ = _ := ih leftPlace (by omega)
    have second : evalNode d program ctx levels _ = _ := ih' rightPlace (by omega)
    simp only [evalNode, place.root, rootNode, eval, first, second]
  | call₀ name =>
    obtain ⟨levels, rfl⟩ := Nat.exists_eq_add_one_of_ne_zero (Nat.ne_zero_of_lt room)
    simp only [evalNode, place.root, rootNode, eval]
    rfl
  | call₁ name arg ih =>
    obtain ⟨levels, rfl⟩ := Nat.exists_eq_add_one_of_ne_zero (Nat.ne_zero_of_lt room)
    have inner := ih (At.only place) (Nat.lt_of_succ_lt_succ room)
    simp only [evalNode, place.root, rootNode, eval, map_cons, map_nil, inner, evalAll_one]
  | call₂ name arg₁ arg₂ ih ih' =>
    obtain ⟨levels, rfl⟩ := Nat.exists_eq_add_one_of_ne_zero (Nat.ne_zero_of_lt room)
    obtain ⟨firstPlace, secondPlace⟩ := At.both place
    rw [depth] at room
    have first : evalNode d program ctx levels _ = _ := ih firstPlace (by omega)
    have second : evalNode d program ctx levels _ = _ := ih' secondPlace (by omega)
    simp only [evalNode, place.root, rootNode, eval, map_cons, map_nil, first, second, evalAll_two]

variable {ctx : Context F σ}

variable {d : Doubles F}

variable {e : EspErr × String}

theorem evalVariable_error {name : String} {s : σ}
    (h : evalVariable d ctx name s = .error e) : e.1 = .notFound ∧ (ctx.variableFn name s).1 = none := by
  rw [evalVariable] at h
  split at h
  · exact nomatch h
  · split at h
    · exact nomatch h
    · split at h
      · exact nomatch h
      · split at h
        · exact nomatch h
        · rename_i missing
          cases h
          exact ⟨rfl, by rw [missing]⟩

theorem evalCall_error {name : String} {args : List F} {s : σ}
    (h : evalCall d ctx name args s = .error e) : e.1 = .notFound ∧ (ctx.functionFn name args s).1 = none := by
  rw [evalCall] at h
  split at h
  · exact nomatch h
  · split at h
    · exact nomatch h
    · rename_i missing
      cases h
      exact ⟨rfl, by rw [missing]⟩

theorem applyBinary_known {op : UInt8} (known : op ∈ operators)
    (left right : F) (s : σ) : ∃ value, applyBinary d op left right s = .ok (value, s) := by
  simp only [operators, mem_cons, not_mem_nil, or_false] at known
  rcases known with rfl | rfl | rfl | rfl | rfl | rfl <;> exact ⟨_, rfl⟩

def Accepts (ctx : Context F σ) : Prop :=
  (∀ name s, (ctx.variableFn name s).1.isSome = true) ∧ ∀ name args s, (ctx.functionFn name args s).1.isSome = true

theorem eval_error {t : Tree F} (known : t.Known) {s : σ}
    (h : t.eval d ctx s = .error e) : e.1 = .notFound ∧ ¬Accepts ctx := by
  induction t generalizing s with
  | number => exact nomatch h
  | var name =>
    obtain ⟨notFound, missing⟩ := evalVariable_error h
    refine ⟨notFound, fun accepts => ?_⟩
    have knows := accepts.1 name s
    rw [missing] at knows
    exact nomatch knows
  | unary op child ih =>
    rcases Eval.bind_error h with h | ⟨_, _, _, h⟩
    · exact ih known h
    · exact nomatch h
  | binary op left right ih ih' =>
    rcases Eval.bind_error h with h | ⟨l, s₁, _, h⟩
    · exact ih known.2.1 h
    · rcases Eval.bind_error h with h | ⟨r, s₂, _, h⟩
      · exact ih' known.2.2 h
      · obtain ⟨value, ok⟩ := applyBinary_known (d := d) known.1 l r s₂
        exact nomatch h.symm.trans ok
  | call₀ name =>
    obtain ⟨notFound, missing⟩ := evalCall_error h
    refine ⟨notFound, fun accepts => ?_⟩
    have knows := accepts.2 name [] s
    rw [missing] at knows
    exact nomatch knows
  | call₁ name arg ih =>
    rcases Eval.bind_error h with h | ⟨a, s₁, _, h⟩
    · exact ih known h
    · obtain ⟨notFound, missing⟩ := evalCall_error h
      refine ⟨notFound, fun accepts => ?_⟩
      have knows := accepts.2 name [a] s₁
      rw [missing] at knows
      exact nomatch knows
  | call₂ name arg₁ arg₂ ih ih' =>
    rcases Eval.bind_error h with h | ⟨a, s₁, _, h⟩
    · exact ih known.1 h
    · rcases Eval.bind_error h with h | ⟨b, s₂, _, h⟩
      · exact ih' known.2 h
      · obtain ⟨notFound, missing⟩ := evalCall_error h
        refine ⟨notFound, fun accepts => ?_⟩
        have knows := accepts.2 name [a, b] s₂
        rw [missing] at knows
        exact nomatch knows

theorem eval_accepts (d : Doubles F) {t : Tree F} (known : t.Known) (accepts : Accepts ctx) (s : σ) :
    ∃ value s', t.eval d ctx s = .ok (value, s') := by
  cases ran : t.eval d ctx s with
  | error e => exact absurd accepts (eval_error known ran).2
  | ok pair => exact ⟨pair.1, pair.2, rfl⟩

theorem two_deep {x y : Eval F σ} {f : F → F → Eval F σ} {s : σ}
    (first : x s = .error e ∨ ∃ value s', x s = .ok (value, s')) (deep : (∀ s, x s = .error e) ∨ ∀ s, y s = .error e) :
    Eval.bind x (fun value => Eval.bind y fun value' => f value value') s = .error e := by
  rcases first with failed | ⟨value, s', ok⟩
  · exact Eval.bind_of_error failed
  · rcases deep with failed | failed
    · exact nomatch ok.symm.trans (failed s)
    · exact (Eval.bind_of_ok ok).trans (Eval.bind_of_error (failed s'))

theorem evalNode_deep (d : Doubles F) {program : Program F} {t : Tree F} {base levels : Nat}
    (place : At program.nodes base t) (known : t.Known) (accepts : Accepts ctx) (deep : levels ≤ t.depth) (s : σ) :
    evalNode d program ctx levels (base + t.size - 1) s = .error (.invalidState, "evaluation depth exceeded") := by
  -- a part of the tree has its value, unless it is too deep itself
  have part : ∀ {u : Tree F} {base levels : Nat}, At program.nodes base u → u.Known →
      (levels ≤ u.depth → ∀ s, evalNode d program ctx levels (base + u.size - 1) s =
        .error (.invalidState, "evaluation depth exceeded")) →
      ∀ s, evalNode d program ctx levels (base + u.size - 1) s = .error (.invalidState, "evaluation depth exceeded") ∨
        ∃ value s', evalNode d program ctx levels (base + u.size - 1) s = .ok (value, s') := by
    intro u base levels place known fails s
    by_cases room : u.depth < levels
    · rw [evalNode_at d ctx place room]
      exact .inr (eval_accepts d known accepts s)
    · exact .inl (fails (Nat.not_lt.mp room) s)
  induction t generalizing base levels s with
  | number | var | call₀ =>
    cases Nat.le_zero.mp deep
    rfl
  | unary op child ih =>
    cases levels with
    | zero => rfl
    | succ levels =>
      have inner := ih (At.only place) known (Nat.le_of_succ_le_succ deep)
      simp only [evalNode, place.root, rootNode]
      exact Eval.bind_of_error (inner s)
  | binary op left right ih ih' =>
    cases levels with
    | zero => rfl
    | succ levels =>
      obtain ⟨leftPlace, rightPlace⟩ := At.both place
      have below : levels ≤ left.depth ∨ levels ≤ right.depth := by
        rw [depth] at deep
        omega
      simp only [evalNode, place.root, rootNode]
      exact two_deep (part leftPlace known.2.1 (ih leftPlace known.2.1) s)
        (below.imp (ih leftPlace known.2.1) (ih' rightPlace known.2.2))
  | call₁ name arg ih =>
    cases levels with
    | zero => rfl
    | succ levels =>
      have inner := ih (At.only place) known (Nat.le_of_succ_le_succ deep)
      simp only [evalNode, place.root, rootNode, map_cons, map_nil, evalAll_one]
      exact Eval.bind_of_error (inner s)
  | call₂ name arg₁ arg₂ ih ih' =>
    cases levels with
    | zero => rfl
    | succ levels =>
      obtain ⟨firstPlace, secondPlace⟩ := At.both place
      have below : levels ≤ arg₁.depth ∨ levels ≤ arg₂.depth := by
        rw [depth] at deep
        omega
      simp only [evalNode, place.root, rootNode, map_cons, map_nil, evalAll_two]
      exact two_deep (part firstPlace known.1 (ih firstPlace known.1) s)
        (below.imp (ih firstPlace known.1) (ih' secondPlace known.2))

end Tree

end SolarOs.Expr
