import SolarOs.Library.CString
import SolarOs.Esp

/-! Expressions: the parser that compiles a source to an array of nodes, and the evaluation
of the nodes in a context. -/
namespace SolarOs.Expr

def nodeMax : Nat := 64
def nameMax : Nat := 16
def argMax : Nat := 2
def evalDepthMax : Nat := 24

/-- The numbers of type `double` and the functions of the mathematical library. -/
structure Doubles (F : Type) where
  strtod : List UInt8 → F
  nat : Nat → F
  pi : F
  e : F
  neg : F → F
  add : F → F → F
  sub : F → F → F
  mul : F → F → F
  div : F → F → F
  fmod : F → F → F
  pow : F → F → F
  sin : F → F
  cos : F → F
  tan : F → F
  asin : F → F
  acos : F → F
  atan : F → F
  sqrt : F → F
  fabs : F → F
  exp : F → F
  log : F → F
  log10 : F → F
  floor : F → F
  ceil : F → F
  round : F → F
  fmin : F → F → F
  fmax : F → F → F
  atan2 : F → F → F
  isfinite : F → Bool

inductive Node (F : Type) where
  | number (value : F)
  | variable (name : String)
  | unary (op : UInt8) (child : Nat)
  | binary (op : UInt8) (left right : Nat)
  | call (name : String) (args : List Nat)

def Node.children {F : Type} : Node F → List Nat
  | .number _ => []
  | .variable _ => []
  | .unary _ child => [child]
  | .binary _ left right => [left, right]
  | .call _ args => args

structure Program (F : Type) where
  nodes : List (Node F)
  root : Nat
  usesX : Bool

section
variable (ch : UInt8)

def isSpace : Bool := ch = 0x20 || (0x09 ≤ ch && ch ≤ 0x0d)
def isDigit : Bool := 0x30 ≤ ch && ch ≤ 0x39
def isAlpha : Bool := (0x41 ≤ ch && ch ≤ 0x5a) || (0x61 ≤ ch && ch ≤ 0x7a)
def isXdigit : Bool := isDigit ch || (0x41 ≤ ch && ch ≤ 0x46) || (0x61 ≤ ch && ch ≤ 0x66)
def toLower : UInt8 := if 0x41 ≤ ch && ch ≤ 0x5a then ch + 0x20 else ch
def isName : Bool := isAlpha ch || isDigit ch || ch = 0x5f

end

/-- Digits with a point among them or not, at least one of them. -/
def mantissa (digit : UInt8 → Bool) (p : List UInt8) : Option (List UInt8) :=
  let whole := p.dropWhile digit
  match whole with
  | 0x2e :: rest =>
    let after := rest.dropWhile digit
    if whole.length = p.length ∧ after.length = rest.length then none else some after
  | _ => if whole.length = p.length then none else some whole

def afterSign : List UInt8 → List UInt8
  | [] => []
  | sign :: rest => if sign = 0x2b ∨ sign = 0x2d then rest else sign :: rest

def exponent (letter : UInt8) (p : List UInt8) : List UInt8 :=
  match p with
  | [] => p
  | ch :: rest =>
    let after := (afterSign rest).dropWhile isDigit
    if toLower ch ≠ letter ∨ after.length = (afterSign rest).length then p else after

/-- What `strtod` leaves of a text that starts with a digit or a point. -/
def strtodEnd (p : List UInt8) : Option (List UInt8) :=
  let hex := match p with
    | zero :: x :: rest => if zero = 0x30 ∧ toLower x = 0x78 then mantissa isXdigit rest else none
    | _ => none
  match hex with
  | some after => some (exponent 0x70 after)
  | none => (mantissa isDigit p).map (exponent 0x65)

/-- `expr_parser_t`: the text at the cursor ends at the terminator. The error has its position. -/
structure Parser (F : Type) where
  source : List UInt8
  cursor : List UInt8
  nodes : List (Node F)
  usesX : Bool
  error : Option (Nat × String)

variable {F : Type}

namespace Parser

variable (p : Parser F)

/-- `*parser->cursor`. -/
def peek : UInt8 := p.cursor.headD 0

/-- `parser->cursor++`. -/
def advance : Parser F := { p with cursor := p.cursor.tail }

def fail (message : String) : Parser F :=
  if p.error.isSome then p else { p with error := some (p.source.length - p.cursor.length, message) }

def space : Parser F := { p with cursor := p.cursor.dropWhile isSpace }

def node (n : Node F) : Option Nat × Parser F :=
  if p.nodes.length ≥ nodeMax then (none, p.fail "expression is too complex")
  else (some p.nodes.length, { p with nodes := p.nodes ++ [n] })

/-- The loop of `parser_identifier`: whether the name fits, the name and the cursor. -/
def nameLoop (name : List UInt8) : List UInt8 → Bool × List UInt8 × List UInt8
  | [] => (true, name, [])
  | ch :: rest =>
    if ¬isName ch then (true, name, ch :: rest)
    else if name.length + 1 ≥ nameMax then (false, name, ch :: rest)
    else nameLoop (name ++ [toLower ch]) rest

def nameOf (bytes : List UInt8) : String := String.ofList (bytes.map fun b => Char.ofNat b.toNat)

def identifier : Option String × Parser F :=
  let p := p.space
  if ¬(isAlpha p.peek || p.peek = 0x5f) then (none, p)
  else
    let (fits, name, cursor) := nameLoop [] p.cursor
    if fits then (some (nameOf name), { p with cursor })
    else (none, { p with cursor }.fail "name is too long")

def startsImplicitFactor : Bool × Parser F :=
  let p := p.space
  (p.peek = 0x28 || isAlpha p.peek || p.peek = 0x5f, p)

end Parser

variable (d : Doubles F)

/-- The numbers in `parser_primary`. -/
def parserNumber (p : Parser F) : Option Nat × Parser F :=
  match strtodEnd p.cursor with
  | none => (none, p.fail "invalid number")
  | some rest =>
    { p with cursor := rest }.node (.number (d.strtod (p.cursor.take (p.cursor.length - rest.length))))

/-- The variables in `parser_primary`. -/
def parserVariable (name : String) (p : Parser F) : Option Nat × Parser F :=
  { p with usesX := p.usesX || name = "x" }.node (.variable name)

/-- What a parser function gives: an index, or none for -1, and the parser after it. -/
abbrev Parsed (F α : Type) := Option α × Parser F

-- The recursion is bounded by a depth, and cut off there; `compile` gives it enough.
mutual

def parserPrimary : Nat → Parser F → Option (Parsed F Nat)
  | 0, _ => none
  | depth + 1, p =>
    let p := p.space
    if p.peek = 0x28 then do
      let (child, p) ← parserExpression depth p.advance
      let p := p.space
      if p.peek ≠ 0x29 then some (none, p.fail "expected ')'")
      else some (child, p.advance)
    else if isDigit p.peek || p.peek = 0x2e then some (parserNumber d p)
    else
      match p.identifier with
      | (none, p) => some (none, p.fail "expected a number, name, or '('")
      | (some name, p) =>
        let p := p.space
        if p.peek ≠ 0x28 then some (parserVariable name p)
        else
          let p := p.advance.space
          if p.peek = 0x29 then some (p.advance.node (.call name []))
          else do
            let (args, p) ← parserArguments depth [] p
            match args with
            | none => some (none, p)
            | some args =>
              if p.peek ≠ 0x29 then some (none, p.fail "expected ')' after arguments")
              else some (p.advance.node (.call name args))

/-- The loop over arguments in `parser_primary`. -/
def parserArguments : Nat → List Nat → Parser F → Option (Parsed F (List Nat))
  | 0, _, _ => none
  | depth + 1, args, p =>
    if args.length ≥ argMax then some (none, p.fail "functions accept at most two arguments")
    else do
      let (arg, p) ← parserExpression depth p
      match arg with
      | none => some (none, p)
      | some arg =>
        let p := p.space
        if p.peek ≠ 0x2c then some (some (args ++ [arg]), p)
        else parserArguments depth (args ++ [arg]) p.advance

def parserUnary : Nat → Parser F → Option (Parsed F Nat)
  | 0, _ => none
  | depth + 1, p =>
    let p := p.space
    let op := p.peek
    if op = 0x2b ∨ op = 0x2d then do
      let (child, p) ← parserUnary depth p.advance
      match child with
      | none => some (none, p)
      | some child => some (p.node (.unary op child))
    else parserPower depth p

def parserPower : Nat → Parser F → Option (Parsed F Nat)
  | 0, _ => none
  | depth + 1, p => do
    let (left, p) ← parserPrimary depth p
    match left with
    | none => some (none, p)
    | some left =>
      let p := p.space
      if p.peek = 0x5e then do
        let (right, p) ← parserUnary depth p.advance
        match right with
        | none => some (none, p)
        | some right => some (p.node (.binary 0x5e left right))
      else some (some left, p)

/-- The loop of `parser_term`. -/
def termLoop : Nat → Option Nat → Parser F → Option (Parsed F Nat)
  | 0, _, _ => none
  | _ + 1, none, p => some (none, p)
  | depth + 1, some left, p =>
    let p := p.space
    let op := p.peek
    let (goesOn, op, p) :=
      if op = 0x2a ∨ op = 0x2f ∨ op = 0x25 then (true, op, p.advance)
      else (p.startsImplicitFactor.1, 0x2a, p.startsImplicitFactor.2)
    if goesOn then do
      let (right, p) ← parserUnary depth p
      match right with
      | none => some (none, p)
      | some right =>
        let (left, p) := p.node (.binary op left right)
        termLoop depth left p
    else some (some left, p)

def parserTerm : Nat → Parser F → Option (Parsed F Nat)
  | 0, _ => none
  | depth + 1, p => do
    let (left, p) ← parserUnary depth p
    termLoop depth left p

/-- The loop of `parser_expression`. -/
def expressionLoop : Nat → Option Nat → Parser F → Option (Parsed F Nat)
  | 0, _, _ => none
  | _ + 1, none, p => some (none, p)
  | depth + 1, some left, p =>
    let p := p.space
    let op := p.peek
    if op ≠ 0x2b ∧ op ≠ 0x2d then some (some left, p)
    else do
      let (right, p) ← parserTerm depth p.advance
      match right with
      | none => some (none, p)
      | some right =>
        let (left, p) := p.node (.binary op left right)
        expressionLoop depth left p

def parserExpression : Nat → Parser F → Option (Parsed F Nat)
  | 0, _ => none
  | depth + 1, p => do
    let (left, p) ← parserTerm depth p
    expressionLoop depth left p

end

def enough (length : Nat) : Nat := 10 * length + 7

def compile (source : CString) : Option (Except (EspErr × Nat × String) (Program F)) :=
  let p : Parser F := { source := source.bytes, cursor := source.bytes, nodes := [], usesX := false, error := none }
  let p := p.space
  if p.peek = 0 then
    some (.error (.invalidArg, (p.fail "empty expression").error.getD (0, "")))
  else do
    let (root, p) ← parserExpression d (enough p.cursor.length) p
    let p := p.space
    let p := if p.error.isNone && p.peek ≠ 0 then p.fail "unexpected character" else p
    match p.error, root with
    | none, some root => some (.ok { nodes := p.nodes, root, usesX := p.usesX })
    | error, _ => some (.error (.invalidArg, error.getD (0, "")))

/-- `solar_os_expr_context_t`: the callbacks have a state of their own; one that is missing
finds nothing. -/
structure Context (F σ : Type) where
  variableFn : String → σ → Option F × σ
  functionFn : String → List F → σ → Option F × σ
  x : Option F

def exprBuiltin (name : String) (args : List F) : Option F :=
  match name, args with
  | "sin", [x] => some (d.sin x)
  | "cos", [x] => some (d.cos x)
  | "tan", [x] => some (d.tan x)
  | "asin", [x] => some (d.asin x)
  | "acos", [x] => some (d.acos x)
  | "atan", [x] => some (d.atan x)
  | "sqrt", [x] => some (d.sqrt x)
  | "abs", [x] => some (d.fabs x)
  | "exp", [x] => some (d.exp x)
  | "ln", [x] => some (d.log x)
  | "log", [x] => some (d.log10 x)
  | "log10", [x] => some (d.log10 x)
  | "floor", [x] => some (d.floor x)
  | "ceil", [x] => some (d.ceil x)
  | "round", [x] => some (d.round x)
  | "deg", [x] => some (d.div (d.mul x (d.nat 180)) d.pi)
  | "rad", [x] => some (d.div (d.mul x d.pi) (d.nat 180))
  | "pow", [x, y] => some (d.pow x y)
  | "min", [x, y] => some (d.fmin x y)
  | "max", [x, y] => some (d.fmax x y)
  | "atan2", [x, y] => some (d.atan2 x y)
  | _, _ => none

variable {σ : Type}

/-- A value and the state of the callbacks, or an error and its message. -/
abbrev Eval (F σ : Type) := σ → Except (EspErr × String) (F × σ)

def evalVariable (ctx : Context F σ) (name : String) : Eval F σ := fun s =>
  if name = "pi" then .ok (d.pi, s)
  else if name = "e" then .ok (d.e, s)
  else
    match if name = "x" then ctx.x else none with
    | some x => .ok (x, s)
    | none =>
      match ctx.variableFn name s with
      | (some value, s) => .ok (value, s)
      | (none, _) => .error (.notFound, "unknown variable")

def evalUnary (op : UInt8) (child : F) : F := if op = 0x2d then d.neg child else child

def evalBinary (op : UInt8) (left right : F) : Option F :=
  if op = 0x2b then some (d.add left right)
  else if op = 0x2d then some (d.sub left right)
  else if op = 0x2a then some (d.mul left right)
  else if op = 0x2f then some (d.div left right)
  else if op = 0x25 then some (d.fmod left right)
  else if op = 0x5e then some (d.pow left right)
  else none

def applyBinary (op : UInt8) (left right : F) : Eval F σ := fun s =>
  match evalBinary d op left right with
  | some value => .ok (value, s)
  | none => .error (.invalidState, "")

def evalCall (ctx : Context F σ) (name : String) (args : List F) : Eval F σ := fun s =>
  match exprBuiltin d name args with
  | some value => .ok (value, s)
  | none =>
    match ctx.functionFn name args s with
    | (some value, s) => .ok (value, s)
    | (none, _) => .error (.notFound, "unknown function or wrong argument count")

def Eval.bind {α β : Type} (x : σ → Except (EspErr × String) (α × σ))
    (f : α → σ → Except (EspErr × String) (β × σ)) : σ → Except (EspErr × String) (β × σ) := fun s =>
  match x s with
  | .ok (value, s) => f value s
  | .error e => .error e

def evalAll : List (Eval F σ) → σ → Except (EspErr × String) (List F × σ)
  | [], s => .ok ([], s)
  | x :: xs, s => Eval.bind x (fun value => Eval.bind (evalAll xs) fun values s => .ok (value :: values, s)) s

/-- `expr_eval_node`, with that many levels of depth left. -/
def evalNode (program : Program F) (ctx : Context F σ) : Nat → Nat → Eval F σ
  | 0, _ => fun _ => .error (.invalidState, "evaluation depth exceeded")
  | levels + 1, index =>
    match program.nodes[index]? with
    | none => fun _ => .error (.invalidState, "evaluation depth exceeded")
    | some (.number value) => fun s => .ok (value, s)
    | some (.variable name) => evalVariable d ctx name
    | some (.unary op child) =>
      Eval.bind (evalNode program ctx levels child) fun child s => .ok (evalUnary d op child, s)
    | some (.binary op left right) =>
      Eval.bind (evalNode program ctx levels left) fun left =>
        Eval.bind (evalNode program ctx levels right) fun right => applyBinary d op left right
    | some (.call name args) =>
      Eval.bind (evalAll (args.map (evalNode program ctx levels))) fun args => evalCall d ctx name args

/-- The check of the result in `solar_os_expr_evaluate`. -/
def checkFinite (x : Eval F σ) : Eval F σ :=
  Eval.bind x fun value s =>
    if d.isfinite value then .ok (value, s) else .error (.invalidResponse, "result is outside the real domain")

def evaluate (program : Program F) (ctx : Context F σ) : Eval F σ :=
  if program.nodes.length = 0 then fun _ => .error (.invalidArg, "")
  else checkFinite d (evalNode d program ctx (evalDepthMax + 1) program.root)

end SolarOs.Expr
