import RadianceTransfer.Script.Parse
import RadianceTransfer.Script.Simplify

/-!
# Evaluating a scene script

Expressions are evaluated from left to right, on a stack of variables. The arguments in a chain of
points come before the root of the chain, and where the first argument of a function is a variable
it comes behind the others. A block takes its own variables off the stack at its end, but what it
assigned to others stays. Of the sides of a choice only the chosen one is evaluated.

An expression has no value if it names an unknown variable or function, or applies something to
values that it is not meant for. The use of a variable whose declaration was left out as idle may
find the stack too short, which is a fault of another kind.

## Main definitions

* `Fault`: why there is no value.
* `builtin?`: the functions that a script can call.
* `Expr.eval`, `Stmt.eval`: the values of expressions and statements.
* `run`: the value of a script.
-/

namespace RadianceTransfer.Script

/-- Why a script has no value. -/
inductive Fault where
  /-- It is no script, or something in it has no value. -/
  | invalid
  /-- The place of a variable is below the bottom of the stack. -/
  | stackTooShort
  deriving DecidableEq

/-- A computation on the stack of variables, which is headed by its top. -/
abbrev Evaluation (α β : Type) : Type :=
  StateT (List (Value α)) (Except Fault) β

namespace Evaluation

variable {α β : Type}

/-- Fails without a value. -/
def fail : Evaluation α β :=
  throw Fault.invalid

/-- A value, if there is one. -/
def ofOption (x? : Option β) : Evaluation α β :=
  match x? with
  | some x => pure x
  | none => fail

/-- The value of a variable. -/
def read (x : Variable) : Evaluation α (Value α) := do
  match x.place? with
  | none => fail
  | some place =>
    match (← get)[place]? with
    | some v => pure v
    | none => throw Fault.stackTooShort

/-- Changes the value of a variable, if it can be changed so. -/
def modifyAt (x : Variable) (f : Value α → Option (Value α)) : Evaluation α Unit := do
  let new ← ofOption (f (← read x))
  modify fun stack => stack.modify (x.place?.getD 0) fun _ => new

/-- A computation whose own variables are taken off the stack at its end. -/
def inBlock (work : Evaluation α β) : Evaluation α β := do
  let height := (← get).length
  let x ← work
  modify fun stack => stack.drop (stack.length - height)
  pure x

end Evaluation

variable {α : Type} [Scalar α] [NumberText α]

/-- The functions that a script can call. None of them makes scalars of whole numbers by itself, but
some are meant for both. -/
def builtin? : String → List (Value α) → Option (Value α)
  | "vec3", [.scalar x, .scalar y, .scalar z] => some (.vector ⟨x, y, z⟩)
  | "vec3", [.int i, .int j, .int k] =>
    some (.vector ⟨Scalar.ofInt i, Scalar.ofInt j, Scalar.ofInt k⟩)
  | "scale", [.vector v, .scalar s] => some (.vector (v.scale s))
  | "identity", [] => some (.rotation Mat3.identity)
  | "rotate", [.scalar degrees, .vector axis] => some (.rotation (Mat3.rotate degrees axis))
  | "rotate", [.int degrees, .vector axis] =>
    some (.rotation (Mat3.rotate (Scalar.ofInt degrees) axis))
  | _, _ => none

/-- The value of an operator in front of an operand. -/
def UnaryOp.result? : UnaryOp → Value α → Option (Value α)
  | .negate, a => a.negate
  | .keep, a => a.keep
  | .not, a => a.not

/-- What a variable holds after an operator is applied to it and another value. -/
def BinaryOp.update? : BinaryOp → Value α → Value α → Option (Value α)
  | .plus, a, b => a.added b
  | op, a, b => op.result? a b

mutual

/-- The value of an expression. -/
def Expr.eval : Expr α → Evaluation α (Value α)
  | .literal v => pure v
  | .variable x => .read x
  | .unary op a => do
    let v ← a.eval
    .ofOption (op.result? v)
  | .binary op a b => do
    let v ← a.eval
    let w ← b.eval
    .ofOption (op.result? v w)
  | .call f (.variable x :: args) => do
    let vs ← evalAll args
    let v ← Evaluation.read x
    .ofOption (builtin? f (v :: vs))
  | .call f args => do
    let vs ← evalAll args
    .ofOption (builtin? f vs)
  | .chain root links => do
    let steps ← evalLinks links
    let v ← root.eval
    .ofOption (steps.foldlM (fun v step => step v) v)
  | .array items => do
    let vs ← evalAll items
    pure (.array vs)
  | .map names items => do
    let vs ← evalAll items
    pure (.map (names.zip vs))
  | .block body => .inBlock (evalBody .unit body)

/-- The values of some expressions. -/
def evalAll : List (Expr α) → Evaluation α (List (Value α))
  | [] => pure []
  | e :: es => do
    let v ← e.eval
    let vs ← evalAll es
    pure (v :: vs)

/-- What leads from the value in front of a point to the one behind it. -/
def Link.eval : Link α → Evaluation α (Value α → Option (Value α))
  | .property name => pure (Value.property? name)
  | .method f args => do
    let vs ← evalAll args
    pure fun v => builtin? f (v :: vs)

/-- What leads from point to point. -/
def evalLinks : List (Link α) → Evaluation α (List (Value α → Option (Value α)))
  | [] => pure []
  | link :: links => do
    let step ← link.eval
    let steps ← evalLinks links
    pure (step :: steps)

/-- The value of a statement. -/
def Stmt.eval : Stmt α → Evaluation α (Value α)
  | .empty => pure .unit
  | .value a => a.eval
  | .declare a => do
    let v ← a.eval
    modify (v :: ·)
    pure .unit
  | .assign x path a => do
    let v ← a.eval
    Evaluation.modifyAt x (Value.setPath? v path)
    pure .unit
  | .update x op a => do
    let w ← a.eval
    Evaluation.modifyAt x fun v => op.update? v w
    pure .unit
  | .choice condition yes no => do
    match ← condition.eval with
    | .bool true => .inBlock (evalBody .unit yes)
    | .bool false => .inBlock (evalBody .unit no)
    | _ => .fail
  | .group body => .inBlock (evalBody .unit body)

/-- The value of the last of some statements, or a given one if there are none. -/
def evalBody (last : Value α) : List (Stmt α) → Evaluation α (Value α)
  | [] => pure last
  | s :: body => do
    let v ← s.eval
    evalBody v body

end

/-- The value of a script. -/
def run (script : String) : Except Fault (Value α) :=
  match parse? script with
  | some body => (evalBody .unit (simplify (16 * (script.length + 1)) body)).run' []
  | none => .error .invalid

end RadianceTransfer.Script
