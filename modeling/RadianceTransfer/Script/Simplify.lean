import RadianceTransfer.Script.Syntax
import RadianceTransfer.Script.Value.Operator

/-!
# What a scene script does without

A script is simplified before it runs. Operators between constants are applied, choices whose
condition is a constant are made, and statements are left out that only look something up and whose
value nobody uses. What is left out cannot fail any more: a name that stands by itself as a
statement need not be declared, and a choice between nothing and nothing needs no truth value.

## The order of things

The statements of a block are first joined by those of the blocks within it that declare nothing.
Then they are simplified one by one and idle ones are left out, again and again, until nothing
changes.

A statement is left out if it is pure; within a block also if it is idle and no statement that
matters comes behind it. The last statement stays, for its value is the value of the block. Where it
has none and is idle itself it goes, and an empty statement takes its place if the one before it
would lend its value to the block.

The simplifier is told how many steps it may take, counted along every chain of nested blocks and
repetitions. Every repetition follows a change, and a change makes a script smaller, so a few for
every word are enough.

## Main definitions

* `BinaryOp.result?`, `BinaryOp.fold?`: the value of an operator, and if it is known beforehand.
* `prune`: the statements of a block without idle ones.
* `simplifyExpr`, `simplifyStmt`, `simplifyBody`: the simplified forms, and whether they are others.
-/

namespace RadianceTransfer.Script

variable {α : Type}

/-- The value of an operator between two operands. -/
def BinaryOp.result? [Scalar α] [NumberText α] : BinaryOp → Value α → Value α → Option (Value α)
  | .plus, a, b => a.plus b
  | .minus, a, b => a.minus b
  | .times, a, b => a.times b
  | .divide, a, b => a.divide b
  | .modulo, a, b => a.modulo b
  | .less, a, b => (a.precedes b).map Value.bool
  | .greater, a, b => (b.precedes a).map Value.bool

/-- The kinds of values whose operators are applied beforehand. -/
inductive Family where
  /-- Whole numbers and scalars. -/
  | number
  /-- Truth values. -/
  | bool
  /-- Texts and characters. -/
  | text
  /-- The value of what has none. -/
  | unit
  deriving DecidableEq

/-- The family of a value, if it has one. -/
def Value.family? : Value α → Option Family
  | .int _ => some .number
  | .scalar _ => some .number
  | .bool _ => some .bool
  | .text _ => some .text
  | .char _ => some .text
  | .unit => some .unit
  | _ => none

/-- The value of an operator between two constants, if it is known beforehand: between values of one
family, and for comparisons of values of different types. -/
def BinaryOp.fold? [Scalar α] [NumberText α] (op : BinaryOp) (a b : Value α) : Option (Value α) :=
  if (a.family?.isSome && a.family? == b.family?) || (op.isComparison && a.kind != b.kind) then
    op.result? a b
  else none

mutual

/-- A statement, or those of a block that declares nothing. -/
def Stmt.opened : Stmt α → List (Stmt α)
  | .group body => if body.any Stmt.isBound then [.group body] else opened body
  | s => [s]

/-- Some statements, with those of blocks that declare nothing among them. -/
def opened : List (Stmt α) → List (Stmt α)
  | [] => []
  | s :: body => s.opened ++ opened body

end

/-- The statements of a block in reverse, without those at the end that matter neither for what they
do nor for their value. -/
def dropIdle (idle : Stmt α → Bool) : List (Stmt α) → List (Stmt α)
  | [] => []
  | [s] => if !s.hasValue && idle s then [] else [s]
  | s :: before :: rest =>
    if !s.hasValue && idle s then
      if before.hasValue then .empty :: before :: rest else dropIdle idle (before :: rest)
    else s :: before :: rest

/-- Whether the statements in front of a statement might matter for it. -/
def needsOthers (idle : Stmt α → Bool) (s : Stmt α) : Bool :=
  !idle s ||
    match s with
    | .declare a => a.isConstant
    | .value a => !a.isConstant
    | _ => false

/-- The statements of a block without those that do nothing for it. -/
def prune (idle : Stmt α → Bool) (body : List (Stmt α)) : List (Stmt α) :=
  let count := body.length - 1 - body.reverse.findIdx (needsOthers idle)
  let early := (body.take count).filter fun s => !s.isPure
  let late := (body.drop count).dropLast.filter fun s => !idle s
  (dropIdle idle (early ++ late ++ body.getLast?.toList).reverse).reverse

/-- Whether the last of some statements is the empty one. -/
def endsEmpty (body : List (Stmt α)) : Bool :=
  match body.getLast? with
  | some .empty => true
  | _ => false

/-- Whether leaving statements out has changed a block. -/
def isPruned (body pruned : List (Stmt α)) : Bool :=
  body.length != pruned.length || endsEmpty body != endsEmpty pruned

/-- A computation that notes whether it changes something. -/
abbrev Simplifying (β : Type) : Type := StateM Bool β

/-- Gives something else, and notes that. -/
def changed (x : β) : Simplifying β := do
  set true
  pure x

mutual

variable [Scalar α] [NumberText α]

/-- The simplified form of an expression. -/
def simplifyExpr : (steps : Nat) → Expr α → Simplifying (Expr α)
  | 0, e => pure e
  | steps + 1, .block body =>
    match body with
    | [] => changed .nothing
    | [.value a] => do changed (← simplifyExpr steps a)
    | body => do
      match ← simplifyBody steps Stmt.isIdle body with
      | [.value a] => changed a
      | body => pure (.block body)
  | steps + 1, .chain root links =>
    match root, links with
    | .map names items, [.property name] =>
      if arePure items then changed ((Value.lookup? (names.zip items) name).getD .nothing)
      else do pure (.chain (← simplifyExpr steps root) links)
    | root, links => do
      let root ← simplifyExpr steps root
      pure (.chain root (← links.mapM (simplifyLink steps)))
  | steps + 1, .array items => simplifyItems steps items Expr.array
  | steps + 1, .map names items => simplifyItems steps items (Expr.map names)
  | steps + 1, .binary op a b =>
    match a.constant?, b.constant? with
    | some v, some w =>
      match op.fold? v w with
      | some u => changed (.literal u)
      | none => do pure (.binary op (← simplifyExpr steps a) (← simplifyExpr steps b))
    | _, _ => do pure (.binary op (← simplifyExpr steps a) (← simplifyExpr steps b))
  | steps + 1, .unary op a => do pure (.unary op (← simplifyExpr steps a))
  | steps + 1, .call f args => do pure (.call f (← args.mapM (simplifyExpr steps)))
  | _ + 1, e => pure e

/-- The simplified form of a list or a map, which is a constant if its items are. -/
def simplifyItems : (steps : Nat) → (items : List (Expr α)) → (List (Expr α) → Expr α) →
    Simplifying (Expr α)
  | 0, items, make => pure (make items)
  | steps + 1, items, make =>
    match (make items).constant? with
    | some v => changed (.literal v)
    | none => do pure (make (← items.mapM (simplifyExpr steps)))

/-- The simplified form of what follows a point. -/
def simplifyLink : (steps : Nat) → Link α → Simplifying (Link α)
  | steps + 1, .method f args => do pure (.method f (← args.mapM (simplifyExpr steps)))
  | _, link => pure link

/-- The simplified form of a statement. -/
def simplifyStmt : (steps : Nat) → Stmt α → Simplifying (Stmt α)
  | 0, s => pure s
  | _ + 1, .empty => pure .empty
  | _ + 1, .value (.block []) => changed .empty
  | steps + 1, .value (.block body) => do
    changed (.group (← simplifyBody steps Stmt.isIdle body))
  | steps + 1, .value a => do pure (.value (← simplifyExpr steps a))
  | steps + 1, .declare a => do pure (.declare (← simplifyExpr steps a))
  | steps + 1, .assign x path a =>
    match path, a with
    | [], .binary op (.variable y) b =>
      if y.name == x.name && !op.isComparison then changed (.update x op b)
      else do pure (.assign x path (← simplifyExpr steps a))
    | path, a => do pure (.assign x path (← simplifyExpr steps a))
  | steps + 1, .update x op a => do pure (.update x op (← simplifyExpr steps a))
  | steps + 1, .choice condition yes no =>
    match condition, yes, no with
    | condition, [], [] => do changed (.group [.value (← simplifyExpr steps condition), .empty])
    | .literal (.bool false), _, no => simplifySide steps no
    | .literal (.bool true), yes, _ => simplifySide steps yes
    | condition, yes, no => do
      let condition ← simplifyExpr steps condition
      let yes ← simplifyBody steps Stmt.isIdle yes
      let no ← simplifyBody steps Stmt.isIdle no
      pure (.choice condition yes no)
  | steps + 1, .group body => do
    match ← simplifyBody steps Stmt.isIdle body with
    | [] => changed .empty
    | [s] => if s.isBound then pure (.group [s]) else changed s
    | body => pure (.group body)

/-- The side of a choice that is made. -/
def simplifySide : (steps : Nat) → List (Stmt α) → Simplifying (Stmt α)
  | 0, body => changed (.group body)
  | steps + 1, body => do
    match ← simplifyBody steps Stmt.isIdle body with
    | [] => changed .empty
    | body => changed (.group body)

/-- The simplified form of the statements of a block, given which of them are idle. -/
def simplifyBody : (steps : Nat) → (idle : Stmt α → Bool) → List (Stmt α) →
    Simplifying (List (Stmt α))
  | 0, _, body => pure body
  | steps + 1, idle, body => do
    if body.any fun | .group inner => !inner.any Stmt.isBound | _ => false then
      changed (← repeatPass steps idle (opened body))
    else repeatPass steps idle body

/-- Simplifies the statements of a block and leaves idle ones out, until nothing changes. -/
def repeatPass : (steps : Nat) → (idle : Stmt α → Bool) → List (Stmt α) →
    Simplifying (List (Stmt α))
  | 0, _, body => pure body
  | steps + 1, idle, body =>
    let pass : Simplifying (List (Stmt α)) := do
      let body ← body.mapM (simplifyStmt steps)
      let pruned := prune idle body
      if isPruned body pruned then changed pruned else pure pruned
    match pass.run false with
    | (body, true) => do changed (← repeatPass steps idle body)
    | (body, false) => pure body

end

/-- The simplified form of a script, given how many steps it may take. Its own declarations stay. -/
def simplify [Scalar α] [NumberText α] (steps : Nat) (script : List (Stmt α)) : List (Stmt α) :=
  ((simplifyBody steps Stmt.isPure script).run false).1

end RadianceTransfer.Script
