import RadianceTransfer.Script.Value

/-!
# Expressions and statements of a scene script

A script is a sequence of statements, the value of the last of which is the value of the script.
Choices and blocks are statements, and every expression is one; the other way round, statements in
braces are an expression.

A variable stands for a declaration in front of it. The declarations of a script form a stack, on
which a block puts its own ones and from which it takes them at its end, so a place counted from the
top of the stack is enough to find the value.

## Main definitions

* `Expr`, `Link`, `Stmt`: expressions, what may follow a point, and statements.
* `Expr.constant?`: the value of an expression that is written out.
* `Expr.isPure`, `Stmt.isPure`, `Stmt.isIdle`: expressions and statements that only look something
  up.
-/

namespace RadianceTransfer.Script

/-- The operators between two operands. -/
inductive BinaryOp where
  /-- Sum. -/
  | plus
  /-- Difference. -/
  | minus
  /-- Product. -/
  | times
  /-- Quotient. -/
  | divide
  /-- Remainder. -/
  | modulo
  /-- Whether the left operand comes first. -/
  | less
  /-- Whether the right operand comes first. -/
  | greater
  deriving DecidableEq

namespace BinaryOp

/-- How tight an operator binds. -/
def level : BinaryOp → Nat
  | less | greater => 1
  | plus | minus => 2
  | times | divide | modulo => 3

/-- Whether an operator compares its operands. -/
def isComparison : BinaryOp → Bool
  | less | greater => true
  | _ => false

end BinaryOp

/-- The operators in front of an operand. -/
inductive UnaryOp where
  /-- The opposite number. -/
  | negate
  /-- The same number. -/
  | keep
  /-- The other truth value. -/
  | not
  deriving DecidableEq

/-- The use of a variable. -/
structure Variable where
  /-- Its name. -/
  name : String
  /-- How many declarations lie above its own on the stack, if it was declared. -/
  place? : Option Nat
  deriving DecidableEq

mutual

/-- The expressions of a script. -/
inductive Expr (α : Type) where
  /-- A value that is written out. -/
  | literal (v : Value α)
  /-- The value of a variable. -/
  | variable (x : Variable)
  /-- An operator in front of an operand. -/
  | unary (op : UnaryOp) (a : Expr α)
  /-- An operator between two operands. -/
  | binary (op : BinaryOp) (a b : Expr α)
  /-- A function applied to arguments. -/
  | call (function : String) (arguments : List (Expr α))
  /-- What a chain of points leads to from a value. -/
  | chain (root : Expr α) (links : List (Link α))
  /-- A list. -/
  | array (items : List (Expr α))
  /-- A map from names to values. -/
  | map (names : List String) (items : List (Expr α))
  /-- The value of the last of some statements. -/
  | block (body : List (Stmt α))

/-- What may follow a point. -/
inductive Link (α : Type) where
  /-- A component of a vector or an entry of a map. -/
  | property (name : String)
  /-- A function, whose first argument is the value in front of the point. -/
  | method (function : String) (arguments : List (Expr α))

/-- The statements of a script. -/
inductive Stmt (α : Type) where
  /-- Nothing. -/
  | empty
  /-- The value of an expression. -/
  | value (a : Expr α)
  /-- A new variable. -/
  | declare (a : Expr α)
  /-- A new value for a variable, or for what lies at the end of a chain of names in it. -/
  | assign (x : Variable) (path : List String) (a : Expr α)
  /-- The value of an operator on a variable and an expression as the new value of the variable. -/
  | update (x : Variable) (op : BinaryOp) (a : Expr α)
  /-- One of two sequences of statements. -/
  | choice (condition : Expr α) (yes no : List (Stmt α))
  /-- Statements with variables of their own. -/
  | group (body : List (Stmt α))

end

variable {α : Type}

namespace Expr

/-- The expression without a value. -/
def nothing : Expr α :=
  .literal .unit

mutual

/-- The value of an expression that is written out, be it item by item. -/
def constant? : Expr α → Option (Value α)
  | literal v => some v
  | array items => (constants? items).map Value.array
  | map names items => (constants? items).map fun vs => Value.map (names.zip vs)
  | _ => none

/-- The values of expressions that are written out. -/
def constants? : List (Expr α) → Option (List (Value α))
  | [] => some []
  | e :: es =>
    match constant? e, constants? es with
    | some v, some vs => some (v :: vs)
    | _, _ => none

end

/-- Whether an expression is written out. -/
def isConstant (e : Expr α) : Bool :=
  e.constant?.isSome

/-- Whether an expression is written out as what can be no truth value. -/
def isNoCondition : Expr α → Bool
  | literal (.bool _) => false
  | literal _ => true
  | array _ => true
  | map _ _ => true
  | _ => false

end Expr

mutual

/-- Whether an expression is made of constants and variables. Operators and functions can fail, so
they do not belong to it. -/
def Expr.isPure : Expr α → Bool
  | .literal _ => true
  | .variable _ => true
  | .array items => arePure items
  | .map _ items => arePure items
  | .block body => allPure body
  | _ => false

/-- Whether all of some expressions are pure. -/
def arePure : List (Expr α) → Bool
  | [] => true
  | e :: es => e.isPure && arePure es

/-- Whether a statement changes nothing, and has nothing but constants and variables in it. -/
def Stmt.isPure : Stmt α → Bool
  | .empty => true
  | .value a => a.isPure
  | .choice c yes no => c.isPure && allPure yes && allPure no
  | .group body => allPure body
  | _ => false

/-- Whether all of some statements are pure. -/
def allPure : List (Stmt α) → Bool
  | [] => true
  | s :: body => s.isPure && allPure body

end

mutual

/-- Whether a statement changes nothing outside the block that it is in: it is pure, or declares a
variable with a pure value. -/
def Stmt.isIdle : Stmt α → Bool
  | .declare a => a.isPure
  | .value (.block body) => allIdle body
  | s => s.isPure

/-- Whether all of some statements are idle. -/
def allIdle : List (Stmt α) → Bool
  | [] => true
  | s :: body => s.isIdle && allIdle body

end

mutual

/-- Whether a statement has another meaning outside the block that it is in. -/
def Stmt.isBound : Stmt α → Bool
  | .declare _ => true
  | .value (.block body) => allBound body
  | _ => false

/-- Whether all of some statements have another meaning outside their block. -/
def allBound : List (Stmt α) → Bool
  | [] => true
  | s :: body => s.isBound && allBound body

end

/-- Whether a statement is one for its value. -/
def Stmt.hasValue : Stmt α → Bool
  | .value _ => true
  | .choice _ _ _ => true
  | .group _ => true
  | _ => false

end RadianceTransfer.Script
