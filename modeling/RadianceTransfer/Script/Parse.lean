import RadianceTransfer.Script.Syntax
import RadianceTransfer.Script.Token
import RadianceTransfer.Script.Value.Operator

/-!
# Parsing a scene script

## Grammar

Statements are separated by semicolons. None is needed behind a choice or a block that is a
statement, and no operator continues such a one. Of the operators, those of products bind tighter
than those of sums, and those tighter than comparisons; all group to the left. Lists, maps and
calls may end in a comma. A map holds no name twice. A condition does not start with a brace, and is
not written out as something other than a truth value. What is assigned to is a variable or a chain
of names that starts at one.

A sign in front of a number that is written out belongs to it. The opposite of the least whole
number is a scalar.

## Nesting

Scripts are nested to a limited depth. Statements, blocks, choices, declarations, operators in front
of an operand, operands, parentheses, lists and maps, their items, arguments, points and operators
in a row all count.

The parser is told how many steps it may take. Sixteen for every word are always enough: between two
words it goes through no more than the levels of the grammar.

## Main definitions

* `Context`: the depth, and the variables that are declared.
* `parse?`: the statements of a script.
-/

namespace RadianceTransfer.Script

/-- What surrounds a piece of a script. -/
structure Context where
  /-- How deep it is nested. -/
  depth : Nat
  /-- The names of the variables that are declared, the latest first. -/
  scope : List String

namespace Context

/-- How deep a script may be nested. -/
def maxDepth : Nat := 32

/-- What surrounds a piece that is nested one level deeper, if that is allowed. -/
def deeper? (c : Context) : Option Context :=
  if c.depth < maxDepth then some { c with depth := c.depth + 1 } else none

/-- The use of a name. -/
def use (c : Context) (name : String) : Variable :=
  ⟨name, c.scope.findIdx? (· == name)⟩

end Context

/-- The operator in front of some words, and what follows it. -/
def binaryOp? : List Token → Option (BinaryOp × List Token)
  | .symbol s :: ts =>
    let op? : Option BinaryOp :=
      if s == "+" then some .plus
      else if s == "-" then some .minus
      else if s == "*" then some .times
      else if s == "/" then some .divide
      else if s == "%" then some .modulo
      else if s == "<" then some .less
      else if s == ">" then some .greater
      else none
    op?.map fun op => (op, ts)
  | _ => none

/-- The operator that a sign in front of an operand stands for. -/
def unaryOp? (s : String) : Option UnaryOp :=
  if s == "-" then some .negate
  else if s == "+" then some .keep
  else if s == "!" then some .not
  else none

/-- The words behind a given sign. -/
def expect? (s : String) : List Token → Option (List Token)
  | .symbol t :: ts => if t == s then some ts else none
  | _ => none

/-- Whether some words start with a given sign. -/
def isNext (s : String) (ts : List Token) : Bool :=
  (expect? s ts).isSome

/-- The name of an entry of a map. -/
def entryName? : List Token → Option (String × List Token)
  | .name s :: ts => some (s, ts)
  | .text s :: ts => some (s, ts)
  | _ => none

/-- The names in a chain of points, if it holds nothing else. -/
def pathOf? {α : Type} (links : List (Link α)) : Option (List String) :=
  links.mapM fun
    | .property name => some name
    | .method _ _ => none

/-- The variable and the names behind it in an expression, if it can be assigned to. -/
def Expr.target? {α : Type} : Expr α → Option (Variable × List String)
  | .variable x => some (x, [])
  | .chain (.variable x) links => (pathOf? links).map fun path => (x, path)
  | _ => none

/-- An operator in front of an operand. On a number that is written out it gives another one. -/
def UnaryOp.before {α : Type} [Scalar α] (op : UnaryOp) (a : Expr α) : Expr α :=
  match op, a with
  | .negate, .literal (.int i) =>
    .literal ((Value.int? (-i)).getD (.scalar (Scalar.ofInt (-i))))
  | .negate, .literal (.scalar x) => .literal (.scalar (-x))
  | .keep, .literal (.int i) => .literal (.int i)
  | .keep, .literal (.scalar x) => .literal (.scalar x)
  | op, a => .unary op a

/-- An expression and the points behind it. -/
def Expr.followedBy {α : Type} (a : Expr α) (links : List (Link α)) : Expr α :=
  if links.isEmpty then a else .chain a links

mutual

variable {α : Type} [Scalar α] [NumberText α]

/-- An expression. -/
def expression : (steps : Nat) → Context → List Token → Option (Expr α × List Token)
  | 0, _, _ => none
  | steps + 1, c, ts => do
    let (a, ts) ← operand steps c ts
    operators steps c 0 a ts

/-- The operators behind an operand that bind tighter than a level, with their right operands. -/
def operators : (steps : Nat) → Context → (level : Nat) → Expr α → List Token →
    Option (Expr α × List Token)
  | 0, _, _, _, _ => none
  | steps + 1, c, level, a, ts =>
    match binaryOp? ts with
    | some (op, rest) =>
      if level < op.level then do
        let c ← c.deeper?
        let (b, ts) ← operand steps c rest
        let (b, ts) ← operators steps c op.level b ts
        operators steps c level (.binary op a b) ts
      else some (a, ts)
    | none => some (a, ts)

/-- An operand with the operators in front of it. -/
def operand : (steps : Nat) → Context → List Token → Option (Expr α × List Token)
  | 0, _, _ => none
  | steps + 1, c, ts => do
    let c ← c.deeper?
    match ts with
    | .symbol s :: rest =>
      match unaryOp? s with
      | some op => do
        let (a, ts) ← operand steps c rest
        some (op.before a, ts)
      | none => primary steps c ts
    | _ => primary steps c ts

/-- An expression that no operator is part of, with the points behind it. -/
def primary : (steps : Nat) → Context → List Token → Option (Expr α × List Token)
  | 0, _, _ => none
  | steps + 1, c, ts => do
    let (a, ts) ← atom steps c ts
    let (links, ts) ← links steps c ts
    some (a.followedBy links, ts)

/-- The points behind an expression. -/
def links : (steps : Nat) → Context → List Token → Option (List (Link α) × List Token)
  | 0, _, _ => none
  | steps + 1, c, .symbol "." :: .name s :: ts => do
    let c ← c.deeper?
    match ts with
    | .symbol "()" :: ts =>
      let (rest, ts) ← links steps c ts
      some (.method s [] :: rest, ts)
    | .symbol "(" :: ts =>
      let (args, ts) ← items steps c ")" ts
      let (rest, ts) ← links steps c ts
      some (.method s args :: rest, ts)
    | _ =>
      let (rest, ts) ← links steps c ts
      some (.property s :: rest, ts)
  | _ + 1, _, ts => some ([], ts)

/-- An expression that neither an operator nor a point is part of. -/
def atom : (steps : Nat) → Context → List Token → Option (Expr α × List Token)
  | 0, _, _ => none
  | _ + 1, _, .int i :: ts => some (.literal (.int i), ts)
  | _ + 1, _, .decimal digits :: ts =>
    (NumberText.read? digits).map fun x => (.literal (.scalar x), ts)
  | _ + 1, _, .text s :: ts => some (.literal (.text s), ts)
  | _ + 1, _, .char c :: ts => some (.literal (.char c), ts)
  | _ + 1, _, .keyword .trueKeyword :: ts => some (.literal (.bool true), ts)
  | _ + 1, _, .keyword .falseKeyword :: ts => some (.literal (.bool false), ts)
  | _ + 1, _, .symbol "()" :: ts => some (.nothing, ts)
  | steps + 1, c, .keyword .ifKeyword :: ts => do
    let (s, ts) ← alternative steps c ts
    some (.block [s], ts)
  | _ + 1, _, .name f :: .symbol "()" :: ts => some (.call f [], ts)
  | steps + 1, c, .name f :: .symbol "(" :: ts => do
    let (args, ts) ← items steps c ")" ts
    some (.call f args, ts)
  | _ + 1, c, .name s :: ts => some (.variable (c.use s), ts)
  | steps + 1, c, .symbol "(" :: ts => do
    let c ← c.deeper?
    let (a, ts) ← expression steps c ts
    let ts ← expect? ")" ts
    some (a, ts)
  | steps + 1, c, .symbol "[" :: ts => do
    let c ← c.deeper?
    let (xs, ts) ← items steps c "]" ts
    some (.array xs, ts)
  | steps + 1, c, .symbol "#\x7b" :: ts => do
    let c ← c.deeper?
    let (fields, ts) ← entries steps c [] ts
    some (.map (fields.map Prod.fst) (fields.map Prod.snd), ts)
  | steps + 1, c, .symbol "\x7b" :: ts => do
    let (body, ts) ← braced steps c ts
    some (.block body, ts)
  | _ + 1, _, _ => none

/-- Expressions separated by commas, up to a closing sign. -/
def items : (steps : Nat) → Context → (close : String) → List Token →
    Option (List (Expr α) × List Token)
  | 0, _, _, _ => none
  | steps + 1, c, close, ts =>
    match expect? close ts with
    | some ts => some ([], ts)
    | none => do
      let (a, ts) ← expression steps (← c.deeper?) ts
      let ts ← if isNext close ts then some ts else expect? "," ts
      let (as, ts) ← items steps c close ts
      some (a :: as, ts)

/-- The entries of a map, up to its closing sign, given the names that it holds already. -/
def entries : (steps : Nat) → Context → (taken : List String) → List Token →
    Option (List (String × Expr α) × List Token)
  | 0, _, _, _ => none
  | steps + 1, c, taken, ts =>
    match expect? "\x7d" ts with
    | some ts => some ([], ts)
    | none => do
      let (name, ts) ← entryName? ts
      if taken.contains name then none
      else
        let ts ← expect? ":" ts
        let (a, ts) ← expression steps (← c.deeper?) ts
        let ts ← if isNext "\x7d" ts then some ts else expect? "," ts
        let (rest, ts) ← entries steps c (name :: taken) ts
        some ((name, a) :: rest, ts)

/-- A choice, behind the word that introduces it. -/
def alternative : (steps : Nat) → Context → List Token → Option (Stmt α × List Token)
  | 0, _, _ => none
  | steps + 1, c, ts => do
    let c ← c.deeper?
    if isNext "\x7b" ts then none
    else
      let (condition, ts) ← expression steps c ts
      let ts ← expect? "\x7b" ts
      let (yes, ts) ← braced steps c ts
      if condition.isNoCondition then none
      else
        match ts with
        | .keyword .elseKeyword :: .keyword .ifKeyword :: ts =>
          let (no, ts) ← alternative steps c ts
          some (.choice condition yes [no], ts)
        | .keyword .elseKeyword :: .symbol "\x7b" :: ts =>
          let (no, ts) ← braced steps c ts
          some (.choice condition yes no, ts)
        | .keyword .elseKeyword :: _ => none
        | ts => some (.choice condition yes [], ts)

/-- The statements of a block, behind the brace that opens it. -/
def braced : (steps : Nat) → Context → List Token → Option (List (Stmt α) × List Token)
  | 0, _, _ => none
  | steps + 1, c, ts => do
    let (body, ts) ← statements steps (← c.deeper?) ts
    let ts ← expect? "\x7d" ts
    some (body, ts)

/-- Statements up to a closing brace or the end. -/
def statements : (steps : Nat) → Context → List Token → Option (List (Stmt α) × List Token)
  | 0, _, _ => none
  | steps + 1, c, ts =>
    if ts.isEmpty || isNext "\x7d" ts then some ([], ts)
    else
      match expect? ";" ts with
      | some ts => statements steps c ts
      | none => do
        let (s, closed, scope, ts) ← statement steps c ts
        if closed || ts.isEmpty || isNext "\x7d" ts || isNext ";" ts then
          let (rest, ts) ← statements steps { c with scope := scope } ts
          some (s :: rest, ts)
        else none

/-- A statement, whether it ends by itself, and the variables that are declared behind it. -/
def statement : (steps : Nat) → Context → List Token →
    Option (Stmt α × Bool × List String × List Token)
  | 0, _, _ => none
  | steps + 1, c, ts => do
    let inner ← c.deeper?
    match ts with
    | .keyword .ifKeyword :: ts =>
      let (s, ts) ← alternative steps inner ts
      some (s, true, c.scope, ts)
    | .symbol "\x7b" :: ts =>
      let (body, ts) ← braced steps inner ts
      some (.group body, true, c.scope, ts)
    | .keyword .letKeyword :: .name s :: ts =>
      match expect? "=" ts with
      | some ts =>
        let (a, ts) ← expression steps (← inner.deeper?) ts
        some (.declare a, false, s :: c.scope, ts)
      | none => some (.declare .nothing, false, s :: c.scope, ts)
    | ts =>
      let (a, ts) ← expression steps inner ts
      match expect? "=" ts with
      | some ts =>
        let (x, path) ← a.target?
        let (b, ts) ← expression steps inner ts
        some (.assign x path b, false, c.scope, ts)
      | none => some (.value a, false, c.scope, ts)

end

/-- The statements of a script, if it is one. -/
def parse? {α : Type} [Scalar α] [NumberText α] (script : String) : Option (List (Stmt α)) := do
  let ts ← tokenize script
  let (body, rest) ← statements (16 * (ts.length + 1)) ⟨0, []⟩ ts
  if rest.isEmpty then some body else none

end RadianceTransfer.Script
