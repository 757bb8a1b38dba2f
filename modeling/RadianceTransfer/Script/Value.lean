import RadianceTransfer.Geometry.CheckedInt
import RadianceTransfer.Geometry.Rotation

/-!
# Values of a scene script

What expressions evaluate to, and the parts of it that have names. Whole numbers belong to a signed
word of 64 bits.

## Main definitions

* `Value`: the values.
* `Value.kind`: the names of their types.
* `Value.property?`, `Value.setProperty?`: components and entries by name.
* `Value.setPath?`: what lies at the end of a chain of names.
-/

namespace RadianceTransfer.Script

/-- What an expression evaluates to. -/
inductive Value (α : Type) where
  /-- A whole number. -/
  | int (i : Int)
  /-- A scalar. -/
  | scalar (x : α)
  /-- A truth value. -/
  | bool (b : Bool)
  /-- A text. -/
  | text (s : String)
  /-- A character. -/
  | char (c : Char)
  /-- A list of values. -/
  | array (items : List (Value α))
  /-- Values by name. -/
  | map (fields : List (String × Value α))
  /-- The value of what has none. -/
  | unit
  /-- A vector. -/
  | vector (v : Vec3 α)
  /-- A rotation. -/
  | rotation (m : Mat3 α)

namespace Value

variable {α : Type}

/-- The name of the type of a value. -/
def kind : Value α → String
  | int _ => "i64"
  | scalar _ => "f64"
  | bool _ => "bool"
  | text _ => "string"
  | char _ => "char"
  | array _ => "array"
  | map _ => "map"
  | unit => "()"
  | vector _ => "pmath::vector::Vec3<f64>"
  | rotation _ => "pmath::matrix::Mat3<f64>"

/-- A whole number, if it fits its word. -/
def int? (i : Int) : Option (Value α) :=
  (CheckedInt.ofInt i).toInt?.map int

/-- The value of a name in a list of names and values. -/
def lookup? (fields : List (String × β)) (name : String) : Option β :=
  (fields.find? fun (n, _) => n == name).map Prod.snd

/-- Replaces the value of a name, or adds it. -/
def insert (fields : List (String × β)) (name : String) (value : β) : List (String × β) :=
  if (lookup? fields name).isSome then
    fields.map fun (n, v) => if n == name then (n, value) else (n, v)
  else fields ++ [(name, value)]

/-- The axis that a component of a vector is named after. -/
def axis? : String → Option Axis
  | "x" => some .x
  | "y" => some .y
  | "z" => some .z
  | _ => none

/-- The component of a vector or the entry of a map. A map has no value for a name that it does not
hold. -/
def property? (name : String) : Value α → Option (Value α)
  | vector v => (axis? name).map fun a => scalar (v.get a)
  | map fields => some ((lookup? fields name).getD unit)
  | _ => none

/-- Replaces the component of a vector or the entry of a map. -/
def setProperty? (name : String) (value : Value α) : Value α → Option (Value α)
  | vector v =>
    match axis? name, value with
    | some a, scalar x => some (vector (v.set a x))
    | _, _ => none
  | map fields => some (map (insert fields name value))
  | _ => none

/-- Replaces what lies at the end of a chain of names in a value. -/
def setPath? (new : Value α) : List String → Value α → Option (Value α)
  | [], _ => some new
  | name :: path, v => do
    let inner ← if path.isEmpty then some unit else v.property? name
    let changed ← setPath? new path inner
    setProperty? name changed v

end Value

end RadianceTransfer.Script
