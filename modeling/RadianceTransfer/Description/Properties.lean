import RadianceTransfer.Script.Eval
import RadianceTransfer.Storage.Path

/-!
# Properties

The entries of a map that a scene script evaluates to, read by name as what they are meant to be. A
missing entry stands for a default. An entry of another kind is an error, which names the kind that
it has.

## Main definitions

* `PropertyList`: the entries, and the folder that paths are relative to.
* `PropertyList.int`, `PropertyList.number`, `PropertyList.bool`, `PropertyList.text`: entries with
  a default.
* `PropertyList.path?`, `PropertyList.rotation?`, `PropertyList.child?`: entries that may be
  missing.
* `PropertyList.paths`: a list of paths, empty if it is missing.
-/

namespace RadianceTransfer

open Script (Value)

/-- Named values, and the folder that paths among them are relative to. -/
structure PropertyList (α : Type) where
  /-- The values by name. -/
  fields : List (String × Value α)
  /-- The folder. -/
  base : String

namespace PropertyList

variable {α : Type}

/-- The value of a name. -/
def find? (p : PropertyList α) (name : String) : Option (Value α) :=
  Value.lookup? p.fields name

/-- Fails on the value of a name, which should have been of another kind. -/
def wrongKind (name : String) (wanted : PropertyKind) (v : Value α) : Outcome β :=
  report (.propertyKind name wanted v.kind)

/-- A whole number. -/
def int (p : PropertyList α) (name : String) (default : Int) : Outcome Int :=
  match p.find? name with
  | none => .ok default
  | some (.int i) => .ok i
  | some v => wrongKind name .integer v

/-- A scalar, which may be written as a whole number. -/
def number [Scalar α] (p : PropertyList α) (name : String) (default : α) : Outcome α :=
  match p.find? name with
  | none => .ok default
  | some (.scalar x) => .ok x
  | some (.int i) => .ok (Scalar.ofInt i)
  | some v => wrongKind name .number v

/-- A truth value. -/
def bool (p : PropertyList α) (name : String) (default : Bool) : Outcome Bool :=
  match p.find? name with
  | none => .ok default
  | some (.bool b) => .ok b
  | some v => wrongKind name .bool v

/-- A value as a text. -/
def asText (name : String) : Value α → Outcome String
  | .text s => .ok s
  | v => wrongKind name .text v

/-- A text. -/
def text (p : PropertyList α) (name : String) (default : String) : Outcome String :=
  match p.find? name with
  | none => .ok default
  | some v => asText name v

/-- A path. -/
def path? (p : PropertyList α) (name : String) : Outcome (Option String) :=
  match p.find? name with
  | none => .ok none
  | some v => (asText name v).map fun s => some (Path.join p.base s)

/-- A list of paths. -/
def paths (p : PropertyList α) (name : String) : Outcome (List String) :=
  match p.find? name with
  | none => .ok []
  | some (.array items) => items.mapM fun v => (asText name v).map (Path.join p.base)
  | some v => wrongKind name .array v

/-- A rotation. -/
def rotation? (p : PropertyList α) (name : String) : Outcome (Option (Mat3 α)) :=
  match p.find? name with
  | none => .ok none
  | some (.rotation m) => .ok (some m)
  | some v => wrongKind name .rotation v

/-- A map, whose paths are relative to the same folder. -/
def child? (p : PropertyList α) (name : String) : Outcome (Option (PropertyList α)) :=
  match p.find? name with
  | none => .ok none
  | some (.map fields) => .ok (some ⟨fields, p.base⟩)
  | some v => wrongKind name .map v

end PropertyList

end RadianceTransfer
