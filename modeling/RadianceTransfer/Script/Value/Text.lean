import RadianceTransfer.Number.Text
import RadianceTransfer.Script.Value
import RadianceTransfer.Text.Quoted

/-!
# Texts of script values

What stands for a value where it is put into a text. By itself a text is put in as it is; within a
list or a map it is quoted.

## Main definitions

* `Value.shown`: the text of a value by itself.
* `Value.written`: the text of a value within another one.
-/

namespace RadianceTransfer.Script.Value

variable {α : Type}

/-- The positional text of a number as one digit, a fraction and a power of ten. What is no number
keeps its text. -/
def withExponent (shown : String) : String :=
  let unsigned := shown.toList.filter (· != '-')
  let digits := unsigned.filter isDigit
  let whole := unsigned.takeWhile isDigit
  match digits.dropWhile (· == '0') with
  | [] => shown
  | first :: rest =>
    let exponent : Int :=
      if whole == ['0'] then (rest.length : Int) + 1 - digits.length else (whole.length : Int) - 1
    let fraction := (rest.reverse.dropWhile (· == '0')).reverse
    (if shown.startsWith "-" then "-" else "") ++ String.singleton first ++
      (if fraction.isEmpty then "" else "." ++ String.ofList fraction) ++ s!"e{exponent}"

/-- The positional text of a number with a fraction, if only a zero. What is no number keeps its
text. -/
def withFraction (shown : String) : String :=
  if shown.toList.all fun c => isDigit c || c == '-' then shown ++ ".0" else shown

/-- The text of a scalar where it is put into another text: positional if its size is between about
`1e-13` and `1e13`. Zero has no sign. -/
def scalarShown [Scalar α] [NumberText α] (x : α) : String :=
  let size := Signed.abs x
  if size == 0 then "0.0"
  else if 9999999827968 < size || size < 9.9999998245167e-14 then
    withExponent (NumberText.render x)
  else withFraction (NumberText.render x)

/-- The text of a scalar in a list or a map: positional if its size is zero or between `1e-4` and
`1e16`. -/
def scalarWritten [Scalar α] [NumberText α] (x : α) : String :=
  let size := Signed.abs x
  if 1e16 ≤ size || (size < 1e-4 && !(size == 0)) then withExponent (NumberText.render x)
  else withFraction (NumberText.render x)

mutual

/-- The text of a value in a list or a map: texts and characters are in quotes, and the entries of a
map are in the order of their names. -/
def written [Scalar α] [NumberText α] : Value α → String
  | int i => toString i
  | scalar x => scalarWritten x
  | bool b => if b then "true" else "false"
  | text s => Text.inDoubleQuotes s
  | char c => Text.inSingleQuotes c
  | array items => "[" ++ ", ".intercalate (writtenItems items) ++ "]"
  | map fields =>
    let sorted := (writtenFields fields).mergeSort fun (n, _) (m, _) => decide (n ≤ m)
    "#\x7b" ++ ", ".intercalate (sorted.map fun (n, v) => Text.inDoubleQuotes n ++ ": " ++ v) ++
      "\x7d"
  | unit => "()"
  | vector _ => "Vec3"
  | rotation _ => "Rotation"

/-- The texts of the items of a list. -/
def writtenItems [Scalar α] [NumberText α] : List (Value α) → List String
  | [] => []
  | v :: vs => v.written :: writtenItems vs

/-- The names of a map with the texts of their values. -/
def writtenFields [Scalar α] [NumberText α] : List (String × Value α) → List (String × String)
  | [] => []
  | (n, v) :: fields => (n, v.written) :: writtenFields fields

end

/-- The text of a value where it is put into another text. -/
def shown [Scalar α] [NumberText α] : Value α → String
  | scalar x => scalarShown x
  | text s => s
  | char c => String.singleton c
  | unit => ""
  | v => v.written

end RadianceTransfer.Script.Value
