import RadianceTransfer.Text.Blank

/-!
# Paths

A path is a text whose parts are separated by slashes. Joining paths only puts texts together:
nothing is resolved and nothing is left out.

## Main definitions

* `Path.join`: a path relative to another one.
* `Path.parent?`: a path without its last part.
* `Path.extension`: what follows the last point of a name.
-/

namespace RadianceTransfer.Path

/-- Whether a path starts at the root. -/
def isAbsolute (p : String) : Bool :=
  p.toList.head? == some '/'

/-- A path relative to a folder. An absolute path stays what it is. -/
def join (folder p : String) : String :=
  if isAbsolute p then p
  else if folder.isEmpty || folder.toList.getLast? == some '/' then folder ++ p
  else folder ++ "/" ++ p

/-- The parts of a path between its slashes, the empty ones included. -/
def segments (p : String) : List String :=
  (Text.splitOn (· == '/') p.toList).map String.ofList

/-- The lengths of the texts that end with each part of a path. Empty parts and points that are not
in front are no parts. -/
def partEnds (p : String) : List Nat :=
  go true 0 (segments p)
where
  /-- The ends from a position on. -/
  go (front : Bool) (start : Nat) : List String → List Nat
    | [] => []
    | s :: rest =>
      let stop := start + s.length
      let later := go false (stop + 1) rest
      if s.isEmpty || (s == "." && !front) then later else stop :: later

/-- A path without its last part, if it has one. -/
def parent? (p : String) : Option String :=
  match (partEnds p).reverse with
  | [] => none
  | [_] => some (if isAbsolute p then "/" else "")
  | _ :: stop :: _ => some (String.ofList (p.toList.take stop))

/-- What follows the last point of the last part of a path, in lower case. A name that has its only
point in front has no extension. -/
def extension (p : String) : String :=
  let name := (segments p).getLast?.getD ""
  match (Text.splitOn (· == '.') name.toList).reverse with
  | ext :: front :: more =>
    if front.isEmpty && more.isEmpty then "" else String.ofList (ext.map Char.toLower)
  | _ => ""

end RadianceTransfer.Path
