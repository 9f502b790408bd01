/-!
# Paths

A path is an optional anchor and a list of names. Its text has one normal form: repeated slashes and
the name `.` disappear, `..` stays, and the empty path is written `.`. Where a path leads is a
`Location`, the names on the way from the top directory, in which `..` has taken back one name.
-/

namespace Literate

/-- Where a path starts: where the program runs, or at the top directory. A text with exactly two
slashes in front keeps both. -/
inductive Anchor where
  | relative
  | top
  | doubleTop
deriving DecidableEq, Repr

/-- A path in normal form. -/
structure Path where
  anchor : Anchor
  names : List String
deriving DecidableEq, Repr

/-- The names from the top directory to a file or directory. -/
abbrev Location := List String

namespace Path

/-- The pieces of a text between its slashes. -/
def splitSlashes : List Char → List (List Char)
  | [] => [[]]
  | c :: cs =>
    if c = '/' then [] :: splitSlashes cs
    else
      match splitSlashes cs with
      | [] => [[c]]
      | piece :: pieces => (c :: piece) :: pieces

/-- What the slashes at the start of a text say. -/
def anchorOf : List Char → Anchor
  | '/' :: '/' :: '/' :: _ => .top
  | '/' :: '/' :: _ => .doubleTop
  | '/' :: _ => .top
  | _ => .relative

/-- The path that a text names. -/
def ofString (s : String) : Path where
  anchor := anchorOf s.toList
  names := ((splitSlashes s.toList).filter fun p => !p.isEmpty && p != ['.']).map String.ofList

/-- The path of where the program runs. -/
def here : Path := ⟨.relative, []⟩

/-- The text of a path. -/
def text (p : Path) : String :=
  let names := "/".intercalate p.names
  match p.anchor with
  | .relative => if p.names.isEmpty then "." else names
  | .top => "/" ++ names
  | .doubleTop => "//" ++ names

/-- The second path, taken from where the first one leads. -/
def join (p q : Path) : Path :=
  match q.anchor with
  | .relative => { p with names := p.names ++ q.names }
  | _ => q

/-- The path without its last name. -/
def parent (p : Path) : Path := { p with names := p.names.dropLast }

/-- The last name, empty if there is none. -/
def name (p : Path) : String := p.names.getLastD ""

/-- The last dot of the last name and what follows it, if something stands before and behind it. -/
def extension (p : Path) : String :=
  let cs := p.name.toList
  let tail := cs.reverse.takeWhile (· != '.')
  if tail.isEmpty || cs.length ≤ tail.length + 1 then ""
  else String.ofList ('.' :: tail.reverse)

/-- Whether the path holds a character that no file name can hold. -/
def hasNul (p : Path) : Bool := p.names.any fun n => n.toList.contains '\x00'

/-- One name further on from a location; `..` leads back, and at the top it leads nowhere. -/
def follow (loc : Location) (name : String) : Location :=
  if name = ".." then loc.dropLast else loc ++ [name]

/-- Where a path leads, seen from a working directory. -/
def locate (cwd : Location) (p : Path) : Location :=
  p.names.foldl follow (match p.anchor with | .relative => cwd | _ => [])

/-- Whether a destination leads out of a root directory. -/
def outside (cwd : Location) (root : Path) (destination : String) : Bool :=
  !(root.locate cwd).isPrefixOf ((root.join (ofString destination)).locate cwd)

/-- The path of a location. -/
def ofLocation (loc : Location) : Path := ⟨.top, loc⟩

end Path

end Literate
