/-!
# JSON text

The printer of the machine readable report: two blanks per level, one member or element a line, and
an empty list closed on the line on which it opens.
-/

namespace Literate

/-- A JSON value. -/
inductive Json where
  | null
  | bool (b : Bool)
  | number (n : Int)
  | string (s : String)
  | list (items : List Json)
  | object (members : List (String × Json))

namespace Json

/-- One lower case hexadecimal digit below sixteen. -/
def hex (n : Nat) : Char := if n < 10 then Char.ofNat (48 + n) else Char.ofNat (87 + n)

/-- One character inside quotes. -/
def escapeChar (c : Char) : List Char :=
  if c = '"' then ['\\', '"']
  else if c = '\\' then ['\\', '\\']
  else if c = '\n' then ['\\', 'n']
  else if c = '\r' then ['\\', 'r']
  else if c = '\t' then ['\\', 't']
  else if c.toNat = 8 then ['\\', 'b']
  else if c.toNat = 12 then ['\\', 'f']
  else if c.toNat < 32 then ['\\', 'u', '0', '0', hex (c.toNat / 16), hex (c.toNat % 16)]
  else [c]

/-- A text in quotes. -/
def quote (s : String) : String := String.ofList ('"' :: s.toList.flatMap escapeChar ++ ['"'])

/-- A new line with blanks for some levels. -/
def lineBreak (depth : Nat) : String := String.ofList ('\n' :: List.replicate (2 * depth) ' ')

mutual

/-- The text of a value that starts on a line of the given level. -/
def render (depth : Nat) : Json → String
  | null => "null"
  | bool b => if b then "true" else "false"
  | number n => toString n
  | string s => quote s
  | list [] => "[]"
  | list (j :: js) =>
    "[" ++ ",".intercalate (renderItems (depth + 1) (j :: js)) ++ lineBreak depth ++ "]"
  | object [] => "\x7b\x7d"
  | object (m :: ms) =>
    "\x7b" ++ ",".intercalate (renderMembers (depth + 1) (m :: ms)) ++ lineBreak depth ++ "\x7d"

/-- The elements of a list, each on a line of its own. -/
def renderItems (depth : Nat) : List Json → List String
  | [] => []
  | j :: js => (lineBreak depth ++ render depth j) :: renderItems depth js

/-- The members of an object, each on a line of its own. -/
def renderMembers (depth : Nat) : List (String × Json) → List String
  | [] => []
  | (k, j) :: ms =>
    (lineBreak depth ++ quote k ++ ": " ++ render depth j) :: renderMembers depth ms

end

/-- The text of a value. -/
def text (j : Json) : String := j.render 0

/-- A text, or null for none. -/
def ofText? (s : Option String) : Json := (s.map string).getD null

/-- A number, or null for none. -/
def ofNumber? (n : Option Int) : Json := (n.map number).getD null

end Json

end Literate
