import Literate.Datum

/-!
# Reading TOML: words, keys and texts

Readers take the characters that are left and return what they read with the characters that
are left then. Where TOML allows no reading at all they end with a `Fault`.
-/

namespace Literate.Toml

/-- Why a text is no TOML document. -/
inductive Fault where
  | malformed
  /-- A decimal number of more digits than are ever converted. -/
  | tooManyDigits
  /-- Values are nested too deeply in each other. -/
  | tooDeep
deriving DecidableEq, Repr

/-- A result and the characters that are left. -/
abbrev Read (α : Type) := Except Fault (α × List Char)

def isBlank (c : Char) : Bool := c == ' ' || c == '\t'

def skipBlanks (cs : List Char) : List Char := cs.dropWhile isBlank

/-- Characters of a key that is not quoted. -/
def isBareKeyChar (c : Char) : Bool := c.isAlphanum || c == '-' || c == '_'

/-- Control characters but for the tab: none of them may stand in a text of one line or in a comment. -/
def isForbidden (c : Char) : Bool := c != '\t' && (c.toNat < 32 || c.toNat == 127)

/-- The characters after a comment, if one starts here. -/
def skipComment : List Char → Except Fault (List Char)
  | '#' :: cs =>
    if (cs.takeWhile (· != '\n')).any isForbidden then .error .malformed
    else .ok (cs.dropWhile (· != '\n'))
  | cs => .ok cs

/-- The value of a hexadecimal digit. -/
def hexValue? (c : Char) : Option Nat :=
  if c.isDigit then some (c.toNat - 48)
  else if 'a' ≤ c && c ≤ 'f' then some (c.toNat - 87)
  else if 'A' ≤ c && c ≤ 'F' then some (c.toNat - 55)
  else none

/-- The character whose code point the first `width` characters spell. -/
def readCodePoint (width : Nat) (cs : List Char) : Read Char :=
  let digits := (cs.take width).map hexValue?
  if digits.length ≠ width || digits.any (·.isNone) then .error .malformed
  else
    let n := digits.foldl (fun n d => 16 * n + d.getD 0) 0
    if n.isValidChar then .ok (Char.ofNat n, cs.drop width) else .error .malformed

/-- The character after a backslash, where one letter stands for it. -/
def escaped? (c : Char) : Option Char :=
  if c = 'b' then some '\x08'
  else if c = 't' then some '\t'
  else if c = 'n' then some '\n'
  else if c = 'f' then some '\x0c'
  else if c = 'r' then some '\r'
  else if c = '"' then some '"'
  else if c = '\\' then some '\\'
  else none

/-- What an escape stands for, from just after its backslash. In a text of several lines, a backslash
at the end of a line takes the line break and the blanks around it with it. -/
def readEscape (multiline : Bool) (cs : List Char) : Read (List Char) :=
  match cs with
  | [] => .error .malformed
  | c :: rest =>
    if multiline && (isBlank c || c == '\n') then
      match cs.dropWhile isBlank with
      | [] => .ok ([], [])
      | '\n' :: rest => .ok ([], rest.dropWhile fun c => isBlank c || c == '\n')
      | _ => .error .malformed
    else
      let width := if c = 'u' then 4 else if c = 'U' then 8 else 0
      if 0 < width then (readCodePoint width rest).map fun r => ([r.1], r.2)
      else
        match escaped? c with
        | some x => .ok ([x], rest)
        | none => .error .malformed

/-- The inside of a text in double quotes, from just after its opening. -/
def readBasic (multiline : Bool) (fuel : Nat) (cs : List Char) : Read (List Char) :=
  match fuel, cs with
  | 0, _ => .error .malformed
  | _, [] => .error .malformed
  | fuel + 1, c :: rest =>
    if c = '"' && (!multiline || ['"', '"'].isPrefixOf rest) then
      .ok ([], if multiline then rest.drop 2 else rest)
    else if c = '\\' then
      match readEscape multiline rest with
      | .error f => .error f
      | .ok (text, rest) =>
        (readBasic multiline fuel rest).map fun r => (text ++ r.1, r.2)
    else if isForbidden c && !(multiline && c == '\n') then .error .malformed
    else (readBasic multiline fuel rest).map fun r => (c :: r.1, r.2)

/-- The inside of a text of one line in single quotes. -/
def readLiteral (cs : List Char) : Read (List Char) :=
  let inside := cs.takeWhile (· != '\'')
  match cs.dropWhile (· != '\'') with
  | [] => .error .malformed
  | _ :: rest => if inside.any isForbidden then .error .malformed else .ok (inside, rest)

/-- The inside of a text of several lines in single quotes. -/
def readLongLiteral (cs : List Char) : Read (List Char) :=
  match cs with
  | [] => .error .malformed
  | c :: rest =>
    if ['\'', '\'', '\''].isPrefixOf (c :: rest) then .ok ([], rest.drop 2)
    else if isForbidden c && c != '\n' then .error .malformed
    else (readLongLiteral rest).map fun r => (c :: r.1, r.2)

/-- One or two more quotes that stand before the three that close a text of several lines. -/
def moreQuotes (quote : Char) (r : List Char × List Char) : List Char × List Char :=
  let more := (r.2.take 2).takeWhile (· == quote)
  (r.1 ++ more, r.2.drop more.length)

/-- A text of several lines, from just after its three opening quotes. -/
def readLong (quote : Char) (cs : List Char) : Read (List Char) :=
  let cs := match cs with
    | '\n' :: rest => rest
    | _ => cs
  (if quote = '"' then readBasic true (cs.length + 1) cs else readLongLiteral cs).map
    (moreQuotes quote)

/-- A text, from its first quote. -/
def readText (quote : Char) (rest : List Char) : Read String :=
  let inside :=
    if [quote, quote].isPrefixOf rest then readLong quote (rest.drop 2)
    else if quote = '"' then readBasic false (rest.length + 1) rest
    else readLiteral rest
  inside.map fun r => (String.ofList r.1, r.2)

/-- One name of a key. -/
def readKeyPart (cs : List Char) : Read String :=
  match cs with
  | [] => .error .malformed
  | c :: rest =>
    if isBareKeyChar c then
      .ok (String.ofList (cs.takeWhile isBareKeyChar), cs.dropWhile isBareKeyChar)
    else if c = '"' then
      (readBasic false (rest.length + 1) rest).map fun r => (String.ofList r.1, r.2)
    else if c = '\'' then (readLiteral rest).map fun r => (String.ofList r.1, r.2)
    else .error .malformed

/-- A key: names with dots between them. -/
def readKey (fuel : Nat) (cs : List Char) : Read (List String) :=
  match fuel with
  | 0 => .error .malformed
  | fuel + 1 =>
    match readKeyPart cs with
    | .error f => .error f
    | .ok (part, rest) =>
      match skipBlanks rest with
      | '.' :: rest => (readKey fuel (skipBlanks rest)).map fun r => (part :: r.1, r.2)
      | rest => .ok ([part], rest)

end Literate.Toml
