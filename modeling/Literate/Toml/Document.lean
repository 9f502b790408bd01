import Literate.Toml.Number

/-!
# Reading TOML: values and documents

A document is a list of statements. A statement opens a table, opens one more table of a list of
tables, or sets a key of the table that is open. Some names may not be used again: `Marks` says which.
-/

namespace Literate.Toml

/-- Why a name may not be used again. -/
inductive Mark where
  /-- A value in brackets or braces is complete as it stands, with all that is in it. -/
  | frozen
  /-- A table that has been opened, or that a dotted key has gone through, is not opened again. -/
  | opened
deriving DecidableEq

/-- The marked names, and the marks that will count once the next table is opened. A frozen name marks
all names below it. -/
structure Marks where
  now : List (List String × Mark)
  pending : List (List String × Mark)

namespace Marks

def none : Marks := ⟨[], []⟩

/-- Whether a name is marked. -/
def has (m : Marks) (key : List String) (mark : Mark) : Bool :=
  m.now.any fun e => e.2 == mark && (e.1 == key || (mark == .frozen && e.1.isPrefixOf key))

def set (m : Marks) (key : List String) (mark : Mark) : Marks :=
  { m with now := (key, mark) :: m.now }

/-- Marks a name from the next table on. -/
def setLater (m : Marks) (key : List String) (mark : Mark) : Marks :=
  { m with pending := (key, mark) :: m.pending }

/-- The next table starts. -/
def settle (m : Marks) : Marks := ⟨m.pending ++ m.now, []⟩

/-- Frees a name and all names below it. -/
def clear (m : Marks) (key : List String) : Marks :=
  { m with now := m.now.filter fun e => !key.isPrefixOf e.1 }

end Marks

/-- The entries of a table. -/
abbrev Table := Entries String Datum

/-- Changes the table under a dotted name; tables on the way are made as needed. The way may lead
through the last table of a list where `throughLists` says so. -/
def within (throughLists : Bool) (f : Table → Except Fault Table) :
    List String → Table → Except Fault Table
  | [], t => f t
  | k :: ks, t =>
    match t.lookup k with
    | none => (within throughLists f ks []).map fun inner => Entries.put k (.table inner) t
    | some (.table inner) =>
      (within throughLists f ks inner).map fun inner => Entries.put k (.table inner) t
    | some (.list items) =>
      match throughLists, items.getLast? with
      | true, some (.table inner) =>
        (within throughLists f ks inner).map fun inner =>
          Entries.put k (.list (items.dropLast ++ [.table inner])) t
      | _, _ => .error .malformed
    | some _ => .error .malformed

/-- Sets a name that is not set yet. -/
def insertNew (name : String) (value : Datum) (t : Table) : Except Fault Table :=
  if (t.lookup name).isSome then .error .malformed else .ok (Entries.put name value t)

/-- Adds an empty table to a list of tables. -/
def appendTable (name : String) (t : Table) : Except Fault Table :=
  match t.lookup name with
  | none => .ok (Entries.put name (.list [.table []]) t)
  | some (.list items) => .ok (Entries.put name (.list (items ++ [.table []])) t)
  | some _ => .error .malformed

/-- The last name of a key and those before it. -/
def stem (key : List String) : List String × String := (key.dropLast, key.getLastD "")

/-- Whether a value is complete as it stands. -/
def isCompound : Datum → Bool
  | .list _ => true
  | .table _ => true
  | _ => false

/-- The characters after blanks, newlines and comments. -/
def skipLines (fuel : Nat) (cs : List Char) : Except Fault (List Char) :=
  match fuel with
  | 0 => .ok cs
  | fuel + 1 =>
    match cs.dropWhile fun c => isBlank c || c == '\n' with
    | '#' :: rest =>
      match skipComment ('#' :: rest) with
      | .error f => .error f
      | .ok rest => skipLines fuel rest
    | rest => .ok rest

/-! ## Values -/

/-- The room that there is for values nested in each other. -/
def nestingRoom : Nat := 970

/-- The room that a list takes. -/
def listRoom : Nat := 2

/-- The room that a table in braces takes. -/
def tableRoom : Nat := 3

mutual

/-- A value, for which there is some room. -/
def readValue (room fuel : Nat) (cs : List Char) : Read Datum :=
  match fuel with
  | 0 => .error .malformed
  | fuel + 1 =>
    match cs with
    | '"' :: rest => (readText '"' rest).map fun r => (.text r.1, r.2)
    | '\'' :: rest => (readText '\'' rest).map fun r => (.text r.1, r.2)
    | 't' :: 'r' :: 'u' :: 'e' :: rest => .ok (.flag true, rest)
    | 'f' :: 'a' :: 'l' :: 's' :: 'e' :: rest => .ok (.flag false, rest)
    | '[' :: rest =>
      if room < listRoom then .error .tooDeep
      else (readItems (room - listRoom) fuel rest).map fun r => (.list r.1, r.2)
    | '\x7b' :: rest =>
      match skipBlanks rest with
      | '\x7d' :: rest => .ok (.table [], rest)
      | rest =>
        if room < tableRoom then .error .tooDeep
        else (readMembers (room - tableRoom) fuel .none [] rest).map fun r => (.table r.1, r.2)
    | _ => readScalar cs

/-- The items of a list, up to and with its closing bracket. -/
def readItems (room fuel : Nat) (cs : List Char) : Read (List Datum) :=
  match fuel with
  | 0 => .error .malformed
  | fuel + 1 =>
    match skipLines (cs.length + 1) cs with
    | .error f => .error f
    | .ok (']' :: rest) => .ok ([], rest)
    | .ok rest =>
      match readValue room fuel rest with
      | .error f => .error f
      | .ok (item, rest) =>
        match skipLines (rest.length + 1) rest with
        | .error f => .error f
        | .ok (']' :: rest) => .ok ([item], rest)
        | .ok (',' :: rest) => (readItems room fuel rest).map fun r => (item :: r.1, r.2)
        | .ok _ => .error .malformed

/-- The members of a table in braces, up to and with its closing brace. -/
def readMembers (room fuel : Nat) (marks : Marks) (t : Table) (cs : List Char) : Read Table :=
  match fuel with
  | 0 => .error .malformed
  | fuel + 1 =>
    match readPair room fuel cs with
    | .error f => .error f
    | .ok ((key, value), rest) =>
      let (parents, name) := stem key
      if marks.has key .frozen then .error .malformed
      else
        match within false (insertNew name value) parents t with
        | .error f => .error f
        | .ok t =>
          match skipBlanks rest with
          | '\x7d' :: rest => .ok (t, rest)
          | ',' :: rest =>
            let marks := if isCompound value then marks.set key .frozen else marks
            readMembers room fuel marks t (skipBlanks rest)
          | _ => .error .malformed

/-- A key, an equals sign and a value. -/
def readPair (room fuel : Nat) (cs : List Char) : Read (List String × Datum) :=
  match fuel with
  | 0 => .error .malformed
  | fuel + 1 =>
    match readKey (cs.length + 1) cs with
    | .error f => .error f
    | .ok (key, '=' :: rest) =>
      (readValue room fuel (skipBlanks rest)).map fun r => ((key, r.1), r.2)
    | .ok _ => .error .malformed

end

/-! ## Statements -/

/-- What has been read of a document. -/
structure Draft where
  table : Table
  marks : Marks
  /-- The name of the table that is open. -/
  header : List String

/-- Opens a table. -/
def Draft.open (d : Draft) (key : List String) : Except Fault Draft :=
  let marks := d.marks.settle
  if marks.has key .opened || marks.has key .frozen then .error .malformed
  else
    (within true .ok key d.table).map fun table => ⟨table, marks.set key .opened, key⟩

/-- Opens one more table of a list of tables. -/
def Draft.openNext (d : Draft) (key : List String) : Except Fault Draft :=
  let marks := d.marks.settle
  if marks.has key .frozen then .error .malformed
  else
    let (parents, name) := stem key
    (within true (appendTable name) parents d.table).map fun table =>
      ⟨table, (marks.clear key).set key .opened, key⟩

/-- The names of the tables that a dotted key goes through. -/
def throughNames (header key : List String) : List (List String) :=
  (List.range (key.length - 1)).map fun i => header ++ key.take (i + 1)

/-- Sets a key of the table that is open. -/
def Draft.assign (d : Draft) (key : List String) (value : Datum) : Except Fault Draft :=
  let through := throughNames d.header key
  let (parents, name) := stem key
  if through.any (d.marks.has · .opened) then .error .malformed
  else
    let marks := through.foldl (fun m k => m.setLater k .opened) d.marks
    if marks.has (d.header ++ parents) .frozen then .error .malformed
    else
      (within true (insertNew name value) (d.header ++ parents) d.table).map fun table =>
        ⟨table, if isCompound value then marks.set (d.header ++ key) .frozen else marks, d.header⟩

/-- What is left of a line after its statement: nothing but blanks and a comment. -/
def endLine (cs : List Char) : Except Fault (List Char) :=
  match skipComment (skipBlanks cs) with
  | .error f => .error f
  | .ok [] => .ok []
  | .ok ('\n' :: rest) => .ok rest
  | .ok _ => .error .malformed

/-- One statement, up to what follows it on its line. -/
def readStatement (d : Draft) (cs : List Char) : Read Draft :=
  match cs with
  | '[' :: '[' :: rest =>
    match readKey (rest.length + 1) (skipBlanks rest) with
    | .error f => .error f
    | .ok (key, rest) =>
      match d.openNext key, rest with
      | .ok d, ']' :: ']' :: rest => .ok (d, rest)
      | _, _ => .error .malformed
  | '[' :: rest =>
    match readKey (rest.length + 1) (skipBlanks rest) with
    | .error f => .error f
    | .ok (key, rest) =>
      match d.open key, rest with
      | .ok d, ']' :: rest => .ok (d, rest)
      | _, _ => .error .malformed
  | _ =>
    match readPair nestingRoom (2 * cs.length + 4) cs with
    | .error f => .error f
    | .ok ((key, value), rest) => (d.assign key value).map fun d => (d, rest)

/-- The statements from here on. -/
def readStatements (fuel : Nat) (d : Draft) (cs : List Char) : Except Fault Table :=
  match fuel with
  | 0 => .error .malformed
  | fuel + 1 =>
    match skipBlanks cs with
    | [] => .ok d.table
    | '\n' :: rest => readStatements fuel d rest
    | '#' :: rest =>
      match endLine ('#' :: rest) with
      | .error f => .error f
      | .ok rest => readStatements fuel d rest
    | cs =>
      match readStatement d cs with
      | .error f => .error f
      | .ok (d, rest) =>
        match endLine rest with
        | .error f => .error f
        | .ok rest => readStatements fuel d rest

/-- The table that a text holds. No reader takes more than two units of fuel for a character. -/
def parse (text : String) : Except Fault Table :=
  let cs := text.toList
  readStatements (cs.length + 1) ⟨[], .none, []⟩ cs

end Literate.Toml
