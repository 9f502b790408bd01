import Literate.Disk.Basic

/-!
# Files that are not finished yet

A file is put in place in four steps: an empty file is made beside it under a name that nothing has, it
is filled, it gets its permission bits, and it is renamed. If it cannot be renamed, it is taken away
again. Which name it has until then is up to the system, and so are the permission bits that new things
do not get: a program runs in some `Surroundings`.
-/

namespace Literate

/-- What is up to the system when files are written. -/
structure Surroundings where
  umask : Nat
  /-- What tells the temporary name for a file in a directory from other names. -/
  suffix : Disk → Location → String → String

namespace Disk

/-- The name of a file until it is finished. -/
def temporaryName (name suffix : String) : String := "." ++ name ++ "." ++ suffix

/-- The bytes that a temporary name is longer than the name it stands for: a dot on either side and
eight characters. -/
def temporaryExtra : Nat := 10

/-- Permission bits of a file that is not finished. -/
def temporaryMode : Nat := 0o600

/-- A number as the suffix of a temporary name. -/
def suffixOf (n : Nat) : String := Nat.repr (10000000 + n)

/-- A suffix for which nothing in a directory has the temporary name. -/
def freeSuffix (d : Disk) (dir : Location) (name : String) : String :=
  (((List.range (d.nodes.length + 1)).map suffixOf).find? fun suffix =>
    (d.get? (dir ++ [temporaryName name suffix])).isNone).getD ""

/-- The directory at a path, if names may be looked up in it. -/
def openDirectory (d : Disk) (p : Path) : Except Errno Location :=
  match d.find p with
  | .error e => .error e
  | .ok loc =>
    match d.get? loc with
    | none => .error .notFound
    | some (.file ..) => .error .notDirectory
    | some (.directory bits) =>
      if (Node.directory bits).grants .search then .ok loc else .error .denied

/-- Makes the empty file that is to become the file of a path, in the directory of that path, and says
where it is. -/
def makeTemporary (d : Disk) (p : Path) (s : Surroundings) : Except Errno (Disk × Location) :=
  match d.openDirectory p.parent with
  | .error e => .error e
  | .ok dir =>
    if maxName < p.name.utf8ByteSize + temporaryExtra then .error .nameTooLong
    else
      let loc := dir ++ [temporaryName p.name (s.suffix d dir p.name)]
      if (d.get? loc).isSome then .error .exists
      else if d.mayChange dir then .ok (d.put loc (.file .empty temporaryMode), loc)
      else .error .denied

/-- Fills a file. -/
def fill (d : Disk) (loc : Location) (content : ByteArray) : Disk :=
  match d.get? loc with
  | some (.file _ mode) => d.put loc (.file content mode)
  | _ => d

/-- Gives permission bits to a file. -/
def permit (d : Disk) (loc : Location) (mode : Nat) : Disk :=
  match d.get? loc with
  | some (.file content _) => d.put loc (.file content mode)
  | _ => d

/-- Gives a file the name of a path, in place of the file that has it. -/
def rename (d : Disk) (source : Location) (p : Path) : Except Errno Disk :=
  match d.get? source with
  | none => .error .notFound
  | some node =>
    match d.find p.parent with
    | .error e => .error e
    | .ok dir =>
      match ownName? p with
      | none => .error .busy
      | some name =>
        match d.get? (dir ++ [name]) with
        | some (.directory _) => .error .isDirectory
        | _ =>
          if d.mayChange dir then .ok ((d.put (dir ++ [name]) node).erase source)
          else .error .denied

/-- Puts a file in place of the one that a path leads to. -/
def replaceThrough (d : Disk) (p : Path) (content : ByteArray) (mode : Nat) (s : Surroundings) :
    Disk × Except Errno Unit :=
  match d.makeTemporary p s with
  | .error e => (d, .error e)
  | .ok (d, loc) =>
    let d := (d.fill loc content).permit loc mode
    match d.rename loc p with
    | .error e => (d.erase loc, .error e)
    | .ok d => (d, .ok ())

end Disk

/-- The system as most programs find it. -/
def Surroundings.usual : Surroundings := ⟨Disk.usualUmask, Disk.freeSuffix⟩

end Literate
