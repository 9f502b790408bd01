import Literate.Entries
import Literate.Path
import Literate.Text.Quoted

/-!
# Files and directories

A `Disk` holds files and directories by location, with their permission bits, and the directory in which
the program runs. There are no links. Everything belongs to whom the program runs for, so the owner's
permission bits say what is denied. A path is looked up name by name: every name but the last must lead
to a directory, also one that `..` takes back again.
-/

namespace Literate

open Text (quoted)

/-- A file or a directory. -/
inductive Node where
  | file (content : ByteArray) (mode : Nat)
  | directory (mode : Nat)

namespace Node

instance : DecidableEq Node
  | .file content mode, .file content' mode' =>
    have : Decidable (content = content') := ByteArray.decEq content content'
    decidable_of_iff (content = content' ∧ mode = mode') (by rw [file.injEq])
  | .directory mode, .directory mode' => decidable_of_iff (mode = mode') (by rw [directory.injEq])
  | .file .., .directory _ => isFalse Node.noConfusion
  | .directory _, .file .. => isFalse Node.noConfusion

def mode : Node → Nat
  | file _ m => m
  | directory m => m

def isDirectory : Node → Bool
  | file .. => false
  | directory _ => true

end Node

/-- What can be permitted. To search a directory is to look up names in it. -/
inductive Access where
  | read
  | write
  | search
deriving DecidableEq, Repr

/-- The owner's permission bit. -/
def Access.bit : Access → Nat
  | read => 0o400
  | write => 0o200
  | search => 0o100

/-- Whether the owner is permitted to do this. -/
def Node.grants (n : Node) (a : Access) : Bool := n.mode / a.bit % 2 == 1

/-- Why the file system refuses an operation. -/
inductive Errno where
  | notFound
  | denied
  | busy
  | exists
  | notDirectory
  | isDirectory
  | nameTooLong
deriving DecidableEq, Repr

namespace Errno

def code : Errno → Nat
  | notFound => 2
  | denied => 13
  | busy => 16
  | «exists» => 17
  | notDirectory => 20
  | isDirectory => 21
  | nameTooLong => 36

def message : Errno → String
  | notFound => "No such file or directory"
  | denied => "Permission denied"
  | busy => "Device or resource busy"
  | «exists» => "File exists"
  | notDirectory => "Not a directory"
  | isDirectory => "Is a directory"
  | nameTooLong => "File name too long"

end Errno

/-- A refused operation and the path that it was about. -/
structure Refused where
  errno : Errno
  path : Path
deriving DecidableEq, Repr

namespace Refused

def message (f : Refused) : String :=
  s!"[Errno {f.errno.code}] {f.errno.message}: " ++ quoted f.path.text

end Refused

/-- Files, directories and the working directory. -/
structure Disk where
  cwd : Location
  nodes : Entries Location Node

namespace Disk

/-- The permission bits that most programs do not give to what they make. -/
def usualUmask : Nat := 0o022

/-- Permission bits of a new directory. -/
def directoryMode (umask : Nat := usualUmask) : Nat := 0o777 &&& (0o777 ^^^ umask)

/-- Permission bits of a new file. -/
def fileMode (umask : Nat := usualUmask) : Nat := 0o666 &&& (0o777 ^^^ umask)

/-- The most bytes that one name can have. -/
def maxName : Nat := 255

/-- The most bytes that the text of a path can have. -/
def maxPath : Nat := 4095

/-- What is at a location. The top directory is always there. -/
def get? (d : Disk) (loc : Location) : Option Node :=
  if loc = [] then some (.directory directoryMode) else d.nodes.lookup loc

/-- The disk with something put at a location. -/
def put (d : Disk) (loc : Location) (node : Node) : Disk :=
  { d with nodes := Entries.put loc node d.nodes }

/-- The disk without what is at a location. -/
def erase (d : Disk) (loc : Location) : Disk :=
  { d with nodes := d.nodes.filter fun e => !(e.1 == loc) }

/-- Whether a name is too long to be anything's name. -/
def tooLong (name : String) : Bool := maxName < name.utf8ByteSize

/-- Where one name leads from a location. -/
def follow (d : Disk) (loc : Location) (name : String) : Except Errno Location :=
  match d.get? loc with
  | none => .error .notFound
  | some (.file ..) => .error .notDirectory
  | some (.directory mode) =>
    if !(Node.directory mode).grants .search then .error .denied
    else if name = ".." then .ok loc.dropLast
    else if tooLong name then .error .nameTooLong
    else if (d.get? (loc ++ [name])).isSome then .ok (loc ++ [name])
    else .error .notFound

/-- Where names lead from a location. -/
def walk (d : Disk) (loc : Location) : List String → Except Errno Location
  | [] => .ok loc
  | name :: names =>
    match d.follow loc name with
    | .error e => .error e
    | .ok next => walk d next names

/-- The location from which a path is looked up. -/
def startOf (d : Disk) (p : Path) : Location :=
  match p.anchor with
  | .relative => d.cwd
  | _ => []

/-- Where a path leads to something that is there. -/
def find (d : Disk) (p : Path) : Except Errno Location :=
  if maxPath < p.text.utf8ByteSize then .error .nameTooLong else d.walk (d.startOf p) p.names

/-- What is there under a path. -/
def stat (d : Disk) (p : Path) : Except Errno Node :=
  match d.find p with
  | .error e => .error e
  | .ok loc =>
    match d.get? loc with
    | none => .error .notFound
    | some node => .ok node

/-- Whether something is there under a path. That its name is too long, or that it may not be looked up,
is no answer. -/
def existsAt (d : Disk) (p : Path) : Except Errno Bool :=
  match d.stat p with
  | .ok _ => .ok true
  | .error .nameTooLong => .error .nameTooLong
  | .error .denied => .error .denied
  | .error _ => .ok false

/-- Whether a directory is there under a path. -/
def isDirectory (d : Disk) (p : Path) : Bool :=
  match d.stat p with
  | .ok node => node.isDirectory
  | .error _ => false

/-- The bytes of a file. -/
def read (d : Disk) (p : Path) : Except Errno ByteArray :=
  match d.stat p with
  | .error e => .error e
  | .ok (.directory _) => .error .isDirectory
  | .ok (.file content mode) =>
    if (Node.file content mode).grants .read then .ok content else .error .denied

/-- The last name of a path, if it is one that can be made or replaced. -/
def ownName? (p : Path) : Option String :=
  match p.names.getLast? with
  | none => none
  | some name => if name = ".." then none else some name

/-- Whether names may be made or replaced in the directory at a location. -/
def mayChange (d : Disk) (loc : Location) : Bool := (d.get? loc).any (·.grants .write)

/-- The location of something that may not be there yet: the directory that is to hold it must be. -/
def slot (d : Disk) (p : Path) (name : String) : Except Errno Location :=
  if maxPath < p.text.utf8ByteSize then .error .nameTooLong
  else
    match d.walk (d.startOf p) p.parent.names with
    | .error e => .error e
    | .ok loc =>
      match d.get? loc with
      | some (.directory mode) =>
        if !(Node.directory mode).grants .search then .error .denied
        else if tooLong name then .error .nameTooLong
        else .ok (loc ++ [name])
      | some (.file ..) => .error .notDirectory
      | none => .error .notFound

/-- Makes one directory. -/
def makeDirectory (d : Disk) (p : Path) (umask : Nat := usualUmask) : Except Errno Disk :=
  match ownName? p with
  | none =>
    match d.find p with
    | .error e => .error e
    | .ok _ => .error .exists
  | some name =>
    match d.slot p name with
    | .error e => .error e
    | .ok loc =>
      if (d.get? loc).isSome then .error .exists
      else if d.mayChange loc.dropLast then .ok (d.put loc (.directory (directoryMode umask)))
      else .error .denied

/-- Makes a directory and those around it that are missing; one that is there already will do. The
directories that are made stay, also if a later one cannot be made. -/
def makeDirectories (d : Disk) (anchor : Anchor) (names : List String)
    (umask : Nat := usualUmask) : Disk × Option Refused :=
  let p : Path := ⟨anchor, names⟩
  match d.makeDirectory p umask with
  | .ok d => (d, none)
  | .error .notFound =>
    if names = [] then (d, some ⟨.notFound, p⟩)
    else
      match makeDirectories d anchor names.dropLast umask with
      | (d, some f) => (d, some f)
      | (d, none) =>
        match d.makeDirectory p umask with
        | .ok d => (d, none)
        | .error e => (d, if e ≠ .notFound && d.isDirectory p then none else some ⟨e, p⟩)
  | .error e => (d, if d.isDirectory p then none else some ⟨e, p⟩)
termination_by names.length
decreasing_by
  have := List.length_pos_iff.mpr ‹_›
  simp only [List.length_dropLast]
  omega

/-- Writes a file, in the way of a program that opens it and writes: it keeps its permission bits. -/
def write (d : Disk) (p : Path) (content : ByteArray) : Except Errno Disk :=
  match ownName? p with
  | none =>
    match d.find p with
    | .error e => .error e
    | .ok _ => .error .isDirectory
  | some name =>
    match d.slot p name with
    | .error e => .error e
    | .ok loc =>
      match d.get? loc with
      | some (.directory _) => .error .isDirectory
      | some (.file old mode) =>
        if (Node.file old mode).grants .write then .ok (d.put loc (.file content mode))
        else .error .denied
      | none =>
        if d.mayChange loc.dropLast then .ok (d.put loc (.file content fileMode))
        else .error .denied

end Disk

end Literate
