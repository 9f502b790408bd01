import Literate.Disk.Temporary
import Literate.Replay

/-!
# Writing destinations

The operations of a destination are replayed on what its file holds, in memory, and the result is
put in place at once: the file is left as it was or replaced as a whole. What is missing of its
directory is made. A destination that cannot be written does not keep the others from being tried.
-/

namespace Literate

open Text (quoted)

/-- A destination that could not be written. -/
structure WriteFailure where
  destination : String
  path : Path
  cause : Refused
deriving DecidableEq, Repr

namespace WriteFailure

def message (f : WriteFailure) : String :=
  "failed writing " ++ quoted f.destination ++ s!" to {f.path.text}: {f.cause.message}"

end WriteFailure

/-- What became of one destination. -/
structure WriteResult where
  destination : String
  path : Path
  bytesWritten : Nat
  error : Option WriteFailure
deriving DecidableEq, Repr

namespace WriteResult

def ok (r : WriteResult) : Bool := r.error.isNone

end WriteResult

/-- Operations for a destination. -/
structure WriteRequest where
  destination : String
  operations : List Operation

namespace Disk

/-- What a destination's file holds, as far as the operations need it. -/
def existing (d : Disk) (p : Path) (operations : List Operation) : Except Errno ByteArray :=
  if Operation.anyOverwrite operations then .ok .empty
  else
    match d.existsAt p with
    | .error e => .error e
    | .ok false => .ok .empty
    | .ok true => d.read p

/-- The permission bits that a file has or, if it is new, gets. -/
def targetMode (d : Disk) (p : Path) (umask : Nat := usualUmask) : Except Errno Nat :=
  match d.stat p with
  | .ok node => .ok node.mode
  | .error .notFound => .ok (fileMode umask)
  | .error e => .error e

/-- Writes the bytes that the operations make of a file, and says how many they are. -/
def flushTo (d : Disk) (p : Path) (operations : List Operation) (s : Surroundings := .usual) :
    Disk × Except Refused Nat :=
  match d.existing p operations with
  | .error e => (d, .error ⟨e, p⟩)
  | .ok old =>
    let bytes := Operation.replay old operations
    match d.makeDirectories p.parent.anchor p.parent.names s.umask with
    | (d, some refused) => (d, .error refused)
    | (d, none) =>
      match d.targetMode p s.umask with
      | .error e => (d, .error ⟨e, p⟩)
      | .ok mode =>
        match d.replaceThrough p bytes mode s with
        | (d, .error e) => (d, .error ⟨e, p⟩)
        | (d, .ok ()) => (d, .ok bytes.size)

/-- Writes one destination below a root directory. -/
def flush (d : Disk) (root : Path) (request : WriteRequest) (s : Surroundings := .usual) :
    Disk × WriteResult :=
  let p := root.join (.ofString request.destination)
  match d.flushTo p request.operations s with
  | (d, .ok n) => (d, ⟨request.destination, p, n, none⟩)
  | (d, .error refused) =>
    (d, ⟨request.destination, p, 0, some ⟨request.destination, p, refused⟩⟩)

/-- What came of a list of destinations. -/
structure WriteOutcome where
  disk : Disk
  results : List WriteResult
  /-- A path that no file can have ended the run before all destinations were tried. -/
  unnameable : Bool

/-- Writes destinations below a root directory, one after the other. -/
def writeAll (d : Disk) (root : Path) (requests : List WriteRequest)
    (s : Surroundings := .usual) : WriteOutcome :=
  match requests with
  | [] => ⟨d, [], false⟩
  | request :: requests =>
    if root.hasNul || (Path.ofString request.destination).hasNul then ⟨d, [], true⟩
    else
      let (d, result) := d.flush root request s
      let rest := writeAll d root requests s
      { rest with results := result :: rest.results }

end Disk

end Literate
