import Literate.Command.Footprint

/-!
# The program

Brings in from the file system what the command line looks at, lets the library work on that, and puts
back what has changed.
-/

namespace Literate

open Command

/-- What is at a location of the file system. -/
def look (place : Location) : IO (Option Node) := do
  let path := (← IO.currentDir) / (Path.ofLocation place).text
  if ← path.isDir then return some (.directory Disk.directoryMode)
  else if ← path.pathExists then return some (.file (← IO.FS.readBinFile path) Disk.fileMode)
  else return none

/-- Brings in the locations that a command line looks at, until there are no more. Paths only grow by
what a document says about destinations, so a few rounds are enough. -/
def bringIn (args : List String) (rounds : Nat) (seen : List Location) (d : Disk) : IO Disk := do
  match rounds with
  | 0 => return d
  | rounds + 1 =>
    let new := unseen seen d.cwd (footprint .builtin d args)
    let mut disk := d
    for place in new do
      match ← look place with
      | some node => disk := disk.put place node
      | none => pure ()
    if new.isEmpty then return disk
    else bringIn args rounds (new ++ seen) disk

/-- Puts a changed file or a new directory back. -/
def putBack (before : Disk) (place : Location) (node : Node) : IO Unit := do
  let path := (← IO.currentDir) / (Path.ofLocation place).text
  match node with
  | .directory _ => unless (before.get? place).isSome do IO.FS.createDir path
  | .file content _ => unless before.get? place = some node do IO.FS.writeBinFile path content

/-- The working directory as a location. -/
def workingDirectory : IO Location := do
  return (Path.ofString (← IO.currentDir).toString).names

/-- Prints what a task prints and says with which code the program ends. -/
def report (o : Outcome) : IO UInt32 := do
  for line in o.err do IO.eprintln line
  for line in o.out do IO.println line
  match o.ending with
  | .exit code => return UInt32.ofNat code
  | .usage message =>
    IO.eprintln (message.getD "usage: betwixt [-v] [-V] tangle|fragments|flavors ...")
    return 2
  | .crash _ =>
    IO.eprintln "internal error"
    return 1

end Literate

open Literate in
/-- The command line program. -/
def main (args : List String) : IO UInt32 := do
  let cwd ← workingDirectory
  let here := Command.locationsOf cwd .here ++ Command.locationsOf [] (Path.ofLocation cwd)
  let start := here.foldl (fun d l => d.put l (.directory Disk.directoryMode)) ⟨cwd, []⟩
  let before ← bringIn args 8 here start
  let outcome := Command.run .builtin before args
  for (place, node) in outcome.disk.nodes do putBack before place node
  report outcome
