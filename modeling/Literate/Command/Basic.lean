import Literate.Command.Arguments
import Literate.Journal
import Literate.Listing
import Literate.Settings
import Literate.Tangle.Machine
import Literate.Text.Control

/-!
# The command line program

A task is carried out on a disk and yields the disk as it is then, the lines that are printed, and
how the program ends. Nothing else of the outside is looked at.
-/

namespace Literate.Command

open Text (quoted printed)

/-- The version that the program reports. -/
def version : String := "0.1.0"

/-- A fault that ends the program with no word of its own. -/
inductive Crash where
  | abort (a : Abort)
  | settings (f : Settings.Fault)
  | refused (e : Errno)
deriving DecidableEq, Repr

/-- How the program ends. -/
inductive Ending where
  /-- With an exit code. -/
  | exit (code : Nat)
  /-- The command line is no command line of the program, or a check of its values failed, and then there
  is a message. -/
  | usage (message : Option String)
  | crash (c : Crash)
deriving DecidableEq, Repr

/-- What came of a command line. -/
structure Outcome where
  disk : Disk
  out : List String
  err : List String
  ending : Ending

namespace Outcome

/-- Nothing was printed and nothing was changed. -/
def quiet (d : Disk) (ending : Ending) : Outcome := ⟨d, [], [], ending⟩

/-- Lines for the error output in front of the others. -/
def after (o : Outcome) (err : List String) : Outcome := { o with err := err ++ o.err }

end Outcome

/-- The message about a flavor that nobody knows. -/
def unknownFlavor (r : Registry) (id : String) : String :=
  let known := ", ".intercalate (r.flavors.map (·.id))
  "unknown flavor " ++ quoted id ++ s!" (known: {known})"

/-- The complaint about the flavor that was asked for, if it is not known. -/
def flavorComplaint? (r : Registry) (id : Option String) : Option String :=
  id.bind fun id => if (r.forName? id).isSome then none else some (unknownFlavor r id)

/-- The message about an output directory that is not there. -/
def missingRoot (root : Path) : String := s!"output directory {root.text} does not exist"

/-- Whether an argument names a file that is there and may be read. -/
def namesFile (d : Disk) (arg : String) : Bool :=
  match d.stat (.ofString arg) with
  | .ok node => !node.isDirectory && node.grants .read
  | .error _ => false

/-- Whether an argument can name a path: no character in it is impossible in a name, and what is there
already may be read. -/
def namesPath (d : Disk) (arg : String) : Bool :=
  let p := Path.ofString arg
  !p.hasNul &&
    match d.stat p with
    | .ok node => node.grants .read
    | .error _ => true

/-- Whether the arguments that were given can name paths. -/
def namePaths (d : Disk) (args : List (Option String)) : Bool :=
  args.all fun arg => arg.all (namesPath d)

/-- A text as a setting; none is a setting that was not given. -/
def textSetting (s : Option String) : Datum := (s.map Datum.text).getD .null

/-- A choice as a setting. -/
def flagSetting (b : Option Bool) : Datum := (b.map Datum.flag).getD .null

/-- The options of a run and the warnings on the way to them. -/
structure Resolved where
  options : Options
  warnings : List String

/-- Makes the options out of explicit settings and those of the settings file. -/
def resolve (d : Disk) (config : Option String) (explicit : Settings) :
    Except Settings.Fault Resolved :=
  let file := config.map Path.ofString
  let root := match file with
    | some p => p.parent
    | none => Path.ofLocation d.cwd
  let location := Settings.location d.cwd (some root) file
  match Settings.load d location with
  | .error f => .error f
  | .ok loaded =>
    (Settings.options (Settings.overlay explicit loaded.settings) root).map fun options =>
      ⟨options, (loaded.problem.map (Settings.warning location)).toList⟩

/-- The location to which an output argument leads, as text. -/
def outputText (d : Disk) (output : String) : String :=
  (Path.ofLocation ((Path.ofString output).locate d.cwd)).text

/-- The settings that the arguments of a run make. -/
def TangleArgs.settings (a : TangleArgs) (d : Disk) : Settings := [
  ("output", textSetting (a.output.map (outputText d))),
  ("tag", textSetting a.tag),
  ("strict", flagSetting a.strict),
  ("flavor", textSetting a.flavor),
  ("lenient_directives", flagSetting a.lenient),
  ("dry_run", if a.dryRun then .flag true else .null)]

/-- The lines of the journal, if one is kept. -/
def logLines (verbose : Bool) (notes : List Note) : List String :=
  if verbose then notes.map Note.logged else []

/-- The message of an abort that the user is told of; any other one is a fault of the program. -/
def Abort.told? : Abort → Option String
  | .stop (.malformed fault) => some fault.message
  | .unreadable path cause => some s!"cannot read {path.text}: {cause.message}"
  | _ => none

/-- The ending after an abort, and the line that is printed. -/
def ofAbort (d : Disk) (a : Abort) : Outcome :=
  match Abort.told? a with
  | some message => ⟨d, [], [printed ("Error: " ++ message)], .exit 1⟩
  | none => .quiet d (.crash (.abort a))

/-- The notes on going through the document in a file. -/
def documentNotes (r : Registry) (d : Disk) (options : Options) (file : Path) : List Note :=
  match Tangle.flavorFor r options (some file.extension), Tangle.readDocument d file with
  | .ok f, .ok text => Journal.ofDocument options.lenient (Document.read r f text)
  | _, _ => []

/-! ## Runs -/

/-- The line about one destination of a report, if there is something to say. -/
def destinationLine? (r : Report) (p : DestinationPlan) : Option String :=
  if r.dryRun then some s!"would write {p.destination} ({p.operations.length} fragment(s))"
  else
    match r.result? p.destination with
    | some w => if w.ok then some s!"wrote {w.path.text} ({w.bytesWritten} bytes)" else none
    | none => none

/-- The lines about destinations, with which a report begins when it is printed. -/
def destinationLines (r : Report) : List String :=
  (r.plan.destinations.filterMap (destinationLine? r)).map printed

/-- The lines about issues. -/
def issueLines (r : Report) : List String :=
  r.issues.map Issue.describe ++
    if !r.errors.isEmpty && r.results.isEmpty && !r.dryRun then
      [s!"nothing written: {r.errors.length} error(s)"]
    else []

/-- Puts the machine readable report where it is asked for. -/
def writeReport (d : Disk) (file : Path) (text : String) : Disk × Option Errno :=
  match d.makeDirectories file.parent.anchor file.parent.names with
  | (d, some refused) => (d, some refused.errno)
  | (d, none) =>
    match d.write file (text ++ "\n").toUTF8 with
    | .error e => (d, some e)
    | .ok d => (d, none)

/-- Prints a report. The lines are out before the machine readable report is put where it is asked for, so
they are printed also if that fails. Its text is printed last. -/
def present (d : Disk) (a : TangleArgs) (r : Report) : Outcome :=
  let text := r.json.text
  let written := match a.report with
    | none => (d, none)
    | some file => writeReport d (.ofString file) text
  let err := (issueLines r).map printed
  match written with
  | (d, some e) => ⟨d, destinationLines r, err, .crash (.refused e)⟩
  | (d, none) =>
    let out := destinationLines r ++ if a.json then [printed text] else []
    ⟨d, out, err, .exit (if r.ok then 0 else 1)⟩

/-- A run whose options are settled. -/
def carryOut (r : Registry) (d : Disk) (verbose : Bool) (a : TangleArgs) (options : Options) :
    Outcome :=
  let file := Path.ofString a.file
  let notes := documentNotes r d options file
  match Tangle.runFile r d options options.outputRoot file with
  | (d, .error abort) => (ofAbort d abort).after (logLines verbose notes)
  | (d, .ok report) =>
    (present d a report).after
      (logLines verbose (notes ++ Journal.ofReport d.cwd options.outputRoot report))

/-- The task `tangle`. -/
def tangle (r : Registry) (d : Disk) (verbose : Bool) (a : TangleArgs) : Outcome :=
  if !(namesFile d a.file && namePaths d [a.output, a.config, a.report]) then .quiet d (.usage none)
  else
    match flavorComplaint? r a.flavor with
    | some complaint => .quiet d (.usage (some complaint))
    | none =>
      match resolve d a.config (a.settings d) with
      | .error f => .quiet d (.crash (.settings f))
      | .ok ⟨options, warnings⟩ =>
        match flavorComplaint? r options.flavorId with
        | some complaint => (Outcome.quiet d (.usage (some complaint))).after warnings
        | none =>
          match d.existsAt options.outputRoot with
          | .error e => (Outcome.quiet d (.crash (.refused e))).after warnings
          | .ok _ =>
            if d.isDirectory options.outputRoot then
              (carryOut r d verbose a options).after warnings
            else
              (Outcome.quiet d (.usage (some (missingRoot options.outputRoot)))).after warnings

/-! ## Listings -/

/-- The listing of the fragments of a document. -/
def list (r : Registry) (d : Disk) (verbose : Bool) (file : Path) (options : Options) : Outcome :=
  let pass : Except Abort Pass :=
    match Tangle.flavorFor r options (some file.extension) with
    | .error a => .error a
    | .ok f =>
      match Tangle.readDocument d file with
      | .error a => .error a
      | .ok text => (Pass.ofText r f options.lenient text).mapError .stop
  let log := logLines verbose (documentNotes r d options file)
  match pass with
  | .error a => (ofAbort d a).after log
  | .ok p =>
    let skipped := (p.walk.flatMap (·.faults)).map ("skipped malformed directive: " ++ ·.message)
    ⟨d, (p.describe 0).map printed, log ++ skipped.map printed, .exit 0⟩

/-- The task `fragments`. -/
def fragments (r : Registry) (d : Disk) (verbose : Bool) (a : FragmentsArgs) : Outcome :=
  if !(namesFile d a.file && namePaths d [a.config]) then .quiet d (.usage none)
  else
    match flavorComplaint? r a.flavor with
    | some complaint => .quiet d (.usage (some complaint))
    | none =>
      match resolve d a.config [("flavor", textSetting a.flavor)] with
      | .error f => .quiet d (.crash (.settings f))
      | .ok ⟨options, warnings⟩ =>
        match flavorComplaint? r options.flavorId with
        | some complaint => (Outcome.quiet d (.usage (some complaint))).after warnings
        | none => (list r d verbose (.ofString a.file) options).after warnings

/-- What the program does with a command line. -/
def run (r : Registry) (d : Disk) (args : List String) : Outcome :=
  match parseInvocation args with
  | none => .quiet d (.usage none)
  | some ⟨_, .version⟩ => ⟨d, ["betwixt " ++ version], [], .exit 0⟩
  | some ⟨_, .flavors⟩ => ⟨d, r.flavors.map fun f => printed f.describe, [], .exit 0⟩
  | some ⟨verbose, .tangle a⟩ => tangle r d verbose a
  | some ⟨verbose, .fragments a⟩ => fragments r d verbose a

end Literate.Command
