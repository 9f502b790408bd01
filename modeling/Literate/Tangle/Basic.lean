import Literate.Tangle.Issue
import Literate.Text.Utf8

/-!
# A whole run

A run goes through a document, plans what goes where, looks for problems of routing and, if none of
them is an error and it is no dry run, writes the destinations. What ends a run without a report is
an `Abort`; nothing has been written then, but for destinations that were written before one whose
path no file can have.
-/

namespace Literate

/-- How a run is to be made. -/
structure Options where
  outputRoot : Path
  tagFilter : Option String
  strict : Bool
  flavorId : Option String
  lenient : Bool
  dryRun : Bool
deriving DecidableEq, Repr

namespace Options

def default : Options := ⟨.here, none, false, none, false, false⟩

end Options

/-- Why a document cannot be read. -/
inductive ReadCause where
  | refused (f : Refused)
  | notText (f : Text.Utf8Fault)
deriving DecidableEq, Repr

def ReadCause.message : ReadCause → String
  | refused f => f.message
  | notText f => f.message

/-- Why a run ends without a report. -/
inductive Abort where
  | stop (s : Stop)
  | noFlavor (m : Registry.Missing)
  | unreadable (path : Path) (cause : ReadCause)
  /-- A path that no file can have. -/
  | unnameable
deriving DecidableEq, Repr

/-- What came of a run. -/
structure Report where
  document : Pass
  plan : Plan
  issues : List Issue
  results : List WriteResult
  dryRun : Bool

namespace Report

def errors (r : Report) : List Issue := r.issues.filter (·.severity = .error)

def warnings (r : Report) : List Issue := r.issues.filter (·.severity = .warning)

def ok (r : Report) : Bool := r.errors.isEmpty

/-- What is said if there are errors. -/
def failure? (r : Report) : Option String :=
  if r.errors.isEmpty then none else some (Issue.failureText (r.errors.map (·.message)))

/-- The result of a destination, if it was to be written. -/
def result? (r : Report) (destination : String) : Option WriteResult :=
  r.results.find? (·.destination == destination)

end Report

namespace Tangle

/-- The report of a run before anything is written. -/
def survey (cwd : Location) (options : Options) (p : Pass) : Report :=
  let plan := Plan.ofPass p options.tagFilter
  { document := p
    plan
    issues := p.issues ++ plan.issues options.strict cwd (some options.outputRoot)
    results := []
    dryRun := options.dryRun }

/-- Whether a run goes on to write. -/
def writes (r : Report) : Bool := r.errors.isEmpty && !r.dryRun

/-- Writes what a report announces. -/
def carryOut (d : Disk) (root : Path) (r : Report) (s : Surroundings := .usual) :
    Disk × Except Abort Report :=
  let outcome := d.writeAll root r.plan.requests s
  if outcome.unnameable then (outcome.disk, .error .unnameable)
  else
    let failures := outcome.results.filterMap (·.error)
    (outcome.disk, .ok { r with
      results := outcome.results
      issues := r.issues ++ failures.map Issue.ofWriteFailure })

/-- A run over a text. Destinations are written below `writerRoot`. -/
def runText (registry : Registry) (d : Disk) (f : Flavor) (options : Options) (writerRoot : Path)
    (text : String) (s : Surroundings := .usual) : Disk × Except Abort Report :=
  match Pass.ofText registry f options.lenient text with
  | .error stop => (d, .error (.stop stop))
  | .ok p =>
    let report := survey d.cwd options p
    if report.plan.unnameable options.outputRoot then (d, .error .unnameable)
    else if writes report then carryOut d writerRoot report s
    else (d, .ok report)

/-- The text of a document. -/
def readDocument (d : Disk) (path : Path) : Except Abort String :=
  if path.hasNul then .error .unnameable
  else
    match d.read path with
    | .error e => .error (.unreadable path (.refused ⟨e, path⟩))
    | .ok bytes =>
      match Text.decode bytes with
      | .error f => .error (.unreadable path (.notText f))
      | .ok text => .ok (String.ofList (Text.universalNewlines text.toList))

/-- The flavor of a document, by its options and its path. -/
def flavorFor (registry : Registry) (options : Options) (extension : Option String) :
    Except Abort Flavor :=
  (registry.resolve extension options.flavorId Registry.defaultId).mapError .noFlavor

/-- A run over the document in a file. -/
def runFile (registry : Registry) (d : Disk) (options : Options) (writerRoot path : Path) :
    Disk × Except Abort Report :=
  match flavorFor registry options (some path.extension) with
  | .error a => (d, .error a)
  | .ok f =>
    match readDocument d path with
    | .error a => (d, .error a)
    | .ok text => runText registry d f options writerRoot text

end Tangle

end Literate
