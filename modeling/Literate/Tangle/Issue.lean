import Literate.Plan
import Literate.Writer

/-!
# What a run complains about

Every problem of a run that does not end it is an issue. Malformed directives that were passed over are
warnings, destinations that could not be written are errors, and problems of routing are one or the
other, as the run is strict or not.
-/

namespace Literate

open Text (quoted)

/-- What an issue is about. -/
inductive IssueKind where
  | malformedDirective
  | unresolvedDestination
  | emptyDestination
  | writeFailure
  | outsideRoot
deriving DecidableEq, Repr

def IssueKind.name : IssueKind → String
  | malformedDirective => "directive_syntax"
  | unresolvedDestination => "unresolved_destination"
  | emptyDestination => "empty_declared_destination"
  | writeFailure => "write_failure"
  | outsideRoot => "outside_output_root"

inductive Severity where
  | warning
  | error
deriving DecidableEq, Repr

def Severity.name : Severity → String
  | warning => "warning"
  | error => "error"

/-- One complaint. -/
structure Issue where
  kind : IssueKind
  severity : Severity
  message : String
  destination : Option String
  line : Option Int
deriving DecidableEq, Repr

namespace Issue

/-- The text of an issue that is described by these words. -/
def describeAs (kind severity message : String) (line : Option Int) : String :=
  let place := match line with
    | some n => s!" (line {n})"
    | none => ""
  s!"{severity}: {kind}: {message}{place}"

def describe (i : Issue) : String :=
  describeAs i.kind.name i.severity.name i.message i.line

/-- What is said about a run that failed with these complaints. -/
def failureText (messages : List String) : String :=
  s!"tangle failed with {messages.length} error(s): " ++ "; ".intercalate messages

/-- What is said about a destination that gets nothing. -/
def emptyText (destination : String) : String :=
  "destination " ++ quoted destination ++ " was declared but received no body fragments"

/-- What is said about a destination that leaves the output root. -/
def outsideText (destination : String) (root : Path) : String :=
  "destination " ++ quoted destination ++ s!" resolves outside the output root {root.text}"

def ofFault (fault : Directive.Fault) : Issue where
  kind := .malformedDirective
  severity := .warning
  message := "skipped malformed directive: " ++ fault.reason.message
  destination := none
  line := some fault.span.line

def ofUnrouted (severity : Severity) (f : Fragment) : Issue where
  kind := .unresolvedDestination
  severity
  message := s!"fragment #{f.index} has no destination"
  destination := none
  line := some f.line

def ofEmpty (severity : Severity) (destination : String) : Issue where
  kind := .emptyDestination
  severity
  message := emptyText destination
  destination := some destination
  line := none

def ofOutside (severity : Severity) (root : Path) (destination : String) : Issue where
  kind := .outsideRoot
  severity
  message := outsideText destination root
  destination := some destination
  line := none

def ofWriteFailure (f : WriteFailure) : Issue where
  kind := .writeFailure
  severity := .error
  message := f.message
  destination := some f.destination
  line := none

end Issue

namespace Pass

/-- The malformed directives of a document and of those nested in it. -/
def issues (p : Pass) : List Issue := (p.walk.flatMap (·.faults)).map Issue.ofFault

end Pass

namespace Plan

/-- Whether no operation of the body goes to a destination. -/
def leavesEmpty (p : Plan) (destination : String) : Bool :=
  match p.find? destination with
  | none => true
  | some d => d.bodyCount == 0

/-- The problems of routing: fragments that go nowhere, declared destinations that get nothing, and
destinations that leave the output root, where there is one to leave. -/
def issues (p : Plan) (strict : Bool) (cwd : Location) (root : Option Path) : List Issue :=
  let severity := if strict then Severity.error else .warning
  p.unrouted.map (Issue.ofUnrouted severity) ++
    (p.declared.filter p.leavesEmpty).map (Issue.ofEmpty severity) ++
    match root with
    | none => []
    | some root =>
      ((p.destinations.map (·.destination)).filter (Path.outside cwd root)).map
        (Issue.ofOutside severity root)

/-- Whether some destination, or the root it is to lie below, is no path that a file can have. -/
def unnameable (p : Plan) (root : Path) : Bool :=
  p.destinations.any fun d => root.hasNul || (Path.ofString d.destination).hasNul

/-- What is to be written. -/
def requests (p : Plan) : List WriteRequest :=
  p.destinations.map fun d => ⟨d.destination, d.toWrite⟩

end Plan

end Literate
