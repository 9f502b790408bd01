import Literate.Json
import Literate.Tangle.Basic

/-!
# The machine readable report

What a report tells a program: the destinations in the order of the plan, each with what became of it, then
the issues and what the run amounts to. It is printed as JSON.
-/

namespace Literate

/-- What is told about one destination of the plan. -/
structure DestinationEntry where
  destination : String
  /-- Where it was to be written, if that was tried. -/
  path : Option String
  fragments : Nat
  bodyFragments : Nat
  bytesWritten : Option Nat
  written : Bool
deriving DecidableEq, Repr

/-- What is told about one issue. -/
structure IssueEntry where
  kind : String
  severity : String
  message : String
  destination : Option String
  line : Option Int
deriving DecidableEq, Repr

/-- All that is told about a run. -/
structure Summary where
  destinations : List DestinationEntry
  issues : List IssueEntry
  unrouted : Nat
  dryRun : Bool
  ok : Bool
deriving DecidableEq, Repr

namespace DestinationEntry

def json (e : DestinationEntry) : Json :=
  .object [
    ("destination", .string e.destination),
    ("path", .ofText? e.path),
    ("fragments", .number e.fragments),
    ("body_fragments", .number e.bodyFragments),
    ("bytes_written", .ofNumber? (e.bytesWritten.map fun n => (n : Int))),
    ("written", .bool e.written)]

end DestinationEntry

namespace IssueEntry

def json (e : IssueEntry) : Json :=
  .object [
    ("kind", .string e.kind),
    ("severity", .string e.severity),
    ("message", .string e.message),
    ("destination", .ofText? e.destination),
    ("line", .ofNumber? e.line)]

end IssueEntry

namespace Summary

def json (s : Summary) : Json :=
  .object [
    ("destinations", .list (s.destinations.map (·.json))),
    ("issues", .list (s.issues.map (·.json))),
    ("unrouted", .number s.unrouted),
    ("dry_run", .bool s.dryRun),
    ("ok", .bool s.ok)]

end Summary

namespace Issue

def entry (i : Issue) : IssueEntry :=
  ⟨i.kind.name, i.severity.name, i.message, i.destination, i.line⟩

end Issue

namespace Report

/-- A destination with its result, if it was to be written. -/
def entry (r : Report) (p : DestinationPlan) : DestinationEntry :=
  let result := r.result? p.destination
  { destination := p.destination
    path := result.map (·.path.text)
    fragments := p.operations.length
    bodyFragments := p.bodyCount
    bytesWritten := result.map (·.bytesWritten)
    written := (result.map (·.ok)).getD false }

def summary (r : Report) : Summary where
  destinations := r.plan.destinations.map r.entry
  issues := r.issues.map (·.entry)
  unrouted := r.plan.unrouted.length
  dryRun := r.dryRun
  ok := r.ok

def json (r : Report) : Json := r.summary.json

end Report

end Literate
