import Literate.Flavor.Scan

/-!
# What a reader of a document sees

A lenient reader sees every event and is told of the malformed directives in between. Any other reader
sees the events before the first malformed directive, and that one is a failure.
-/

namespace Literate

/-- Events, the malformed directives that were passed over, and the one that ended the reading. -/
structure Reading where
  events : List Event
  skipped : List Directive.Fault
  failure : Option Directive.Fault
deriving DecidableEq, Repr

namespace Reading

/-- What a reader sees of some steps. -/
def ofSteps (lenient : Bool) : List Step → Reading
  | [] => ⟨[], [], none⟩
  | .event e :: steps => let r := ofSteps lenient steps; { r with events := e :: r.events }
  | .openFence _ :: steps => ofSteps lenient steps
  | .rejected fault :: steps =>
    if lenient then let r := ofSteps lenient steps; { r with skipped := fault :: r.skipped }
    else ⟨[], [], some fault⟩

/-- What a reader sees of a text. -/
def ofText (f : Flavor) (lenient : Bool) (text : String) : Reading := ofSteps lenient (f.scan text)

theorem skipped_of_fatal (steps : List Step) : (ofSteps false steps).skipped = [] := by
  induction steps with
  | nil => rfl
  | cons s steps ih => cases s <;> simp [ofSteps, ih]

end Reading

end Literate
