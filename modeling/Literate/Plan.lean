import Literate.Pass
import Literate.Replay

/-!
# Which fragments go where

A plan has one entry per destination, in the order in which the destinations first get a fragment. The
operations of a destination are its fragments, those that come before the body first and those that
come after it last, each part in document order. A nested document's fragments come after those of
the document around it, before they are parted.
-/

namespace Literate

/-- One fragment on its way to a destination. -/
structure PlannedOperation where
  operation : Operation
  role : Role
  /-- Number of the fragment in its document. -/
  index : Int

/-- What is written to one destination. -/
structure DestinationPlan where
  destination : String
  operations : List PlannedOperation

namespace DestinationPlan

/-- How many operations belong to the body. -/
def bodyCount (p : DestinationPlan) : Nat := p.operations.countP (·.role = .body)

/-- The operations as such. -/
def toWrite (p : DestinationPlan) : List Operation := p.operations.map (·.operation)

/-- What the destination holds in the end, given what it holds now. -/
def finalBytes (p : DestinationPlan) (existing : ByteArray) : ByteArray :=
  Operation.replay existing p.toWrite

end DestinationPlan

/-- What a run is about to write, and which fragments go nowhere. -/
structure Plan where
  destinations : List DestinationPlan
  unrouted : List Fragment
  declared : List String

namespace Plan

/-- Whether a fragment takes part in a run. An empty tag filter is none. -/
def keeps (filter : Option String) (f : Fragment) : Bool :=
  !f.config.ignore &&
    match filter with
    | none => true
    | some tag => tag.isEmpty || f.config.tag == some tag

/-- The fragments of one role. -/
def ofRole (fragments : List Fragment) (role : Role) : List Fragment :=
  fragments.filter (·.config.role = role)

/-- The fragments of a destination in the order in which they are written. -/
def arranged (fragments : List Fragment) : List Fragment :=
  ofRole fragments .before ++ ofRole fragments .body ++ ofRole fragments .after

/-- The operation that a fragment is. -/
def operationOf (f : Fragment) : PlannedOperation :=
  ⟨⟨f.bytes, f.config.mode⟩, f.config.role, f.index⟩

/-- The texts of a list, each one once, in the order of their first occurrences. -/
def distinct (names : List String) : List String :=
  names.foldl (fun seen d => if seen.contains d then seen else seen ++ [d]) []

/-- The plan for one destination. -/
def forDestination (fragments : List Fragment) (destination : String) : DestinationPlan :=
  ⟨destination,
    (arranged (fragments.filter (·.config.destination == some destination))).map operationOf⟩

/-- The plan for some fragments. -/
def ofFragments (fragments : List Fragment) (filter : Option String) (declared : List String) :
    Plan :=
  let kept := fragments.filter (keeps filter)
  { destinations :=
      (distinct (kept.filterMap (·.config.destination))).map (forDestination kept)
    unrouted := kept.filter (·.config.destination.isNone)
    declared }

/-- The plan for a document and the documents nested in it. -/
def ofPass (p : Pass) (filter : Option String) : Plan :=
  ofFragments (p.walk.flatMap (·.fragments)) filter (distinct (p.walk.flatMap (·.declared)))

/-- The plan for a destination that has one. -/
def find? (p : Plan) (destination : String) : Option DestinationPlan :=
  p.destinations.find? (·.destination == destination)

end Plan

end Literate
