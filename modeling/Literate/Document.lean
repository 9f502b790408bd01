import Literate.Flavor.Extent
import Literate.Registry

/-!
# A document with the documents nested in it

`Document.read` scans a text and, wherever a document is nested in it, the nested text as well. Nothing is
judged yet: malformed directives stay where they were found, and so does a nested document whose
flavor nobody knows. Each step of the scanner becomes one piece (`read_eq`).
-/

namespace Literate

/-- What a document consists of. -/
inductive Piece where
  /-- A heading, a directive or a fragment. -/
  | event (e : Event)
  | rejected (fault : Directive.Fault)
  /-- A fence opens on this line and no line closes it: the line is text. -/
  | openFence (line : Int)
  /-- A document of the flavor with the given id, and the line of its fence. -/
  | document (flavorId : String) (line : Int) (pieces : List Piece)
  /-- Something that nothing can be made of, so that processing ends here. -/
  | broken (stop : Stop)
deriving Repr

namespace Document

/-- The pieces of a text. -/
def read (r : Registry) (f : Flavor) (text : String) : List Piece :=
  (f.scan text).attach.map fun ⟨step, _h⟩ =>
    match step with
    | .event (.nested id content place) =>
      match r.named id with
      | .ok inner => .document inner.id place.line (read r inner content)
      | .error b => .broken (.breach b)
    | .event e => .event e
    | .rejected fault => .rejected fault
    | .openFence line => .openFence line
termination_by text.toList.length
decreasing_by exact Flavor.length_lt_of_mem_scan _h

/-- The piece that an event is when it comes by itself. -/
def ofEvent (r : Registry) : Event → Piece
  | .nested id content place =>
    match r.named id with
    | .ok inner => .document inner.id place.line (read r inner content)
    | .error b => .broken (.breach b)
  | e => .event e

/-- The piece that one step of the scanner is. -/
def ofStep (r : Registry) : Step → Piece
  | .event e => ofEvent r e
  | .rejected fault => .rejected fault
  | .openFence line => .openFence line

/-- A text is read step by step. -/
theorem read_eq (r : Registry) (f : Flavor) (text : String) :
    read r f text = (f.scan text).map (ofStep r) := by
  rw [read]
  conv => rhs; rw [← List.attach_map_subtype_val (f.scan text), List.map_map]
  refine List.map_congr_left fun step _ => ?_
  rcases step with ⟨e | fault | line, h⟩
  · cases e <;> rfl
  · rfl
  · rfl

end Document

end Literate
