import Literate.Cursor

/-!
# Places behind a text

A cursor carries the text that follows it. A position does not, so where a text leads from a
position is computed from the text alone: its length and its newlines. The two agree
(`position_advance`), which is what lets a document be described without a cursor.
-/

namespace Literate

namespace Position

/-- The position of the first character of a document. -/
def start : Position := ⟨0, 1⟩

/-- The position behind a text that starts here. -/
def after (p : Position) (cs : List Char) : Position :=
  ⟨p.offset + cs.length, p.line + cs.count '\n'⟩

/-- The span of a text that starts here. -/
def span (p : Position) (cs : List Char) : Span := ⟨p.offset, p.offset + cs.length, p.line⟩

theorem after_append (p : Position) (xs ys : List Char) :
    p.after (xs ++ ys) = (p.after xs).after ys := by
  simp only [after, List.length_append, List.count_append, Position.mk.injEq]
  omega

end Position

namespace Cursor

@[simp] theorem position_ofText (text : List Char) : (ofText text).position = .start := rfl

/-- A cursor that moves over a text comes to the position behind it. -/
theorem position_advance {c : Cursor} {cs rest : List Char} (h : c.rest = cs ++ rest) :
    (c.advance cs.length).position = c.position.after cs := by
  simp [advance, position, Position.after, h]

theorem rest_advance_append {c : Cursor} {cs rest : List Char} (h : c.rest = cs ++ rest) :
    (c.advance cs.length).rest = rest := by
  simp [h]

theorem ahead_append {c : Cursor} {cs rest : List Char} (h : c.rest = cs ++ rest) :
    c.ahead cs.length = String.ofList cs := by
  simp [ahead, h]

theorem span_eq (c : Cursor) (cs : List Char) : c.span cs.length = c.position.span cs := rfl

end Cursor

end Literate
