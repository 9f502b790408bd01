/-!
# Places in a text

A `Cursor` is a place in a text together with the characters that follow it. Offsets and line
numbers are integers: a text may be a piece cut out of a larger one, and then they count from
where the caller says it starts. Every position and every span that the library reports is taken
from a cursor, so it cannot disagree with the text.
-/

namespace Literate

/-- A stretch of a text: the offset of its first character, the offset just after its last one,
and the line its first character is on. -/
structure Span where
  start : Int
  stop : Int
  line : Int
deriving DecidableEq, Repr

namespace Span

/-- How messages name a span. -/
def describe (s : Span) : String := s!"line {s.line}, chars {s.start}-{s.stop}"

end Span

/-- A position in a text. -/
structure Position where
  offset : Int
  line : Int
deriving DecidableEq, Repr

/-- A place in a text and what follows it. -/
structure Cursor where
  offset : Int
  line : Int
  rest : List Char
deriving DecidableEq, Repr

namespace Cursor

/-- The first place of a text. -/
def ofText (text : List Char) : Cursor := ⟨0, 1, text⟩

/-- The place `n` characters further on. -/
def advance (c : Cursor) (n : Nat) : Cursor where
  offset := c.offset + n
  line := c.line + (c.rest.take n).count '\n'
  rest := c.rest.drop n

/-- The next `n` characters. -/
def ahead (c : Cursor) (n : Nat) : String := String.ofList (c.rest.take n)

/-- The span of the next `n` characters. -/
def span (c : Cursor) (n : Nat) : Span := ⟨c.offset, c.offset + n, c.line⟩

/-- Where the cursor stands. -/
def position (c : Cursor) : Position := ⟨c.offset, c.line⟩

@[simp] theorem rest_advance (c : Cursor) (n : Nat) : (c.advance n).rest = c.rest.drop n := rfl

@[simp] theorem advance_zero (c : Cursor) : c.advance 0 = c := by
  cases c; simp [advance]

theorem length_rest_advance (c : Cursor) (n : Nat) :
    (c.advance n).rest.length = c.rest.length - n := by simp

/-- Two moves make one. -/
theorem advance_advance (c : Cursor) (m n : Nat) :
    (c.advance m).advance n = c.advance (m + n) := by
  have ht : (c.rest.take (m + n)).count '\n' =
      (c.rest.take m).count '\n' + ((c.rest.drop m).take n).count '\n' := by
    rw [List.take_add, List.count_append]
  simp only [advance, List.drop_drop, ht, Cursor.mk.injEq, and_true]
  omega

end Cursor

end Literate
