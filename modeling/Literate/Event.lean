import Literate.Breach
import Literate.Directive.Reader

/-!
# Structural events

What a document is to the rest of the program: a stream of headings, directives, fragments and
nested documents, each with the place at which it starts. A `Reading` is such a stream together with the
malformed directives that were passed over and, if reading broke off, the reason.
-/

namespace Literate

/-- One structural element of a document. -/
inductive Event where
  /-- Closes the open sections of the same or a deeper level and opens a new one. -/
  | heading (level : Int) (title : Option String) (place : Position)
  | directive (d : Directive) (place : Position)
  | fragment (language : Option String) (content : String) (place : Position)
  /-- The content is a document of its own, of the flavor with the given id. -/
  | nested (flavorId : String) (content : String) (place : Position)
deriving DecidableEq, Repr

namespace Event

def place : Event → Position
  | heading _ _ p => p
  | directive _ p => p
  | fragment _ _ p => p
  | nested _ _ p => p

end Event

/-- Why no more of a document can be processed. -/
inductive Stop where
  | malformed (fault : Directive.Fault)
  | breach (b : Breach)
  | noOpenSection
deriving DecidableEq, Repr

end Literate
