import Literate.Text.Quoted

/-!
# Document flavors

A flavor says how fragments are fenced in a document, which file extensions announce it and
what a fence with a certain language holds: a document of another flavor.
-/

namespace Literate

/-- A way to write documents. -/
structure Flavor where
  id : String
  fence : String
  extensions : List String
  /-- The flavor of the documents that stand in fences of this one. -/
  nested : Option String
  /-- The language that marks such a fence. -/
  nestedLanguage : String
deriving DecidableEq, Repr

namespace Flavor

/-- The language of a fence that holds a document, unless the flavor names another one. -/
def defaultNestedLanguage : String := "btxt"

/-- Documents with fences of three backquotes, in which other documents can be nested. -/
def github : Flavor where
  id := "github"
  fence := "```"
  extensions := [".md", ".markdown"]
  nested := some "nested"
  nestedLanguage := defaultNestedLanguage

/-- Documents that stand inside other ones, with fences of three single quotes. -/
def inner : Flavor where
  id := "nested"
  fence := "'''"
  extensions := []
  nested := none
  nestedLanguage := defaultNestedLanguage

open Text (quoted) in
/-- How a flavor is shown to someone who looks into the registry. -/
def display (f : Flavor) : String :=
  "MarkdownFlavor(" ++ quoted f.id ++ ", fence=" ++ quoted f.fence ++ ")"

end Flavor

end Literate
