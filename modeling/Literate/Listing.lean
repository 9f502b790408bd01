import Literate.Pass

/-!
# Listings

What is printed about the fragments of a document and about the flavors that are known.
-/

namespace Literate

/-- A text, or a dash for none and for an empty one. -/
def orDash (s : Option String) : String :=
  match s with
  | none => "-"
  | some s => if s.isEmpty then "-" else s

namespace Fragment

/-- The line about a fragment, given the titles of the sections that it stands in. -/
def describe (f : Fragment) (path : List String) : String :=
  let c := f.config
  let titles := " > ".intercalate path
  let heading := if titles.isEmpty then "<root>" else titles
  s!"#{f.index} line {f.line} {heading}: " ++
    s!"language={orDash f.language} destination={orDash c.destination} " ++
    s!"mode={c.mode.name} role={c.role.name} tag={orDash c.tag} ignore={c.ignore} " ++
    s!"origin={f.origin.name}"

end Fragment

namespace Pass

mutual

/-- The lines about a document and those nested in it, two more blanks in front for each level. -/
def describe (depth : Nat) : Pass → List String
  | ⟨flavorId, outline, fragments, _, _, nested⟩ =>
    let indent := String.ofList (List.replicate (2 * depth) ' ')
    (indent ++ "[" ++ flavorId ++ "]") ::
      fragments.map (fun f => indent ++ f.describe (outline.path f.node)) ++
      describeAll (depth + 1) nested

/-- The lines about several documents. -/
def describeAll (depth : Nat) : List Pass → List String
  | [] => []
  | p :: ps => describe depth p ++ describeAll depth ps

end

end Pass

namespace Flavor

/-- The line about a flavor. -/
def describe (f : Flavor) : String :=
  let extensions := if f.extensions.isEmpty then "-" else ", ".intercalate f.extensions
  s!"{f.id}: extensions={orDash (some extensions)} nested={orDash f.nested}"

end Flavor

end Literate
