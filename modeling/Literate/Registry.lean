import Literate.Breach
import Literate.Entries
import Literate.Flavor.Basic
import Literate.Text.Lowercase

/-!
# The flavors that are known

Flavors are known by their id and by the file extensions that announce them, in any letter case. The
last flavor that was registered for an id or an extension is the one that counts.
-/

namespace Literate

open Text (lowercase quoted)

/-- The registered flavors, by lower case id and by lower case extension. -/
structure Registry where
  byName : Entries String Flavor
  byExtension : Entries String Flavor
deriving Repr

namespace Registry

def empty : Registry := ⟨[], []⟩

/-- The registry with one more flavor. -/
def register (r : Registry) (f : Flavor) : Registry where
  byName := Entries.put (lowercase f.id) f r.byName
  byExtension := f.extensions.foldl (fun m e => Entries.put (lowercase e) f m) r.byExtension

/-- The registry that every run starts with. -/
def builtin : Registry := (empty.register .github).register .inner

def forName? (r : Registry) (id : String) : Option Flavor := r.byName.lookup (lowercase id)

def forExtension? (r : Registry) (extension : String) : Option Flavor :=
  r.byExtension.lookup (lowercase extension)

/-- The registered flavors in the order of their lower case ids. -/
def flavors (r : Registry) : List Flavor :=
  (r.byName.mergeSort fun a b => a.1 ≤ b.1).map (·.2)

theorem mem_flavors {r : Registry} {f : Flavor} : f ∈ r.flavors ↔ f ∈ r.byName.map (·.2) := by
  simp only [flavors, List.mem_map, List.mem_mergeSort]

/-- The flavor for documents of paths whose extension says nothing. -/
def defaultId : String := "github"

/-- Why no flavor can be told. -/
inductive Missing where
  /-- The id that was asked for is not registered. -/
  | flavor (b : Breach)
  /-- The default id, in lower case, is not registered. -/
  | fallback (id : String)
deriving DecidableEq, Repr

/-- The flavor with the given id. -/
def named (r : Registry) (id : String) : Except Breach Flavor :=
  Breach.require (r.forName? id) "unknown document flavor" [("flavor_id", id)]

/-- The flavor of a document: the one that is asked for, else the one its extension announces, else
the default. -/
def resolve (r : Registry) (extension id : Option String) (fallback : String) :
    Except Missing Flavor :=
  match id with
  | some id => (r.named id).mapError .flavor
  | none =>
    let announced := extension.bind fun e => if e.isEmpty then none else r.forExtension? e
    match announced with
    | some f => .ok f
    | none =>
      match r.byName.lookup (lowercase fallback) with
      | some f => .ok f
      | none => .error (.fallback (lowercase fallback))

end Registry

end Literate
