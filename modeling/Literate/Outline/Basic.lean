import Literate.Breach
import Literate.Datum
import Literate.Directive.Basic

/-!
# The outline of a document and the properties in it

Every heading opens a section below the nearest open section of a smaller level; what stands before
the first heading belongs to the root. Directives set properties of a section, for all fragments
or for those of one language.

A section is known by its number: sections are numbered in the order in which they are opened, and each
one knows the number of its parent. The *chain* of a section is the section itself, its parent, and so
on to the root. A fragment of a section sees a property as the nearest section of its chain has it;
within one section, a value for the fragment's language counts before one for all languages.
-/

namespace Literate

open Directive (Assignment)

/-- The value of a property. -/
inductive Value where
  | text (s : String)
  | flag (b : Bool)
  | mode (m : Mode)
  | role (r : Role)
  /-- A value that suits no property. -/
  | other (d : Datum)
deriving Repr

namespace Value

/-- The text of a value, for messages. -/
def plain : Value → String
  | text s => s
  | flag b => Datum.flagText b
  | mode m => m.name
  | role r => r.name
  | other d => d.plain

end Value

/-- The value that an assignment gives to its property. -/
def Directive.Assignment.value : Assignment → Value
  | .destination name => .text name
  | .mode m => .mode m
  | .tag name => .text name
  | .ignore b => .flag b
  | .role r => .role r

/-- The value of a property that nothing sets, if it has one. -/
def Property.default : Property → Option Value
  | destination => none
  | mode => some (.mode .append)
  | tag => none
  | ignore => some (.flag false)
  | role => some (.role .body)

/-- Properties and their values. -/
abbrev Properties := Entries Property Value

/-- A section of a document. -/
structure Section where
  level : Int
  title : Option String
  parent : Option Nat
  /-- Properties for fragments of any language. -/
  shared : Properties
  /-- Properties for fragments of one language. -/
  qualified : Entries String Properties
deriving Repr

namespace Section

/-- A section without properties. -/
def opened (level : Int) (title : Option String) (parent : Option Nat) : Section :=
  ⟨level, title, parent, [], []⟩

/-- The section with a property set. -/
def declare (s : Section) (language : Option String) (key : Property) (value : Value) : Section :=
  match language with
  | none => { s with shared := Entries.put key value s.shared }
  | some l =>
    { s with qualified := Entries.update l (fun ps => Entries.put key value (ps.getD [])) s.qualified }

/-- What the section itself says about a property of fragments in the given language. -/
def value? (s : Section) (language : Option String) (key : Property) : Option Value :=
  let own := language.bind fun l => (s.qualified.lookup l).bind fun ps => ps.lookup key
  own.or (s.shared.lookup key)

end Section

/-- The sections of a document, by number. -/
abbrev Outline := List Section

/-- What a fragment is to the rest of the program, as its section has it. -/
structure Config where
  destination : Option String
  mode : Mode
  tag : Option String
  ignore : Bool
  role : Role
deriving DecidableEq, Repr

namespace Outline

/-- The outline that holds the root alone. -/
def root (level : Int) (title : Option String) : Outline := [.opened level title none]

/-- The number of the parent of a section. -/
def parent? (o : Outline) (n : Nat) : Option Nat := o[n]?.bind (·.parent)

/-- The section and the sections around it, inside out. A parent is always opened before its
children, so its number is smaller. -/
def chain (o : Outline) (n : Nat) : List Nat :=
  n :: match o.parent? n with
    | some p => if p < n then chain o p else []
    | none => []
termination_by n

/-- The outline with a property set in one section. -/
def declare (o : Outline) (n : Nat) (language : Option String) (key : Property) (value : Value) :
    Outline :=
  o.modify n (·.declare language key value)

/-- The outline with the assignments of a directive made in one section. -/
def apply (o : Outline) (n : Nat) (d : Directive) : Outline :=
  d.assignments.foldl (fun o a => o.declare n d.language a.property a.value) o

/-- The value of a property for fragments of a section. -/
def resolve (o : Outline) (n : Nat) (language : Option String) (key : Property) : Option Value :=
  ((o.chain n).findSome? fun i => o[i]?.bind (·.value? language key)).or key.default

/-- The titles of the section and of those around it, the root left out, outermost first. -/
def path (o : Outline) (n : Nat) : List String :=
  ((o.chain n).filterMap fun i =>
    o[i]?.bind fun s => if s.parent.isSome then some (s.title.getD "") else none).reverse

/-- The text of a value, or that there is none. -/
def valueText (value : Option Value) : String := (value.map Value.plain).getD "None"

/-- What a fragment of a section is to be taken for. Modes and roles that are no modes and roles are
a breach: a directive cannot set them. -/
def config (o : Outline) (n : Nat) (language : Option String) : Except Breach Config :=
  let mode := o.resolve n language .mode
  let role := o.resolve n language .role
  match mode, role with
  | some (.mode m), some (.role r) =>
    .ok {
      destination := text? (o.resolve n language .destination)
      mode := m
      tag := text? (o.resolve n language .tag)
      ignore := match o.resolve n language .ignore with
        | some (.flag b) => b
        | _ => false
      role := r }
  | mode, role =>
    .error (.because "resolved enum property has the wrong type"
      [("write_mode", valueText mode), ("role", valueText role)])
where
  text? : Option Value → Option String
    | some (.text s) => some s
    | _ => none

/-- The numbers of the sections right below one, in the order in which they were opened. -/
def children (o : Outline) (n : Nat) : List Nat :=
  (List.range o.length).filter fun i => n < i && o.parent? i == some n

theorem mem_children {o : Outline} {n i : Nat} (h : i ∈ o.children n) : n < i ∧ i < o.length := by
  simp only [children, List.mem_filter, List.mem_range, Bool.and_eq_true, decide_eq_true_eq] at h
  exact ⟨h.2.1, h.1⟩

/-- The section and all below it, each section before those below it. -/
def below (o : Outline) (n : Nat) : List Nat :=
  n :: (o.children n).attach.flatMap fun i => below o i.1
termination_by o.length - n
decreasing_by
  have := mem_children i.2
  omega

/-- All sections, each one before those below it. -/
def preorder (o : Outline) : List Nat := o.below 0

end Outline

/-- Why a section cannot be opened. -/
inductive Outline.Refusal where
  /-- A level that no heading has. -/
  | level (b : Breach)
  /-- No open section is of a smaller level, not even the root. -/
  | noOpenSection
deriving DecidableEq, Repr

/-- An outline under construction, with the sections that are open, innermost first. -/
structure OpenOutline where
  outline : Outline
  opened : List Nat
deriving Repr

namespace OpenOutline

/-- Nothing is open but the root. -/
def start (level : Int) (title : Option String) : OpenOutline := ⟨.root level title, [0]⟩

/-- The innermost open section. -/
def current? (b : OpenOutline) : Option Nat := b.opened.head?

/-- The level of a section; there is always one that is asked for. -/
def levelOf (o : Outline) (n : Nat) : Int := (o[n]?.map (·.level)).getD 0

/-- Closes the open sections of this level or a deeper one. -/
def closeTo (b : OpenOutline) (level : Int) : OpenOutline :=
  { b with opened := b.opened.dropWhile fun n => level ≤ levelOf b.outline n }

/-- The outline with one more section, below another one. -/
def addBelow (o : Outline) (n : Nat) (level : Int) (title : Option String) : Outline :=
  o ++ [.opened level title (some n)]

/-- Opens the section of a heading. -/
def enter (b : OpenOutline) (level : Int) (title : Option String) :
    Except Outline.Refusal OpenOutline :=
  if level < 1 then
    .error (.level (.because "heading level must be positive"
      [("level", toString level), ("title", title.getD "None")]))
  else
    let b := b.closeTo level
    match b.opened with
    | [] => .error .noOpenSection
    | n :: _ =>
      .ok ⟨addBelow b.outline n level title, b.outline.length :: b.opened⟩

end OpenOutline

end Literate
