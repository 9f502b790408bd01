import Literate.Document
import Literate.Outline.Basic

/-!
# Going through a document

A pass goes through the pieces of a document in order, with the outline as built so far. Headings open
sections, directives set properties of the current section, and every fence and payload becomes a
fragment, configured by the properties as they are at that point. A nested document gets a pass of its
own with an outline of its own.

A malformed directive ends the pass, unless the pass is lenient: then it is recorded and the
pass goes on.
-/

namespace Literate

/-- Where a fragment was written. -/
inductive Origin where
  | fence
  | payload
deriving DecidableEq, Repr

def Origin.name : Origin → String
  | fence => "fence"
  | payload => "payload"

/-- A piece of code with its resolved configuration. -/
structure Fragment where
  /-- Number of the fragment in its document. -/
  index : Int
  language : Option String
  content : String
  /-- Number of its section. -/
  node : Nat
  config : Config
  line : Int
  origin : Origin
deriving Repr

/-- The bytes that a fragment contributes. -/
def Fragment.bytes (f : Fragment) : ByteArray := f.content.toUTF8

/-- Everything that going through a document produced. -/
structure Pass where
  flavorId : String
  outline : Outline
  fragments : List Fragment
  /-- The destinations that directives name, each one once. -/
  declared : List String
  /-- The malformed directives that were passed over. -/
  faults : List Directive.Fault
  /-- The passes of the nested documents. -/
  nested : List Pass
deriving Repr

namespace Pass

mutual

/-- The pass and all passes below it, each one before those below it. -/
def walk (p : Pass) : List Pass :=
  match p with
  | ⟨flavorId, outline, fragments, declared, faults, nested⟩ =>
    ⟨flavorId, outline, fragments, declared, faults, nested⟩ :: walkAll nested

/-- The passes of a list and all below them. -/
def walkAll : List Pass → List Pass
  | [] => []
  | p :: ps => p.walk ++ walkAll ps

end

end Pass

/-- A pass under way. -/
structure Traversal where
  outline : OpenOutline
  fragments : List Fragment
  declared : List String
  faults : List Directive.Fault
  nested : List Pass
deriving Repr

namespace Traversal

/-- Nothing has been seen yet. -/
def start : Traversal := ⟨.start 0 none, [], [], [], []⟩

/-- The pass, once all is seen. -/
def finish (t : Traversal) (flavorId : String) : Pass :=
  ⟨flavorId, t.outline.outline, t.fragments, t.declared, t.faults, t.nested⟩

/-- One more fragment, in the current section. A role that is given counts before the section's. -/
def emit (t : Traversal) (language : Option String) (content : String) (line : Int)
    (origin : Origin) (role : Option Role) : Except Stop Traversal :=
  match t.outline.current? with
  | none => .error .noOpenSection
  | some n =>
    match t.outline.outline.config n language with
    | .error b => .error (.breach b)
    | .ok config =>
      let fragment : Fragment :=
        ⟨t.fragments.length, language, content, n, { config with role := role.getD config.role },
          line, origin⟩
      .ok { t with fragments := t.fragments ++ [fragment] }

/-- A payload becomes a fragment. -/
def emitPayload (language : Option String) (t : Traversal) (p : Directive.Payload) :
    Except Stop Traversal :=
  t.emit language p.content p.span.line .payload p.kind.role?

/-- A list of destinations with one more, unless it is there. -/
def declare (declared : List String) (destination : Option String) : List String :=
  match destination with
  | some d => if declared.contains d then declared else declared ++ [d]
  | none => declared

/-- A directive sets properties of the current section and then contributes its payloads. -/
def direct (t : Traversal) (d : Directive) : Except Stop Traversal :=
  match t.outline.current? with
  | none => .error .noOpenSection
  | some n =>
    let t := { t with
      outline := { t.outline with outline := t.outline.outline.apply n d }
      declared := declare t.declared d.destination? }
    d.orderedPayloads.foldlM (emitPayload d.language) t

/-- A heading opens a section. -/
def enter (t : Traversal) (level : Int) (title : Option String) : Except Stop Traversal :=
  match t.outline.enter level title with
  | .ok outline => .ok { t with outline }
  | .error (.level b) => .error (.breach b)
  | .error .noOpenSection => .error .noOpenSection

mutual

/-- The traversal after one more piece. -/
def step (lenient : Bool) (t : Traversal) : Piece → Except Stop Traversal
  | .event (.heading level title _) => t.enter level title
  | .event (.directive d _) => t.direct d
  | .event (.fragment language content place) => t.emit language content place.line .fence none
  | .event (.nested ..) => .ok t
  | .rejected fault =>
    if lenient then .ok { t with faults := t.faults ++ [fault] } else .error (.malformed fault)
  | .openFence _ => .ok t
  | .document flavorId _ pieces =>
    match run lenient start pieces with
    | .ok inner => .ok { t with nested := t.nested ++ [inner.finish flavorId] }
    | .error stop => .error stop
  | .broken stop => .error stop

/-- The traversal after all pieces. -/
def run (lenient : Bool) (t : Traversal) : List Piece → Except Stop Traversal
  | [] => .ok t
  | p :: ps =>
    match step lenient t p with
    | .ok t => run lenient t ps
    | .error stop => .error stop

end

end Traversal

namespace Pass

/-- The pass through the pieces of a document. -/
def ofPieces (flavorId : String) (lenient : Bool) (pieces : List Piece) : Except Stop Pass :=
  (Traversal.run lenient .start pieces).map (·.finish flavorId)

/-- The pass through a text. -/
def ofText (r : Registry) (f : Flavor) (lenient : Bool) (text : String) : Except Stop Pass :=
  ofPieces f.id lenient (Document.read r f text)

end Pass

end Literate
