import Literate.Tangle.Basic

/-!
# What a run notes on its way

With a journal, a run says what it comes across: directives, sections, nested documents, fences that are
never closed, how many fragments a destination gets, and what became of it. The notes follow from the
pieces of the document and from the report; taking them changes nothing.
-/

namespace Literate

open Text (quoted)

/-- One entry of the journal. -/
inductive Note where
  | directive (line : Int) (language : Option String) (properties : List Property)
  | nestedDocument (flavorId : String) (line : Int)
  | opened (path : List String) (depth : Nat)
  | openFence (line : Int)
  | destination (name : String) (fragments : Nat)
  | notWriting (errors : Nat)
  | outside (destination : String) (root : Path)
  | notWritten (path : Path) (cause : Refused)
  | written (bytes : Nat) (path : Path)

namespace Note

/-- Quoted texts in brackets. -/
def bracketed (names : List String) : String := "[" ++ ", ".intercalate (names.map quoted) ++ "]"

/-- Quoted texts in parentheses; a single one is followed by a comma. -/
def parenthesized (names : List String) : String :=
  match names with
  | [name] => "(" ++ quoted name ++ ",)"
  | _ => "(" ++ ", ".intercalate (names.map quoted) ++ ")"

def text : Note → String
  | directive line language properties =>
    s!"directive at line {line}: language=" ++ language.getD "None" ++ " keys=" ++
      bracketed (properties.map (·.name))
  | nestedDocument flavorId line => s!"nested {flavorId} document at line {line}"
  | opened path depth => s!"scope {parenthesized path} opened at depth {depth}"
  | openFence line => s!"unterminated fence at line {line} treated as text"
  | destination name fragments => s!"destination {name}: {fragments} fragment(s)"
  | notWriting errors => s!"not writing: {errors} error(s) collected"
  | outside name root => s!"destination {name} is outside {root.text}"
  | notWritten path cause => s!"write to {path.text} failed: {cause.message}"
  | written bytes path => s!"wrote {bytes} byte(s) to {path.text}"

/-- How a note is logged. -/
def logged (n : Note) : String := "DEBUG: " ++ n.text

end Note

namespace Journal

mutual

/-- The notes on one piece, and the outline after it unless processing ends there. -/
def ofPiece (lenient : Bool) (o : OpenOutline) : Piece → List Note × Option OpenOutline
  | .event (.heading level title _) =>
    match o.enter level title with
    | .error _ => ([], none)
    | .ok o =>
      let path := (o.current?.map o.outline.path).getD []
      ([.opened path (o.opened.length - 1)], some o)
  | .event (.directive d _) =>
    ([.directive d.span.line d.language (d.assignments.map (·.property))], some o)
  | .event _ => ([], some o)
  | .rejected _ => ([], if lenient then some o else none)
  | .openFence line => ([.openFence line], some o)
  | .document flavorId line pieces =>
    let inner := ofPieces lenient (.start 0 none) pieces
    (.nestedDocument flavorId line :: inner.1, if inner.2 then some o else none)
  | .broken _ => ([], none)

/-- The notes on pieces, and whether all of them were processed. -/
def ofPieces (lenient : Bool) (o : OpenOutline) : List Piece → List Note × Bool
  | [] => ([], true)
  | p :: ps =>
    match ofPiece lenient o p with
    | (notes, none) => (notes, false)
    | (notes, some o) =>
      let rest := ofPieces lenient o ps
      (notes ++ rest.1, rest.2)

end

/-- The notes on going through a document. -/
def ofDocument (lenient : Bool) (pieces : List Piece) : List Note :=
  (ofPieces lenient (.start 0 none) pieces).1

/-- The notes on a plan. -/
def ofPlan (p : Plan) : List Note :=
  p.destinations.map fun d => .destination d.destination d.operations.length

/-- The notes on writing one destination. -/
def ofResult (cwd : Location) (root : Path) (r : WriteResult) : List Note :=
  (if Path.outside cwd root r.destination then [.outside r.destination root] else []) ++
    match r.error with
    | some failure => [.notWritten r.path failure.cause]
    | none => [.written r.bytesWritten r.path]

/-- The notes on a run that came to its end. A run that reports errors without results did not
write. -/
def ofReport (cwd : Location) (root : Path) (r : Report) : List Note :=
  let stopped := (r.errors.filter (·.kind ≠ .writeFailure)).length
  ofPlan r.plan ++ (if 0 < stopped then [.notWriting stopped] else []) ++
    r.results.flatMap (ofResult cwd root)

end Journal

end Literate
