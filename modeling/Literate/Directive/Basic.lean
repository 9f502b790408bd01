import Literate.Cursor
import Literate.Text.Lowercase
import Literate.Text.Quoted

/-!
# Directives

A directive is a remark inside a document that sets properties for the fragments around it and
may carry fragments of its own:

* properties are set by *assignments*, each with a value of the type its property has;
* fragments are carried as *payloads*, of which `pre` and `post` have a role of their own.

Both keep the order in which they are written. Every reason for which a directive is malformed is
a constructor of `Directive.Reason`.
-/

namespace Literate

open Text (quoted)

/-- What a fragment does to what its destination holds already. -/
inductive Mode where
  | append
  | overwrite
deriving DecidableEq, Repr

/-- The part of a destination that a fragment belongs to. -/
inductive Role where
  | before
  | body
  | after
deriving DecidableEq, Repr

/-- The properties that a directive can set. -/
inductive Property where
  | destination
  | mode
  | tag
  | ignore
  | role
deriving DecidableEq, Repr

namespace Mode

def name : Mode → String
  | append => "append"
  | overwrite => "overwrite"

def ofName? (s : String) : Option Mode := [append, overwrite].find? (·.name == s)

@[simp] theorem ofName?_name (m : Mode) : ofName? m.name = some m := by cases m <;> decide

end Mode

namespace Role

def name : Role → String
  | before => "prefix"
  | body => "body"
  | after => "postfix"

def ofName? (s : String) : Option Role := [before, body, after].find? (·.name == s)

/-- Position of a role in its destination. -/
def rank : Role → Nat
  | before => 0
  | body => 1
  | after => 2

@[simp] theorem ofName?_name (r : Role) : ofName? r.name = some r := by cases r <;> decide

end Role

namespace Property

/-- All properties. -/
def all : List Property := [destination, mode, tag, ignore, role]

/-- The name under which a property is listed. -/
def name : Property → String
  | destination => "destination"
  | mode => "writeMode"
  | tag => "tag"
  | ignore => "ignore"
  | role => "role"

def ofName? (s : String) : Option Property := all.find? (·.name == s)

@[simp] theorem ofName?_name (p : Property) : ofName? p.name = some p := by cases p <;> decide

end Property

/-- The kinds of payload. -/
inductive PayloadKind where
  | pre
  | code
  | post
deriving DecidableEq, Repr

namespace PayloadKind

/-- The role that the kind forces on its fragment; `code` leaves it to the properties. -/
def role? : PayloadKind → Option Role
  | pre => some .before
  | code => none
  | post => some .after

end PayloadKind

namespace Directive

/-- The words that can stand before the equals sign of an item. -/
inductive Key where
  | property (p : Property)
  | payload (k : PayloadKind)
deriving DecidableEq, Repr

namespace Key

def name : Key → String
  | property .destination => "filename"
  | property .mode => "mode"
  | property .tag => "tag"
  | property .ignore => "ignore"
  | property .role => "role"
  | payload .pre => "pre"
  | payload .code => "code"
  | payload .post => "post"

/-- All keys. -/
def all : List Key :=
  Property.all.map property ++ [payload .pre, payload .code, payload .post]

def ofName? (s : String) : Option Key := all.find? (·.name == s)

@[simp] theorem ofName?_name (k : Key) : ofName? k.name = some k := by
  rcases k with p | p <;> cases p <;> decide

theorem name_of_ofName? {s : String} {k : Key} (h : ofName? s = some k) : k.name = s := by
  have := List.find?_some h
  simpa using this

end Key

/-- Why a directive is malformed. -/
inductive Reason where
  | noOpener
  | emptyQualifier
  | badQualifier (word : String)
  | openRaw (key : String)
  | openString (key : String)
  | openDirective
  | noAssignment
  | unknownKey (word : String)
  | duplicateKey (key : String)
  | noEquals (key : String)
  | noSpaceAfter (key : String)
  | unquoted (key : String)
  | badIgnore
  | emptyDestination
  | unknownMode (word : String)
  | unknownRole (word : String)
deriving DecidableEq, Repr

/-- The wording of a reason. -/
def Reason.message : Reason → String
  | noOpener => "no directive opener"
  | emptyQualifier => "empty language qualifier"
  | badQualifier word => "invalid language qualifier " ++ quoted word
  | openRaw key => "unterminated raw string for " ++ quoted key
  | openString key => "unterminated string for " ++ quoted key
  | openDirective => "unterminated directive"
  | noAssignment => "expected key=value assignment"
  | unknownKey word => "unknown key " ++ quoted word
  | duplicateKey key => "duplicate key " ++ quoted key
  | noEquals key => "expected '=' after " ++ quoted key
  | noSpaceAfter key => "expected whitespace after value for " ++ quoted key
  | unquoted key => "value for " ++ quoted key ++ " must be quoted"
  | badIgnore => "'ignore' takes a bare true or false"
  | emptyDestination => "empty filename"
  | unknownMode word => "unknown mode " ++ quoted word
  | unknownRole word => "unknown role " ++ quoted word

/-- A malformed directive: why, where, and the characters that are at fault. -/
structure Fault where
  reason : Reason
  span : Span
  text : String
deriving DecidableEq, Repr

/-- How a message about a span of a document reads. -/
def locate (message : String) (span : Span) : String := s!"{message} ({span.describe})"

namespace Fault

def message (f : Fault) : String := locate f.reason.message f.span

end Fault

/-- One property set to one value. -/
inductive Assignment where
  | destination (name : String)
  | mode (m : Mode)
  | tag (name : String)
  | ignore (flag : Bool)
  | role (r : Role)
deriving DecidableEq, Repr

/-- The property that an assignment sets. -/
def Assignment.property : Assignment → Property
  | destination _ => .destination
  | mode _ => .mode
  | tag _ => .tag
  | ignore _ => .ignore
  | role _ => .role

/-- A fragment written inside a directive, with the span of its literal. -/
structure Payload where
  kind : PayloadKind
  content : String
  span : Span
deriving DecidableEq, Repr

/-- What stands between two blanks of a directive. -/
inductive Item where
  | assignment (a : Assignment)
  | payload (p : Payload)
deriving DecidableEq, Repr

namespace Item

def key : Item → Key
  | assignment a => .property a.property
  | payload p => .payload p.kind

def assignment? : Item → Option Assignment
  | assignment a => some a
  | payload _ => none

def payload? : Item → Option Payload
  | assignment _ => none
  | payload p => some p

end Item

end Directive

/-- A well formed directive. -/
structure Directive where
  language : Option String
  assignments : List Directive.Assignment
  payloads : List Directive.Payload
  span : Span
deriving DecidableEq, Repr

namespace Directive

/-- The payloads in the order in which they become fragments: `pre`, `code`, `post`. -/
def orderedPayloads (d : Directive) : List Payload :=
  [PayloadKind.pre, .code, .post].flatMap fun k => d.payloads.filter (·.kind = k)

/-- The destination that the directive sets, the last one if there are several. -/
def destination? (d : Directive) : Option String :=
  d.assignments.foldl
    (fun found a => match a with | .destination name => some name | _ => found) none

end Directive

end Literate
