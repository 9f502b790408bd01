import Literate.Directive.Reader
import Literate.Proofs.Place
import Mathlib.Data.List.Forall2

/-!
# The grammar of directives

What a directive looks like and what it says, without a reader. A `Written` directive is its parts
in the order in which they stand, and `Written.chars` puts them together. `Written.Accepted` tells
which ones are well formed and what each of their items sets or carries (`Setting`), and
`Written.directive` is the directive that this makes at a position.

The lexical conditions (`Value.Closed`) do not look at the names, so they also describe items that
are rejected for what they mean.
-/

namespace Literate.Directive

open Text (isBlank)

/-- Whether the closer, if there is one to look for, stands nowhere in the text. -/
def Avoids (m : Option Marker) (cs : List Char) : Prop := ∀ k ∈ m, ¬ k.closer <:+: cs

/-- The source of a quoted literal, between its quotes, and the text that it denotes. A backslash
escapes the quote and the backslash; before anything else it stands for itself. -/
inductive Quotes (quote : Char) : List Char → List Char → Prop where
  | nil : Quotes quote [] []
  | escaped {e : Char} {source text : List Char} : e = quote ∨ e = '\\' →
      Quotes quote source text → Quotes quote ('\\' :: e :: source) (e :: text)
  | backslash {c : Char} {source text : List Char} : c ≠ quote → c ≠ '\\' →
      Quotes quote (c :: source) text → Quotes quote ('\\' :: c :: source) ('\\' :: text)
  | plain {c : Char} {source text : List Char} : c ≠ quote → c ≠ '\\' →
      Quotes quote source text → Quotes quote (c :: source) (c :: text)

/-- What an item says, apart from where it stands. -/
inductive Setting where
  | assignment (a : Assignment)
  | payload (kind : PayloadKind) (content : String)
deriving DecidableEq

namespace Setting

/-- The key under which a setting is written. -/
def key : Setting → Key
  | assignment a => .property a.property
  | payload kind _ => .payload kind

/-- The item that a setting is when its value has this span. -/
def item (span : Span) : Setting → Directive.Item
  | assignment a => .assignment a
  | payload kind content => .payload ⟨kind, content, span⟩

@[simp] theorem key_item (span : Span) (s : Setting) : (s.item span).key = s.key := by
  cases s <;> rfl

end Setting

/-- Whether a word is a name whose letters may be in the other case. -/
def SpelledAs (word : List Char) (name : String) : Prop := word.map Char.toLower = name.toList

namespace Written

/-- A value as it stands in the text. -/
inductive Value where
  | raw (text : List Char)
  | quoted (quote : Char) (source : List Char)
  | word (cs : List Char)
deriving DecidableEq

namespace Value

def chars : Value → List Char
  | raw text => bars ++ text ++ bars
  | quoted quote source => quote :: source ++ [quote]
  | word cs => cs

/-- Whether a value ends where it seems to: the bars that close a raw literal are the first ones
behind the bars that open it, a quote is closed before the closer comes, and nothing in a word
opens a literal or ends the word. -/
def Closed (m : Option Marker) : Value → Prop
  | raw text => ¬ bars <:+: text ++ ['|', '|']
  | quoted quote source => isQuote quote ∧ (∃ text, Quotes quote source text) ∧ Avoids m source
  | word cs => (∀ c ∈ cs, isBlank c = false ∧ isQuote c = false) ∧ ¬ bars <:+: cs ∧ Avoids m cs

/-- The text that a literal denotes. A bare word denotes none. -/
def Denotes (text : List Char) : Value → Prop
  | raw cs => cs = text
  | quoted quote source => Quotes quote source text
  | word _ => False

/-- What a value says under the key of the setting. -/
inductive Means (v : Value) : Setting → Prop where
  | on : v = word "true".toList → Means v (.assignment (.ignore true))
  | off : v = word "false".toList → Means v (.assignment (.ignore false))
  | destination {text : List Char} : v.Denotes text → text ≠ [] →
      Means v (.assignment (.destination (String.ofList text)))
  | mode {text : List Char} {mode : Mode} : v.Denotes text → SpelledAs text mode.name →
      Means v (.assignment (.mode mode))
  | role {text : List Char} {role : Role} : v.Denotes text → SpelledAs text role.name →
      Means v (.assignment (.role role))
  | tag {text : List Char} : v.Denotes text → Means v (.assignment (.tag (String.ofList text)))
  | payload {text : List Char} {kind : PayloadKind} : v.Denotes text →
      Means v (.payload kind (String.ofList text))

end Value

/-- `name=value`, with the blanks before it. -/
structure Item where
  blanks : List Char
  name : List Char
  value : Value
deriving DecidableEq

namespace Item

/-- What stands before the value. -/
def lead (i : Item) : List Char := i.blanks ++ i.name ++ ['=']

def chars (i : Item) : List Char := i.lead ++ i.value.chars

/-- A well formed item and what it says. -/
structure Accepted (m : Option Marker) (i : Item) (s : Setting) : Prop where
  blanks_ne_nil : i.blanks ≠ []
  blank_of_mem : ∀ c ∈ i.blanks, isBlank c = true
  name_eq : i.name = s.key.name.toList
  closed : i.value.Closed m
  means : i.value.Means s

end Item

/-- The characters of some items. -/
def itemsChars (items : List Item) : List Char := items.flatMap Item.chars

/-- What some items that start at a position say, with the spans of their values. -/
def itemsAt (p : Position) : List Item → List Setting → List Directive.Item
  | i :: items, s :: settings =>
    s.item ((p.after i.lead).span i.value.chars) :: itemsAt (p.after i.chars) items settings
  | _, _ => []

end Written

/-- A directive as it stands in the text. -/
structure Written where
  marker : Marker
  qualifier : Option (List Char)
  items : List Written.Item
  /-- The blanks before the closer. -/
  blanks : List Char
deriving DecidableEq

namespace Written

/-- What stands between the opener and the first item. -/
def qualifierChars : Option (List Char) → List Char
  | some q => '+' :: q
  | none => []

/-- What stands before the items. -/
def lead (w : Written) : List Char := w.marker.opener ++ qualifierChars w.qualifier

def chars (w : Written) : List Char :=
  w.lead ++ itemsChars w.items ++ w.blanks ++ w.marker.closer

/-- A well formed directive and what its items say. -/
structure Accepted (w : Written) (settings : List Setting) : Prop where
  qualifier_ne_nil : ∀ q ∈ w.qualifier, q ≠ []
  qualifier_chars : ∀ q ∈ w.qualifier, ∀ c ∈ q, isQualifierChar c = true
  items : List.Forall₂ (Item.Accepted (some w.marker)) w.items settings
  nodup : (settings.map Setting.key).Nodup
  blanks : ∀ c ∈ w.blanks, isBlank c = true

/-- The directive that stands at a position, given what its items say. -/
def directive (w : Written) (settings : List Setting) (p : Position) : Directive :=
  let items := itemsAt (p.after w.lead) w.items settings
  ⟨w.qualifier.map String.ofList, items.filterMap Directive.Item.assignment?,
    items.filterMap Directive.Item.payload?, p.span w.chars⟩

end Written

end Literate.Directive
