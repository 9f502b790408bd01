import Literate.Decimal.Shortest
import Literate.Entries
import Literate.Moment
import Literate.Text.Quoted

/-!
# Settings values

A settings file is loosely typed: any key can hold any kind of value. `Datum` is such a value, and
`Datum.text` the text it stands for where a text is wanted.
-/

namespace Literate

open Text (quoted)

/-- A value of a settings file or of an option; `null` is an option that was not given. -/
inductive Datum where
  | null
  | flag (b : Bool)
  | number (n : Int)
  | real (x : Binary64)
  | text (s : String)
  | moment (m : Moment)
  | list (items : List Datum)
  | table (entries : List (String × Datum))
deriving Repr, Inhabited

namespace Datum

/-- The most digits that a number may have to be converted from or to decimal digits. -/
def maxDigits : Nat := 4300

mutual

/-- Whether the value can be written: no number in it has too many digits. -/
def hasText : Datum → Bool
  | number n => n.natAbs < 10 ^ maxDigits
  | list items => allHaveText items
  | table entries => entriesHaveText entries
  | _ => true

/-- Whether all values of a list can be written. -/
def allHaveText : List Datum → Bool
  | [] => true
  | d :: ds => d.hasText && allHaveText ds

/-- Whether all values of a table can be written. -/
def entriesHaveText : List (String × Datum) → Bool
  | [] => true
  | (_, d) :: es => d.hasText && entriesHaveText es

end

@[simp] theorem hasText_text (s : String) : (text s).hasText = true := rfl

/-- How a truth value is written. -/
def flagText (b : Bool) : String := if b then "True" else "False"

mutual

/-- The text of a value inside a list or table: texts are quoted there. -/
def display : Datum → String
  | null => "None"
  | flag b => flagText b
  | number n => toString n
  | real x => x.text
  | text s => quoted s
  | moment m => m.display
  | list items => "[" ++ ", ".intercalate (displays items) ++ "]"
  | table entries => "\x7b" ++ ", ".intercalate (displayEntries entries) ++ "\x7d"

/-- The texts of the values of a list. -/
def displays : List Datum → List String
  | [] => []
  | d :: ds => d.display :: displays ds

/-- The texts of the entries of a table. -/
def displayEntries : List (String × Datum) → List String
  | [] => []
  | (k, d) :: es => (quoted k ++ ": " ++ d.display) :: displayEntries es

end

/-- The text of a value that stands alone. -/
def plain : Datum → String
  | text s => s
  | moment m => m.text
  | d => d.display

end Datum

end Literate
