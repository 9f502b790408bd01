import Literate.Tangle.Basic
import Literate.Text.Blank
import Literate.Toml.Document

/-!
# Settings

A run takes its options from the command line and from the `[tangle]` table of a settings file, and what
the command line says counts before the file. A file that is missing says nothing; one that cannot be
used is named in a warning and says nothing either.
-/

namespace Literate

open Text (strip lowercase)

/-- Option values by name. -/
abbrev Settings := Entries String Datum

namespace Settings

/-- The name of the settings file. -/
def fileName : String := "betwixt.toml"

/-- The table of the settings file that is read. -/
def tableName : String := "tangle"

/-- Where the settings file is: where it is said to be, else in the root directory, else in the working
directory. -/
def location (cwd : Location) (root file : Option Path) : Path :=
  file.getD ((root.getD (Path.ofLocation cwd)).join ⟨.relative, [fileName]⟩)

/-- Why a settings file is not used. -/
inductive Problem where
  | refused (e : Errno)
  | notText
  | notToml
  | notTable
deriving DecidableEq, Repr

/-- The name of the error that keeps a file from being read. -/
def errorName : Errno → String
  | .notFound => "FileNotFoundError"
  | .denied => "PermissionError"
  | .exists => "FileExistsError"
  | .notDirectory => "NotADirectoryError"
  | .isDirectory => "IsADirectoryError"
  | .busy => "OSError"
  | .nameTooLong => "OSError"

def Problem.message : Problem → String
  | refused e => errorName e
  | notText => "UnicodeDecodeError"
  | notToml => "TOMLDecodeError"
  | notTable => "[" ++ tableName ++ "] is not a table"

/-- The warning about a settings file. -/
def warning (file : Path) (p : Problem) : String :=
  s!"WARNING: ignoring config {file.text}: {p.message}"

/-- What a settings file says, and why it says nothing. -/
structure Loaded where
  settings : Settings
  problem : Option Problem

/-- Why settings cannot be used at all. -/
inductive Fault where
  /-- The file is at a path that no file can have. -/
  | unnameable
  /-- A number has more digits than are ever converted. -/
  | tooManyDigits
  /-- Values are nested too deeply in each other. -/
  | tooDeep
deriving DecidableEq, Repr

/-- The settings in the text of a file. -/
def ofText (text : String) : Except Fault Loaded :=
  match Toml.parse text with
  | .error .malformed => .ok ⟨[], some .notToml⟩
  | .error .tooManyDigits => .error .tooManyDigits
  | .error .tooDeep => .error .tooDeep
  | .ok document =>
    match document.lookup tableName with
    | none => .ok ⟨[], none⟩
    | some (.table settings) => .ok ⟨settings, none⟩
    | some _ => .ok ⟨[], some .notTable⟩

/-- The settings in a file. -/
def load (d : Disk) (file : Path) : Except Fault Loaded :=
  if file.hasNul then .error .unnameable
  else
    match d.read file with
    | .error .notFound => .ok ⟨[], none⟩
    | .error e => .ok ⟨[], some (.refused e)⟩
    | .ok bytes =>
      match Text.decode bytes with
      | .error _ => .ok ⟨[], some .notText⟩
      | .ok text => ofText (String.ofList (Text.universalNewlines text.toList))

/-- Explicit values over those of a file; a null is a value that was not given. -/
def overlay (explicit defaults : Settings) : Settings :=
  explicit.foldl
    (fun merged e => match e.2 with | .null => merged | value => Entries.put e.1 value merged)
    defaults

/-- The words that switch an option on. -/
def onWords : List String := ["1", "true", "yes", "on"]

/-- Whether a value switches an option on. -/
def isOn : Datum → Bool
  | .text s => onWords.contains (lowercase (String.ofList (strip s.toList)))
  | .flag b => b
  | .number n => n != 0
  | _ => false

/-- The text of a value without blanks at its ends, if anything is left of it. -/
def textOf? : Datum → Option String
  | .null => none
  | value =>
    let text := strip value.plain.toList
    if text.isEmpty then none else some (String.ofList text)

/-- The text under a name. -/
def text? (s : Settings) (name : String) : Option String := (s.lookup name).bind textOf?

/-- Whether a name is switched on. -/
def on (s : Settings) (name : String) : Bool := (s.lookup name).any isOn

/-- The settings of which the text is wanted. -/
def textNames : List String := ["output", "tag", "flavor"]

/-- Whether the text of every setting can be had of which it is wanted. -/
def haveTexts (s : Settings) : Bool := textNames.all fun name => (s.lookup name).all (·.hasText)

/-- The options that settings amount to. The output directory is taken from the root. -/
def options (s : Settings) (root : Path) : Except Fault Options :=
  if haveTexts s then
    .ok {
      outputRoot := match text? s "output" with
        | none => root
        | some output => root.join (.ofString output)
      tagFilter := text? s "tag"
      strict := on s "strict"
      flavorId := text? s "flavor"
      lenient := on s "lenient_directives"
      dryRun := on s "dry_run" }
  else .error .tooManyDigits

end Settings

end Literate
