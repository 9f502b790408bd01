/-!
# Command line arguments

Options and operands may stand in any order, and two dashes end the options. A long option takes its
value from behind an equals sign or from the next argument. Short options may be written together;
one that takes a value takes what is left of its word or, if that is nothing, the next argument.
-/

namespace Literate.Command

/-- An option: how it may be written, the name under which it is known, and whether a value goes with
it. -/
structure OptionSpec where
  spellings : List String
  name : String
  takesValue : Bool

/-- An option that was given; without a value, the value is empty. -/
structure Given where
  name : String
  value : String
deriving DecidableEq, Repr

/-- What one argument amounts to: the options that it gives, and the name of one that takes the next
argument for its value. -/
structure OptionWord where
  given : List Given
  wants : Option String

/-- The option that is written in this way. -/
def find? (specs : List OptionSpec) (spelling : String) : Option OptionSpec :=
  specs.find? (·.spellings.contains spelling)

/-- Short options that are written together. -/
def readShort (specs : List OptionSpec) : List Char → Option OptionWord
  | [] => some ⟨[], none⟩
  | c :: cs =>
    match find? specs (String.ofList ['-', c]) with
    | none => none
    | some spec =>
      if spec.takesValue then
        if cs.isEmpty then some ⟨[], some spec.name⟩
        else some ⟨[⟨spec.name, String.ofList cs⟩], none⟩
      else (readShort specs cs).map fun w => { w with given := ⟨spec.name, ""⟩ :: w.given }

/-- A long option, with or without a value behind an equals sign. -/
def readLong (specs : List OptionSpec) (word : List Char) : Option OptionWord :=
  let before := word.takeWhile (· != '=')
  match find? specs (String.ofList before), word.drop before.length with
  | none, _ => none
  | some spec, [] => some (if spec.takesValue then ⟨[], some spec.name⟩ else ⟨[⟨spec.name, ""⟩], none⟩)
  | some spec, _ :: value =>
    if spec.takesValue then some ⟨[⟨spec.name, String.ofList value⟩], none⟩ else none

/-- An argument that starts with a dash and is more than a dash. -/
def readOption (specs : List OptionSpec) (word : List Char) : Option OptionWord :=
  if ['-', '-'].isPrefixOf word then readLong specs word else readShort specs (word.drop 1)

/-- Options and operands. -/
structure Parsed where
  given : List Given
  operands : List String

/-- Reads arguments. Where operands end the options, the first operand and all that follows are left as
they are. -/
def parse (specs : List OptionSpec) (operandsEnd : Bool) : List String → Option Parsed
  | [] => some ⟨[], []⟩
  | arg :: rest =>
    let word := arg.toList
    if word = ['-', '-'] then some ⟨[], rest⟩
    else if word.head? = some '-' && 1 < word.length then
      match readOption specs word with
      | none => none
      | some ⟨given, none⟩ =>
        (parse specs operandsEnd rest).map fun p => { p with given := given ++ p.given }
      | some ⟨given, some name⟩ =>
        match rest with
        | [] => none
        | value :: rest =>
          (parse specs operandsEnd rest).map fun p =>
            { p with given := given ++ ⟨name, value⟩ :: p.given }
    else if operandsEnd then some ⟨[], arg :: rest⟩
    else (parse specs operandsEnd rest).map fun p => { p with operands := arg :: p.operands }

namespace Parsed

/-- The value that was given last for an option. -/
def last? (p : Parsed) (name : String) : Option String :=
  (p.given.reverse.find? (·.name == name)).map (·.value)

/-- Whether an option was given. -/
def has (p : Parsed) (name : String) : Bool := p.given.any (·.name == name)

/-- Which of two opposite options was given last. -/
def choice? (p : Parsed) (yes no : String) : Option Bool :=
  (p.given.reverse.find? fun g => g.name == yes || g.name == no).map (·.name == yes)

end Parsed

/-! ## The commands -/

/-- The arguments of a run. -/
structure TangleArgs where
  file : String
  output : Option String
  tag : Option String
  strict : Option Bool
  flavor : Option String
  lenient : Option Bool
  config : Option String
  dryRun : Bool
  report : Option String
  json : Bool
deriving DecidableEq, Repr

/-- The arguments of a listing of fragments. -/
structure FragmentsArgs where
  file : String
  flavor : Option String
  config : Option String
deriving DecidableEq, Repr

/-- What the program is asked to do. -/
inductive Task where
  | version
  | tangle (args : TangleArgs)
  | fragments (args : FragmentsArgs)
  | flavors
deriving DecidableEq, Repr

/-- A task, and whether to keep a journal. -/
structure Invocation where
  verbose : Bool
  task : Task
deriving DecidableEq, Repr

def globalOptions : List OptionSpec := [
  ⟨["--verbose", "-v"], "verbose", false⟩,
  ⟨["--version", "-V"], "version", false⟩]

def flavorOption : OptionSpec := ⟨["--flavor"], "flavor", true⟩

def configOption : OptionSpec := ⟨["--config"], "config", true⟩

def tangleOptions : List OptionSpec := [
  ⟨["--output", "-o"], "output", true⟩,
  ⟨["--tag", "-t"], "tag", true⟩,
  ⟨["--strict"], "strict", false⟩,
  ⟨["--no-strict"], "no-strict", false⟩,
  flavorOption,
  ⟨["--lenient-directives"], "lenient", false⟩,
  ⟨["--fatal-directives"], "fatal", false⟩,
  configOption,
  ⟨["--dry-run", "-n"], "dry-run", false⟩,
  ⟨["--report"], "report", true⟩,
  ⟨["--json"], "json", false⟩]

def parseTangle (args : List String) : Option TangleArgs :=
  (parse tangleOptions false args).bind fun p =>
    match p.operands with
    | [file] =>
      some {
        file
        output := p.last? "output"
        tag := p.last? "tag"
        strict := p.choice? "strict" "no-strict"
        flavor := p.last? "flavor"
        lenient := p.choice? "lenient" "fatal"
        config := p.last? "config"
        dryRun := p.has "dry-run"
        report := p.last? "report"
        json := p.has "json" }
    | _ => none

def parseFragments (args : List String) : Option FragmentsArgs :=
  (parse [flavorOption, configOption] false args).bind fun p =>
    match p.operands with
    | [file] => some ⟨file, p.last? "flavor", p.last? "config"⟩
    | _ => none

/-- The command that a word names, with its arguments. -/
def parseTask (name : String) (args : List String) : Option Task :=
  if name = "tangle" then (parseTangle args).map .tangle
  else if name = "fragments" then (parseFragments args).map .fragments
  else if name = "flavors" then
    (parse [] false args).bind fun p => if p.operands.isEmpty then some .flavors else none
  else none

/-- What a command line asks for, if it is one. -/
def parseInvocation (args : List String) : Option Invocation :=
  (parse globalOptions true args).bind fun p =>
    let verbose := p.has "verbose"
    if p.has "version" then some ⟨verbose, .version⟩
    else
      match p.operands with
      | [] => none
      | name :: args => (parseTask name args).map (⟨verbose, ·⟩)

end Literate.Command
