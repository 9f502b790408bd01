import Literate.Command.Basic

/-!
# What a command line looks at

The paths that a task reads or writes, as far as they can be told from what is on the disk already. The
destinations of a run are only known once the document is there, so the footprint is taken again after
its paths have been brought in; it is complete when nothing is added.
-/

namespace Literate.Command

/-- The paths of the destinations of a run. -/
def destinationPaths (r : Registry) (d : Disk) (options : Options) (file : Path) : List Path :=
  match Tangle.flavorFor r options (some file.extension), Tangle.readDocument d file with
  | .ok f, .ok text =>
    match Pass.ofText r f options.lenient text with
    | .ok p => (Plan.ofPass p options.tagFilter).destinations.map fun x =>
        options.outputRoot.join (.ofString x.destination)
    | .error _ => []
  | _, _ => []

/-- The settings file of a task. -/
def settingsPath (d : Disk) (config : Option String) : Path :=
  Settings.location d.cwd none (config.map Path.ofString)

/-- The paths that a command line looks at. -/
def footprint (r : Registry) (d : Disk) (args : List String) : List Path :=
  match parseInvocation args with
  | some ⟨_, .tangle a⟩ =>
    let file := Path.ofString a.file
    let run := match resolve d a.config (a.settings d) with
      | .ok resolved =>
        resolved.options.outputRoot :: destinationPaths r d resolved.options file
      | .error _ => []
    file :: settingsPath d a.config :: (a.report.map Path.ofString).toList ++ run
  | some ⟨_, .fragments a⟩ => [.ofString a.file, settingsPath d a.config]
  | _ => []

/-- The locations from the top directory to where a path leads. -/
def locationsOf (cwd : Location) (p : Path) : List Location :=
  (List.range (p.names.length + 1)).map fun n => { p with names := p.names.take n }.locate cwd

/-- The locations of a footprint that have not been looked at yet. -/
def unseen (seen : List Location) (cwd : Location) (paths : List Path) : List Location :=
  (paths.flatMap (locationsOf cwd)).eraseDups.filter fun l => !seen.contains l

end Literate.Command
