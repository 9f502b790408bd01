import Literate.Proofs.Flavor.Rendering
import Literate.Proofs.Path.Outside
import Literate.Proofs.Plan.Weaving
import Literate.Proofs.Tangle.Run

/-!
# A strict run stays below its output root

Routing takes a destination to be below the output root by where its names lead, and writing puts the
file where its names lead, whatever has to be made on the way. So the destinations that a strict run
tries are below the output root, and no file changes but those that they lead to (`runText_stays_below`).

A destination may also lead to the root itself, as `.` does. If a directory is there, nothing comes of
it; if none is there, a file is put in its place (`runText_writes_root`).
-/

namespace Literate

/-- Whether a file at a location is one below a root. If no directory is at the root's own location, the
root stands for a file there. -/
def Disk.Below (d : Disk) (root loc : Location) : Prop :=
  root <+: loc ∧ (loc = root → ∀ bits, d.get? root ≠ some (.directory bits))

/-- Attempts at destinations below a root leave every other file as it was, however they end. -/
theorem Disk.Attempts.stays_below {s : Surroundings} {d d' : Disk} {root : Path}
    {requests : List WriteRequest} {results : List WriteResult} {loc : Location}
    (h : Attempts s root d requests results d')
    (hinside : ∀ r ∈ requests, root.outside d.cwd r.destination = false)
    (hloc : ¬ d.Below (root.locate d.cwd) loc) : d'.fileAt? loc = d.fileAt? loc := by
  by_cases hbelow : root.locate d.cwd <+: loc
  · -- the root itself, and a directory is there
    have hdir : loc = root.locate d.cwd ∧
        ∃ bits, d.get? (root.locate d.cwd) = some (.directory bits) := by
      simpa [Below, hbelow] using hloc
    obtain ⟨rfl, bits, hget⟩ := hdir
    rw [fileAt?, fileAt?, hget, h.get?_directory hget]
  · apply h.fileAt?_of_ne
    rintro r hr rfl
    exact hbelow (Path.outside_eq_false_iff.mp (hinside r hr))

namespace Tangle

variable {d : Disk} {f : Flavor} {options : Options} {text : String} {loc : Location}

/-- No destination of a strict run that writes leaves the output root. -/
theorem not_outside_of_writes {p : Pass} (hstrict : options.strict = true)
    (h : writes (survey d.cwd options p) = true) :
    ∀ r ∈ (survey d.cwd options p).plan.requests,
      options.outputRoot.outside d.cwd r.destination = false := by
  have hrouting := ((writes_iff d.cwd options p).mp h).1 hstrict
  intro r hr
  obtain ⟨planned, hplanned, rfl⟩ := List.mem_map.mp hr
  exact (Plan.issues_eq_nil_iff.mp hrouting).2.2 planned hplanned

/-- Whether a destination of a text leads to a location, if it is kept by the filter. -/
def Targets (registry : Registry) (d : Disk) (f : Flavor) (options : Options) (text : String)
    (loc : Location) : Prop :=
  ∃ p, Pass.ofText registry f options.lenient text = .ok p ∧
    ∃ e ∈ (Plan.ofPass p options.tagFilter).destinations,
      loc = (options.outputRoot.join (.ofString e.destination)).locate d.cwd

theorem Ran.stays_below {registry : Registry} {s : Surroundings} {out : Disk × Except Abort Report}
    (h : Ran registry d f options options.outputRoot text s out) (hstrict : options.strict = true)
    (hloc : d.Below (options.outputRoot.locate d.cwd) loc → ¬ Targets registry d f options text loc) :
    out.1.fileAt? loc = d.fileAt? loc := by
  cases h with
  | aborted a => rfl
  | withheld p read unwritten => rfl
  | written p d' results read written attempts =>
    by_cases hbelow : d.Below (options.outputRoot.locate d.cwd) loc
    · apply attempts.fileAt?_of_ne
      intro r hr hleads
      obtain ⟨e, he, rfl⟩ := List.mem_map.mp hr
      exact hloc hbelow ⟨p, read, e, he, hleads⟩
    · exact attempts.stays_below (not_outside_of_writes hstrict written) hbelow

/-- A strict run changes, makes and removes no file but those below its output root that the directives of
its text name as destinations. -/
theorem runText_stays_below (registry : Registry) (d : Disk) (f : Flavor) (options : Options)
    (text : String) (s : Surroundings) (loc : Location) (hstrict : options.strict = true)
    (hloc : d.Below (options.outputRoot.locate d.cwd) loc → ¬ Targets registry d f options text loc) :
    (runText registry d f options options.outputRoot text s).1.fileAt? loc = d.fileAt? loc :=
  (runText_ran registry d f options options.outputRoot text s).stays_below hstrict hloc

/-- A destination that climbs out of the output root and is the log next to it. Neither the log changes nor
what is at the root, where no directory is. -/
theorem runText_stays_below_logged :
    let options : Options := { Options.default with outputRoot := .ofString "out", strict := true }
    let text := "<?btxt filename='../log' ?>\n```\nnew\n```\n"
    let out := runText .builtin .logged .github options options.outputRoot text .usual
    options.strict = true ∧
      ¬ Disk.logged.Below (options.outputRoot.locate Disk.logged.cwd) ["work", "log"] ∧
      out.1.fileAt? ["work", "log"] = some ("old\n".toUTF8, Disk.fileMode) ∧
      Disk.logged.Below (options.outputRoot.locate Disk.logged.cwd) ["work", "out"] ∧
      ¬ Targets .builtin .logged .github options text ["work", "out"] ∧
      out.1.fileAt? ["work", "out"] = none := by
  intro options text out
  have hlog : ¬ Disk.logged.Below (options.outputRoot.locate Disk.logged.cwd) ["work", "log"] := by
    rintro ⟨hbelow, -⟩
    exact absurd hbelow (by decide)
  have hroot : Disk.logged.Below (options.outputRoot.locate Disk.logged.cwd) ["work", "out"] := by
    refine ⟨List.prefix_refl _, fun _ bits hdir => ?_⟩
    have hnone : Disk.logged.get? ["work", "out"] = none := by decide +kernel
    cases hnone.symm.trans hdir
  have helsewhere : ¬ Targets .builtin .logged .github options text ["work", "out"] := by
    have hweavable : ∀ s ∈ [Snippet.mk "../log" "new\n"], s.Weavable := by decide +kernel
    obtain ⟨t, hread, ht⟩ := Snippet.ofText_collects .builtin options.lenient hweavable
    rintro ⟨p, hp, e, he, hleads⟩
    obtain rfl : t.finish "github" = p := Except.ok.inj (hread.symm.trans hp)
    have hname : e.destination ∈
        (Plan.ofPass (t.finish "github") none).destinations.map (·.destination) :=
      List.mem_map_of_mem he
    rw [(ht.restored "github").destinations] at hname
    obtain hname : e.destination = "../log" := List.mem_singleton.mp hname
    rw [hname] at hleads
    exact absurd hleads (by decide +kernel)
  refine ⟨rfl, hlog, ?_, hroot, helsewhere, ?_⟩
  · rw [runText_stays_below .builtin .logged .github options text .usual ["work", "log"] rfl
      fun hbelow => absurd hbelow hlog]
    rfl
  · rw [runText_stays_below .builtin .logged .github options text .usual ["work", "out"] rfl
      fun _ => helsewhere]
    rfl

/-- A directive that sends a fence to the output root itself. -/
def toRoot : List Block :=
  [.directive ⟨.instruction, none, [⟨[' '], "filename".toList, .quoted '\'' ".".toList⟩], []⟩
      [.assignment (.destination ".")],
    .fenced none "x\n"]

theorem toRoot_wellFormed : ∀ b ∈ toRoot, b.WellFormed .github := by
  have hquotes : Directive.Quotes '\'' ".".toList ".".toList :=
    .plain (by decide) (by decide) .nil
  have hitem : Directive.Written.Item.Accepted (some .instruction)
      ⟨[' '], "filename".toList, .quoted '\'' ".".toList⟩ (.assignment (.destination ".")) :=
    accepted_destination (by decide) hquotes (by rintro k ⟨⟩; decide) (by decide)
  intro b hb
  simp only [toRoot, List.mem_cons, List.not_mem_nil, or_false] at hb
  rcases hb with rfl | rfl
  · exact .directive ⟨nofun, nofun, .cons hitem .nil, by decide, by simp⟩
  · exact .plainFence (by simp) (Or.inr (by decide)) (by decide)

/-- Where no directory is at the output root, a strict run can put a file there, and that one is not
below it. -/
theorem runText_writes_root :
    let options : Options := { Options.default with outputRoot := .ofString "out", strict := true }
    let root := options.outputRoot.locate Disk.logged.cwd
    let text := "<?btxt filename='.'?>\n```\nx\n```\n"
    let out := runText .builtin .logged .github options options.outputRoot text .usual
    options.strict = true ∧
      ¬ ∀ loc, ¬ (root <+: loc ∧ loc ≠ root) → out.1.fileAt? loc = Disk.logged.fileAt? loc := by
  intro options root text out
  have hscan : Flavor.github.scan text = (blockEvents .github ⟨0, 1⟩ toRoot).map .event := by
    rw [Flavor.scan, scanFrom_blocks (Or.inl rfl) toRoot_wellFormed (c := .ofText text.toList)
      (by decide +kernel)]
    rfl
  have hfile : out.1.fileAt? root = some ("x\n".toUTF8, Disk.fileMode) := by
    simp only [out, runText, Pass.ofText, Document.read_eq, hscan]
    decide +kernel
  refine ⟨rfl, ?_⟩
  intro hsame
  have hbefore : Disk.logged.fileAt? root = none := by decide +kernel
  rw [hsame root (fun h => h.2 rfl), hbefore] at hfile
  cases hfile

end Tangle

end Literate
