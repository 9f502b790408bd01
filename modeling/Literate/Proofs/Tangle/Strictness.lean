import Literate.Proofs.Flavor.Composition
import Literate.Proofs.Plan.Weaving
import Literate.Proofs.Tangle.Run

/-!
# What strictness changes

A run that ends without a report, a dry run, and a run with an error before writing leave the disk as it
was. Strictness decides about nothing else: it only makes problems of routing errors. So where another
run finds none, a strict one is the same run (`runText_strict`); where it finds some, the strict one
writes nothing. A run can also write nothing because there is nothing to write, so writing nothing does
not tell that there are such problems (`strict_without_fragments`).
-/

namespace Literate

/-- Whether a report has a problem of routing. -/
def Report.Misroutes (r : Report) : Prop := ∃ i ∈ r.issues, i.kind.isRouting = true

/-- Whether a report has an error that was there before anything was written. -/
def Report.Fails (r : Report) : Prop :=
  ∃ i ∈ r.issues, i.kind ≠ .writeFailure ∧ i.severity = .error

namespace Options

/-- The same run, strict or not. -/
def withStrict (options : Options) (strict : Bool) : Options := { options with strict }

end Options

namespace Tangle

variable {registry : Registry} {d : Disk} {f : Flavor} {options : Options} {writerRoot : Path}
  {text : String} {s : Surroundings} {p : Pass} {out : Disk × Except Abort Report}

/-- When a run leaves everything as it was. -/
structure AllOrNothing (d : Disk) (dryRun : Bool) (out : Disk × Except Abort Report) : Prop where
  aborted : ∀ a, out.2 = .error a → out.1 = d
  dry : dryRun = true → out.1 = d
  failed : ∀ r, out.2 = .ok r → r.Fails → out.1 = d

/-- What a strict run is to the same run that is not strict. -/
structure Gates (d d₁ d₂ : Disk) (strict loose : Report) : Prop where
  nothing_iff : (d₁ = d ∧ strict.results = []) ↔ (loose.Misroutes ∨ loose.results = [])
  same : ¬ loose.Misroutes → d₁ = d₂ ∧ strict.results = loose.results ∧ strict.issues = loose.issues

/-! ## Writing nothing -/

theorem Ran.allOrNothing (h : Ran registry d f options writerRoot text s out) :
    AllOrNothing d options.dryRun out := by
  cases h with
  | aborted a => exact ⟨fun _ _ => rfl, fun _ => rfl, fun _ _ _ => rfl⟩
  | withheld p read unwritten => exact ⟨fun _ _ => rfl, fun _ => rfl, fun _ _ _ => rfl⟩
  | written p d' results read written attempts =>
    obtain ⟨herrors, hdry⟩ := Bool.and_eq_true_iff.mp written
    rw [List.isEmpty_iff] at herrors
    refine ⟨?_, ?_, ?_⟩
    · intro a h
      cases h
    · intro h
      have hwet : options.dryRun = false := by simpa [survey] using hdry
      rw [hwet] at h
      cases h
    · -- no issue of a run that writes is an error, but for those of writing
      rintro r hr ⟨i, hi, hkind, hseverity⟩
      cases hr
      rcases List.mem_append.mp hi with hi | hi
      · exact absurd hseverity (by simpa using List.filter_eq_nil_iff.mp herrors i hi)
      · obtain ⟨failure, -, rfl⟩ := List.mem_map.mp hi
        exact absurd rfl hkind

/-! ## Two runs -/

/-- Strictness makes no difference to which problems of routing there are. -/
theorem routing_withStrict (cwd : Location) (options : Options) (p : Pass) (strict : Bool) :
    routing cwd (options.withStrict strict) p = [] ↔ routing cwd options p = [] := by
  rw [routing, routing, Options.withStrict, Plan.issues_eq_nil_iff, Plan.issues_eq_nil_iff]

theorem survey_withStrict (h : routing d.cwd options p = []) (strict : Bool) :
    survey d.cwd (options.withStrict strict) p = survey d.cwd options p := by
  have hnone := (routing_withStrict d.cwd options p strict).mpr h
  have hissues : (survey d.cwd (options.withStrict strict) p).issues =
      (survey d.cwd options p).issues := by
    rw [survey_issues, survey_issues, h, hnone]
  rw [survey, survey, Report.mk.injEq]
  exact ⟨rfl, rfl, hissues, rfl, rfl⟩

/-- Without problems of routing, a run is the same whether it is strict or not. -/
theorem runText_strict (hread : Pass.ofText registry f options.lenient text = .ok p)
    (hrouting : routing d.cwd options p = []) (strict : Bool) :
    runText registry d f (options.withStrict strict) writerRoot text s =
      runText registry d f options writerRoot text s := by
  have hread' : Pass.ofText registry f (options.withStrict strict).lenient text = .ok p := hread
  simp only [runText, hread, hread', survey_withStrict hrouting strict]
  rfl

/-- A report is that of a document, and has the problems of routing that the document has. -/
theorem Ran.misroutes_iff {d' : Disk} {r : Report}
    (h : Ran registry d f options writerRoot text s (d', .ok r)) :
    ∃ p, Pass.ofText registry f options.lenient text = .ok p ∧
      (r.Misroutes ↔ routing d.cwd options p ≠ []) := by
  cases h with
  | withheld p read unwritten =>
    have hreport := exists_routing_iff d.cwd options p (List.forall_mem_nil _)
    rw [List.append_nil] at hreport
    exact ⟨p, read, hreport⟩
  | written p d' results read written attempts =>
    refine ⟨p, read, exists_routing_iff d.cwd options p ?_⟩
    intro i hi
    obtain ⟨failure, -, rfl⟩ := List.mem_map.mp hi
    rfl

/-- A run without results changed nothing. -/
theorem Ran.eq_of_results {d' : Disk} {r : Report}
    (h : Ran registry d f options writerRoot text s (d', .ok r)) (hresults : r.results = []) :
    d' = d := by
  cases h with
  | withheld p read unwritten => rfl
  | written p d' results read written attempts =>
    obtain rfl : results = [] := hresults
    exact attempts.eq_of_nil

/-- A strict run over a document with problems of routing changes nothing and has no results. -/
theorem Ran.nothing {d' : Disk} {r : Report}
    (h : Ran registry d f options writerRoot text s (d', .ok r)) (hstrict : options.strict = true)
    (hmisroutes : r.Misroutes) : d' = d ∧ r.results = [] := by
  obtain ⟨p, hread, hiff⟩ := h.misroutes_iff
  have hrouting := hiff.mp hmisroutes
  cases h with
  | withheld p read unwritten => exact ⟨rfl, rfl⟩
  | written p' d' results read written attempts =>
    rw [read] at hread
    cases hread
    exact absurd (((writes_iff d.cwd options p).mp written).1 hstrict) hrouting

/-- A run writes everything that it announces or nothing, and strictness decides only which of the two:
a strict run is the same as the other one, unless that one has problems of routing. -/
theorem runText_gated (registry : Registry) (d : Disk) (f : Flavor) (options : Options)
    (writerRoot : Path) (text : String) (s : Surroundings) :
    let run strict := runText registry d f (options.withStrict strict) writerRoot text s
    AllOrNothing d options.dryRun (runText registry d f options writerRoot text s) ∧
      ∀ d₁ d₂ strict loose, run true = (d₁, .ok strict) → run false = (d₂, .ok loose) →
        Gates d d₁ d₂ strict loose := by
  intro run
  refine ⟨(runText_ran registry d f options writerRoot text s).allOrNothing, ?_⟩
  intro d₁ d₂ strict loose hstrict hloose
  have hran : Ran registry d f (options.withStrict true) writerRoot text s (run true) :=
    runText_ran ..
  have hran' : Ran registry d f (options.withStrict false) writerRoot text s (run false) :=
    runText_ran ..
  rw [hstrict] at hran
  rw [hloose] at hran'
  obtain ⟨p, hread, hiff⟩ := hran.misroutes_iff
  obtain ⟨p', hread', hiff'⟩ := hran'.misroutes_iff
  obtain rfl : p = p' := Except.ok.inj (hread.symm.trans hread')
  have hread : Pass.ofText registry f options.lenient text = .ok p := hread
  rw [Ne, routing_withStrict] at hiff hiff'
  by_cases hrouting : routing d.cwd options p = []
  · -- both are the run with the options as they were given
    have heq : run true = run false :=
      (runText_strict hread hrouting true).trans (runText_strict hread hrouting false).symm
    rw [hstrict, hloose] at heq
    cases heq
    have hnone : ¬ strict.Misroutes := by simp [hiff, hrouting]
    refine ⟨?_, fun _ => ⟨rfl, rfl, rfl⟩⟩
    simp only [hnone, false_or, and_iff_right_iff_imp]
    exact hran.eq_of_results
  · have hmisroutes := hiff'.mpr hrouting
    exact ⟨iff_of_true (hran.nothing rfl (hiff.mpr hrouting)) (Or.inl hmisroutes),
      fun h => absurd hmisroutes h⟩

/-- A document whose only fragment goes to a note next to the log. -/
def note : String := "<?btxt filename='note' ?>\n```\nx\n```\n"

def noteRun (strict : Bool) : Disk × Except Abort Report :=
  runText .builtin .logged .github (Options.default.withStrict strict) .here note .usual

theorem noteRun_ends (strict : Bool) : ∃ d r, noteRun strict = (d, .ok r) ∧
    d.fileAt? ["work", "note"] = some ("x\n".toUTF8, Disk.fileMode) ∧
    r.results.map (·.ok) = [true] ∧ r.issues = [] := by
  have hweavable : ∀ s ∈ [Snippet.mk "note" "x\n"], s.Weavable := by decide +kernel
  have hread : Document.read .builtin .github note = _ := Snippet.read_woven .builtin hweavable
  have hfile : (noteRun strict).1.fileAt? ["work", "note"] =
      some ("x\n".toUTF8, Disk.fileMode) := by
    simp only [noteRun, runText, Pass.ofText, hread]
    cases strict <;> decide +kernel
  have hreport : (noteRun strict).2.toOption.map (fun r => (r.results.map (·.ok), r.issues)) =
      some ([true], []) := by
    simp only [noteRun, runText, Pass.ofText, hread]
    cases strict <;> decide +kernel
  cases hrun : noteRun strict with
  | mk d result =>
    rw [hrun] at hfile hreport
    cases result with
    | error a => cases hreport
    | ok r =>
      obtain ⟨hresults, hissues⟩ := Prod.mk.inj (Option.some.inj hreport)
      exact ⟨d, r, rfl, hfile, hresults, hissues⟩

/-- Where there is something to write and nothing wrong with where it goes, both runs write it. -/
theorem runText_gated_noted :
    ∃ d₁ d₂ strict loose, noteRun true = (d₁, .ok strict) ∧ noteRun false = (d₂, .ok loose) ∧
      loose.results.map (·.ok) = [true] ∧ ¬ loose.Misroutes ∧
      d₁.fileAt? ["work", "note"] = some ("x\n".toUTF8, Disk.fileMode) ∧
      ¬ (d₁ = .logged ∧ strict.results = []) ∧
      d₁ = d₂ ∧ strict.results = loose.results ∧ strict.issues = loose.issues := by
  obtain ⟨d₁, strict, hstrict, hfile, -, -⟩ := noteRun_ends true
  obtain ⟨d₂, loose, hloose, -, hresults, hissues⟩ := noteRun_ends false
  have hroutes : ¬ loose.Misroutes := by
    rw [Report.Misroutes, hissues]
    simp
  have hsome : loose.results ≠ [] := by
    intro hnone
    rw [hnone] at hresults
    cases hresults
  have hgates := (runText_gated .builtin .logged .github Options.default .here _ .usual).2
    d₁ d₂ strict loose hstrict hloose
  exact ⟨d₁, d₂, strict, loose, hstrict, hloose, hresults, hroutes, hfile,
    fun h => (hgates.nothing_iff.mp h).elim hroutes hsome, hgates.same hroutes⟩

/-- A line of prose is read as nothing. -/
theorem ofText_prose :
    Pass.ofText .builtin .github false "No code.\n" =
      .ok ⟨"github", (OpenOutline.start 0 none).outline, [], [], [], []⟩ := by
  have hscan : Flavor.github.scan "No code.\n" = [] := by
    have hline : (Cursor.ofText "No code.\n".toList).rest = "No code.".toList ++ '\n' :: [] := rfl
    have hprose := Flavor.scanFrom_prose (f := .github) hline (by simp) (by decide)
      (Flavor.not_headingLine_of_head (by simp))
    rw [Flavor.scan, hprose]
    exact Flavor.scanFrom_nil rfl true
  rw [Pass.ofText, Document.read_eq, hscan]
  rfl

/-- A document of nothing but prose has nothing to write, and yet no problems of routing. -/
theorem strict_without_fragments :
    let run strict :=
      runText .builtin .logged .github (Options.default.withStrict strict) .here "No code.\n" .usual
    ∃ d₁ d₂ strict loose, run true = (d₁, .ok strict) ∧ run false = (d₂, .ok loose) ∧
      Options.default.dryRun = false ∧
      ¬ ((d₁ = .logged ∧ strict.results = []) ↔ loose.Misroutes) := by
  intro run
  have hran (strict : Bool) : ∃ r, run strict = (.logged, .ok r) ∧ r.results = [] ∧ r.issues = [] := by
    have hread : Pass.ofText .builtin .github (Options.default.withStrict strict).lenient
        "No code.\n" = .ok _ := ofText_prose
    simp only [run, runText, hread]
    cases strict <;> exact ⟨_, rfl, rfl, rfl⟩
  obtain ⟨strict, hstrict, hresults, -⟩ := hran true
  obtain ⟨loose, hloose, -, hissues⟩ := hran false
  refine ⟨.logged, .logged, strict, loose, hstrict, hloose, rfl, ?_⟩
  rw [Report.Misroutes, hissues]
  simp [hresults]

end Tangle

end Literate
