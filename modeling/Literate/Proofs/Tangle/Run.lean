import Literate.Tangle.Basic
import Literate.Proofs.Disk.Footprint

/-!
# How a run ends

A run ends in one of three ways (`Ran`): without a report, with a report and nothing written, or with
all destinations of its plan tried. The last one takes that nothing which was found before writing is an
error, and that is up to routing alone (`survey_errors`): problems of routing are errors in a strict run
and warnings in any other, and all else that is found by then is a warning.

A run over a document that can be read comes to a report if all paths are ones that files can have
(`runText_ok`).
-/

namespace Literate

/-- Whether an issue is one of routing. -/
def IssueKind.isRouting : IssueKind → Bool
  | unresolvedDestination | emptyDestination | outsideRoot => true
  | malformedDirective | writeFailure => false

/-! ## What is found before writing -/

theorem Pass.kind_of_mem_issues {p : Pass} {i : Issue} (h : i ∈ p.issues) :
    i.kind = .malformedDirective ∧ i.severity = .warning := by
  obtain ⟨fault, -, rfl⟩ := List.mem_map.mp h
  exact ⟨rfl, rfl⟩

namespace Plan

variable {plan : Plan} {strict : Bool} {cwd : Location} {root : Path} {i : Issue}

theorem kind_of_mem_issues (h : i ∈ plan.issues strict cwd (some root)) :
    i.kind.isRouting = true ∧ i.severity = if strict then .error else .warning := by
  simp only [issues, List.mem_append, List.mem_map] at h
  obtain (⟨_, -, rfl⟩ | ⟨_, -, rfl⟩) | ⟨_, -, rfl⟩ := h <;> exact ⟨rfl, rfl⟩

/-- There are no problems of routing if every fragment goes somewhere, every declared destination gets
something, and no destination leaves the output root. -/
theorem issues_eq_nil_iff : plan.issues strict cwd (some root) = [] ↔
    plan.unrouted = [] ∧ (∀ destination ∈ plan.declared, plan.leavesEmpty destination = false) ∧
      ∀ d ∈ plan.destinations, Path.outside cwd root d.destination = false := by
  simp [issues, List.append_eq_nil_iff, List.filter_eq_nil_iff]

theorem unnameable_eq_false_iff {p : Plan} {root : Path} (hroot : root.hasNul = false) :
    p.unnameable root = false ↔ ∀ e ∈ p.destinations, '\x00' ∉ e.destination.toList := by
  rw [unnameable, List.any_eq_false]
  simp only [hroot, Bool.false_or, Path.hasNul_ofString_iff]

theorem forall_nameable {p : Plan} {names : List String}
    (h : p.destinations.map (·.destination) = names) (hnames : ∀ name ∈ names, '\x00' ∉ name.toList) :
    ∀ e ∈ p.destinations, '\x00' ∉ e.destination.toList := by
  intro e he
  refine hnames _ ?_
  rw [← h]
  exact List.mem_map_of_mem he

theorem requests_destinations (p : Plan) :
    p.requests.map (·.destination) = p.destinations.map (·.destination) := List.map_map

end Plan

namespace Tangle

variable {registry : Registry} {d d' : Disk} {f : Flavor} {options : Options} {writerRoot : Path}
  {text : String} {s : Surroundings} {p : Pass} {out : Disk × Except Abort Report}

/-- The problems of routing that a run over a document finds. -/
def routing (cwd : Location) (options : Options) (p : Pass) : List Issue :=
  (Plan.ofPass p options.tagFilter).issues options.strict cwd (some options.outputRoot)

theorem survey_issues (cwd : Location) (options : Options) (p : Pass) :
    (survey cwd options p).issues = p.issues ++ routing cwd options p := rfl

/-- What is an error before anything is written is a problem of routing in a strict run. -/
theorem survey_errors (cwd : Location) (options : Options) (p : Pass) :
    (survey cwd options p).errors = if options.strict then routing cwd options p else [] := by
  have hmalformed : p.issues.filter (·.severity = .error) = [] := by
    rw [List.filter_eq_nil_iff]
    intro i hi
    simp [(Pass.kind_of_mem_issues hi).2]
  rw [Report.errors, survey_issues, List.filter_append, hmalformed, List.nil_append]
  split
  · rename_i hstrict
    rw [List.filter_eq_self]
    intro i hi
    simp [(Plan.kind_of_mem_issues hi).2, hstrict]
  · rename_i hstrict
    rw [List.filter_eq_nil_iff]
    intro i hi
    simp [(Plan.kind_of_mem_issues hi).2, hstrict]

/-- A run goes on to write unless it is a dry run, or a strict one with a problem of routing. -/
theorem writes_iff (cwd : Location) (options : Options) (p : Pass) :
    writes (survey cwd options p) = true ↔
      (options.strict = true → routing cwd options p = []) ∧ options.dryRun = false := by
  rw [writes, survey_errors]
  cases options.strict <;> simp [survey]

/-- Of what is reported, only what is found before writing is a problem of routing. -/
theorem exists_routing_iff (cwd : Location) (options : Options) (p : Pass) {later : List Issue}
    (hlater : ∀ i ∈ later, i.kind.isRouting = false) :
    (∃ i ∈ (survey cwd options p).issues ++ later, i.kind.isRouting = true) ↔
      routing cwd options p ≠ [] := by
  rw [survey_issues]
  constructor
  · rintro ⟨i, hi, hkind⟩ hnone
    rw [hnone, List.append_nil] at hi
    rcases List.mem_append.mp hi with hi | hi
    · rw [(Pass.kind_of_mem_issues hi).1] at hkind
      cases hkind
    · rw [hlater i hi] at hkind
      cases hkind
  · intro hsome
    obtain ⟨i, hi⟩ := List.exists_mem_of_ne_nil _ hsome
    exact ⟨i, List.mem_append_left later (List.mem_append_right p.issues hi),
      (Plan.kind_of_mem_issues hi).1⟩

/-! ## The three ways -/

/-- How a run over a text ends. -/
inductive Ran (registry : Registry) (d : Disk) (f : Flavor) (options : Options) (writerRoot : Path)
    (text : String) (s : Surroundings) : Disk × Except Abort Report → Prop where
  | aborted (a : Abort) : Ran registry d f options writerRoot text s (d, .error a)
  | withheld (p : Pass) (read : Pass.ofText registry f options.lenient text = .ok p)
    (unwritten : writes (survey d.cwd options p) = false) :
    Ran registry d f options writerRoot text s (d, .ok (survey d.cwd options p))
  | written (p : Pass) (d' : Disk) (results : List WriteResult)
    (read : Pass.ofText registry f options.lenient text = .ok p)
    (written : writes (survey d.cwd options p) = true)
    (attempts : Disk.Attempts s writerRoot d (survey d.cwd options p).plan.requests results d') :
    Ran registry d f options writerRoot text s (d', .ok { survey d.cwd options p with
      results
      issues := (survey d.cwd options p).issues ++
        (results.filterMap (·.error)).map Issue.ofWriteFailure })

/-- Writing a plan whose destinations files can have tries all of them, or ends before the first one
because of the root they are to be below. -/
theorem carryOut_ran (hread : Pass.ofText registry f options.lenient text = .ok p)
    (hwrites : writes (survey d.cwd options p) = true)
    (hnames : (survey d.cwd options p).plan.unnameable options.outputRoot = false) :
    Ran registry d f options writerRoot text s
      (carryOut d writerRoot (survey d.cwd options p) s) := by
  have hrequests : ∀ r ∈ (survey d.cwd options p).plan.requests,
      (Path.ofString r.destination).hasNul = false := by
    intro r hr
    obtain ⟨planned, hplanned, rfl⟩ := List.mem_map.mp hr
    have hname := List.any_eq_false.mp hnames planned hplanned
    simpa using (Bool.or_eq_false_iff.mp (by simpa using hname)).2
  by_cases hroot : writerRoot.hasNul = true
  · rw [carryOut]
    cases hplan : (survey d.cwd options p).plan.requests with
    | nil =>
      have hnone : Disk.Attempts s writerRoot d (survey d.cwd options p).plan.requests [] d := by
        rw [hplan]
        exact .nil d
      exact .written p d [] hread hwrites hnone
    | cons request requests =>
      simp only [Disk.writeAll, hroot, Bool.true_or, if_true]
      exact .aborted .unnameable
  · rw [Bool.not_eq_true] at hroot
    obtain ⟨hall, hattempts⟩ := Disk.writeAll_tries s d hroot hrequests
    rw [carryOut]
    simp only [hall, Bool.false_eq_true, if_false]
    exact .written p _ _ hread hwrites hattempts

theorem runText_ran (registry : Registry) (d : Disk) (f : Flavor) (options : Options)
    (writerRoot : Path) (text : String) (s : Surroundings) :
    Ran registry d f options writerRoot text s
      (runText registry d f options writerRoot text s) := by
  rw [runText]
  cases hread : Pass.ofText registry f options.lenient text with
  | error stop => exact .aborted (.stop stop)
  | ok p =>
    simp only
    split
    · exact .aborted .unnameable
    · rename_i hnames
      split
      · rename_i hwrites
        exact carryOut_ran hread hwrites (Bool.not_eq_true _ ▸ hnames)
      · rename_i hwrites
        exact .withheld p hread (Bool.not_eq_true _ ▸ hwrites)

/-! ## Coming to a report -/

/-- Writing a plan whose destinations files can have comes to a report. -/
theorem carryOut_ok {r : Report} (hroot : writerRoot.hasNul = false)
    (hnames : ∀ e ∈ r.plan.destinations, '\x00' ∉ e.destination.toList) :
    ∃ d' r', carryOut d writerRoot r s = (d', .ok r') := by
  have hrequests : ∀ request ∈ r.plan.requests,
      (Path.ofString request.destination).hasNul = false := by
    intro request hrequest
    obtain ⟨e, he, rfl⟩ := List.mem_map.mp hrequest
    exact Path.hasNul_ofString_eq_false_iff.mpr (hnames e he)
  rw [carryOut]
  simp only [(Disk.writeAll_tries s d hroot hrequests).1, Bool.false_eq_true, if_false]
  exact ⟨_, _, rfl⟩

/-- A run over a text that is read, to destinations that files can have, comes to a report. -/
theorem runText_ok {p : Pass} (hread : Pass.ofText registry f options.lenient text = .ok p)
    (hroot : options.outputRoot.hasNul = false) (hwriter : writerRoot.hasNul = false)
    (hnames : ∀ e ∈ (Plan.ofPass p options.tagFilter).destinations, '\x00' ∉ e.destination.toList) :
    ∃ d' r, runText registry d f options writerRoot text s = (d', .ok r) := by
  have hplan : (survey d.cwd options p).plan = Plan.ofPass p options.tagFilter := rfl
  have hnameable := (Plan.unnameable_eq_false_iff hroot).mpr hnames
  simp only [runText, hread, hplan, hnameable, Bool.false_eq_true, if_false]
  split
  · exact carryOut_ok hwriter hnames
  · exact ⟨_, _, rfl⟩

end Tangle

end Literate
