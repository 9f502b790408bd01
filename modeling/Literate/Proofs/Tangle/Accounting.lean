import Literate.Proofs.Pass.Declared
import Literate.Proofs.Tangle.Answer
import Literate.Tangle.Machine

/-!
# A report tells one story

A report has a plan, a list of issues and a list of results, and a program is told something of each. The
issues are those found in the document, those of routing, which the plan determines, and one for each result
that is a failure (`Ran.reported`). Destinations are planned once and declared where they are planned, so
what is found under a name is about that name: the counts of the plan agree with the issues, the issues
with whether the run went well, and each destination with its own result (`runText_consistent`).
-/

namespace Literate

/-! ## What is found under a name -/

/-- Where no two members have the same name, a member is found under its name. -/
theorem find?_of_nodup {α : Type} {name : α → String} {as : List α} (h : (as.map name).Nodup) {a : α}
    (ha : a ∈ as) : as.find? (name · == name a) = some a := by
  induction as with
  | nil => cases ha
  | cons b as ih =>
    obtain ⟨hb, h⟩ := List.nodup_cons.mp h
    rcases List.mem_cons.mp ha with rfl | ha
    · rw [List.find?_cons_of_pos (by simp)]
    · have hne : name b ≠ name a := fun heq => hb (heq ▸ List.mem_map_of_mem ha)
      rw [List.find?_cons_of_neg (by simpa using hne), ih h ha]

/-- Whether no operation for a destination belongs to the body. -/
def Plan.Bodiless (p : Plan) (name : String) : Prop :=
  ∀ e ∈ p.destinations, e.destination = name → ∀ o ∈ e.operations, o.role ≠ .body

theorem DestinationPlan.bodyCount_eq_zero {e : DestinationPlan} :
    e.bodyCount = 0 ↔ ∀ o ∈ e.operations, o.role ≠ .body := by
  simp [bodyCount, List.countP_eq_zero]

namespace Plan

variable {p : Plan} (h : (p.destinations.map (·.destination)).Nodup)
include h

theorem bodiless_iff {e : DestinationPlan} (he : e ∈ p.destinations) :
    p.Bodiless e.destination ↔ e.bodyCount = 0 := by
  rw [DestinationPlan.bodyCount_eq_zero]
  refine ⟨fun hbody => hbody e he rfl, fun hbody e' he' hname => ?_⟩
  rw [List.inj_on_of_nodup_map h he' he hname]
  exact hbody

theorem leavesEmpty_iff {name : String} : p.leavesEmpty name = true ↔ p.Bodiless name := by
  rw [leavesEmpty]
  cases hfind : p.find? name with
  | none =>
    refine iff_of_true rfl fun e he hname => ?_
    have hnone := List.find?_eq_none.mp hfind e he
    simp [hname] at hnone
  | some e =>
    obtain rfl : e.destination = name := by simpa using List.find?_some hfind
    rw [bodiless_iff h (List.mem_of_find?_eq_some hfind)]
    exact beq_iff_eq

end Plan

theorem IssueKind.name_inj {k k' : IssueKind} : k.name = k'.name ↔ k = k' := by
  cases k <;> cases k' <;> decide

theorem Severity.name_inj {s s' : Severity} : s.name = s'.name ↔ s = s' := by
  cases s <;> cases s' <;> decide

/-! ## Reports -/

/-- Whether what is told about a destination is what became of it. -/
structure DestinationEntry.Carries (e : DestinationEntry) (w : WriteResult) : Prop where
  destination : e.destination = w.destination
  path : e.path = some w.path.text
  bytesWritten : e.bytesWritten = some w.bytesWritten
  written : e.written = w.ok

/-- Whether nothing is told about a destination but what was planned. -/
structure DestinationEntry.Unwritten (e : DestinationEntry) : Prop where
  path : e.path = none
  bytesWritten : e.bytesWritten = none
  written : e.written = false

/-- A report that tells the same in its plan, its issues, its results and to a program. -/
structure Report.Consistent (r : Report) (strict : Bool) : Prop where
  planned : ∀ e ∈ r.plan.destinations, e.destination ∈ r.plan.declared
  declares : ∀ inner ∈ r.document.walk, inner.Declares
  nodup : r.plan.declared.Nodup
  unrouted : r.summary.unrouted =
    r.summary.issues.countP (·.kind = IssueKind.unresolvedDestination.name)
  bodiless_iff : ∀ e ∈ r.summary.destinations, e.bodyFragments = 0 ↔
    ∃ i ∈ r.summary.issues, i.kind = IssueKind.emptyDestination.name ∧
      i.destination = some e.destination
  empty_iff : ∀ name, (∃ i ∈ r.summary.issues, i.kind = IssueKind.emptyDestination.name ∧
    i.destination = some name) ↔ name ∈ r.plan.declared ∧ r.plan.Bodiless name
  empty_some : ∀ i ∈ r.summary.issues, i.kind = IssueKind.emptyDestination.name →
    i.destination.isSome
  empty_once : ((r.summary.issues.filter (·.kind = IssueKind.emptyDestination.name)).map
    (·.destination)).Nodup
  ok_iff_issues : r.summary.ok = true ↔ ∀ i ∈ r.summary.issues, i.severity ≠ Severity.error.name
  ok_iff_results : r.summary.ok = true ↔ (∀ w ∈ r.results, w.ok = true) ∧
    (strict = false ∨ ¬ r.Misroutes)
  unwritten : r.dryRun = true ∨ r.Fails →
    r.results = [] ∧ ∀ e ∈ r.summary.destinations, e.Unwritten
  written : r.dryRun = false → ¬ r.Fails →
    List.Forall₂ DestinationEntry.Carries r.summary.destinations r.results

namespace Report

variable {r : Report}

theorem filter_summary_issues (r : Report) (k : IssueKind) :
    r.summary.issues.filter (·.kind = k.name) =
      (r.issues.filter (·.kind = k)).map Issue.entry := by
  rw [summary, List.filter_map]
  congr 1
  refine List.filter_congr fun i _ => ?_
  simp [Issue.entry, IssueKind.name_inj]

theorem ok_iff : r.ok = true ↔ ∀ i ∈ r.issues, i.severity ≠ .error := by
  simp [ok, errors, List.filter_eq_nil_iff]

theorem unwritten_of_results (h : r.results = []) : ∀ e ∈ r.summary.destinations, e.Unwritten := by
  intro e he
  obtain ⟨p, -, rfl⟩ := List.mem_map.mp he
  have hnone : r.result? p.destination = none := by rw [result?, h, List.find?_nil]
  constructor <;> simp [entry, hnone]

/-- Where results come in the order of the plan, each destination is told its own. -/
theorem carries_of_results (hnodup : (r.plan.destinations.map (·.destination)).Nodup)
    (h : r.results.map (·.destination) = r.plan.destinations.map (·.destination)) :
    List.Forall₂ DestinationEntry.Carries r.summary.destinations r.results := by
  have hnames : List.Forall₂ Eq (r.plan.destinations.map (·.destination))
      (r.results.map (·.destination)) := h ▸ List.forall₂_refl _
  rw [List.forall₂_map_left_iff, List.forall₂_map_right_iff] at hnames
  obtain ⟨hlength, hzip⟩ := List.forall₂_iff_zip.mp hnames
  rw [summary, List.forall₂_map_left_iff]
  refine List.forall₂_iff_zip.mpr ⟨hlength, fun {p w} hmem => ?_⟩
  have hname := hzip hmem
  have hresult : r.result? p.destination = some w := by
    rw [hname]
    exact find?_of_nodup (h ▸ hnodup) (List.of_mem_zip hmem).2
  exact ⟨hname, by simp [entry, hresult], by simp [entry, hresult], by simp [entry, hresult]⟩

end Report

namespace Tangle

variable {registry : Registry} {d d' : Disk} {f : Flavor} {options : Options} {writerRoot : Path}
  {text : String} {s : Surroundings} {r : Report} {p : Pass} {results : List WriteResult}
  {cwd : Location}

/-- The report of a run over a document that had some results. -/
def reported (cwd : Location) (options : Options) (p : Pass) (results : List WriteResult) : Report :=
  { survey cwd options p with
    results
    issues := (survey cwd options p).issues ++ (results.filterMap (·.error)).map Issue.ofWriteFailure }

theorem Ran.reported (h : Ran registry d f options writerRoot text s (d', .ok r)) :
    ∃ p results, Pass.ofText registry f options.lenient text = .ok p ∧
      r = Tangle.reported d.cwd options p results := by
  cases h with
  | withheld p read unwritten =>
    refine ⟨p, [], read, ?_⟩
    rw [Tangle.reported, List.filterMap_nil, List.map_nil, List.append_nil]
    rfl
  | written p d' results read written attempts => exact ⟨p, results, read, rfl⟩

theorem Ran.results_of_dry (h : Ran registry d f options writerRoot text s (d', .ok r))
    (hdry : options.dryRun = true) : r.results = [] := by
  cases h with
  | withheld p read unwritten => rfl
  | written p d' results read written attempts =>
    have hwet := ((writes_iff d.cwd options p).mp written).2
    rw [hdry] at hwet
    cases hwet

/-- The issues of one kind of routing are those that the plan has. -/
theorem filter_reported_issues {k : IssueKind} (hk : k.isRouting = true) :
    (reported cwd options p results).issues.filter (·.kind = k) =
      (routing cwd options p).filter (·.kind = k) := by
  have hmalformed : p.issues.filter (·.kind = k) = [] := by
    rw [List.filter_eq_nil_iff]
    intro i hi hkind
    rw [← of_decide_eq_true hkind, (Pass.kind_of_mem_issues hi).1] at hk
    cases hk
  have hfailures : ((results.filterMap (·.error)).map Issue.ofWriteFailure).filter (·.kind = k) = [] := by
    rw [List.filter_eq_nil_iff]
    intro i hi hkind
    obtain ⟨failure, -, rfl⟩ := List.mem_map.mp hi
    rw [← of_decide_eq_true hkind] at hk
    cases hk
  rw [reported, survey_issues, List.filter_append, List.filter_append, hmalformed, hfailures,
    List.nil_append, List.append_nil]

theorem filter_routing_unresolved : (routing cwd options p).filter (·.kind = .unresolvedDestination) =
    (Plan.ofPass p options.tagFilter).unrouted.map
      (Issue.ofUnrouted (if options.strict then .error else .warning)) := by
  simp [routing, Plan.issues, List.filter_append, List.filter_map, Function.comp_def,
    Issue.ofUnrouted, Issue.ofEmpty, Issue.ofOutside]

theorem filter_routing_empty : (routing cwd options p).filter (·.kind = .emptyDestination) =
    ((Plan.ofPass p options.tagFilter).declared.filter
      (Plan.ofPass p options.tagFilter).leavesEmpty).map
      (Issue.ofEmpty (if options.strict then .error else .warning)) := by
  simp [routing, Plan.issues, List.filter_append, List.filter_map, Function.comp_def,
    Issue.ofUnrouted, Issue.ofEmpty, Issue.ofOutside]

/-- A run goes well unless it is strict and has a problem of routing, or something cannot be written. -/
theorem reported_ok : (reported cwd options p results).ok = true ↔
    (∀ w ∈ results, w.ok = true) ∧ (options.strict = true → routing cwd options p = []) := by
  have hfailures : ((results.filterMap (·.error)).map Issue.ofWriteFailure).filter
      (·.severity = .error) = (results.filterMap (·.error)).map Issue.ofWriteFailure := by
    rw [List.filter_eq_self]
    intro i hi
    obtain ⟨failure, -, rfl⟩ := List.mem_map.mp hi
    rfl
  have herrors : (reported cwd options p results).errors =
      (if options.strict then routing cwd options p else []) ++
        (results.filterMap (·.error)).map Issue.ofWriteFailure := by
    rw [Report.errors, reported, List.filter_append, hfailures, ← survey_errors]
    rfl
  rw [Report.ok, herrors, List.isEmpty_iff, List.append_eq_nil_iff, List.map_eq_nil_iff,
    List.filterMap_eq_nil_iff, and_comm]
  refine and_congr ?_ ?_
  · simp [WriteResult.ok]
  · cases options.strict <;> simp

theorem reported_misroutes :
    (reported cwd options p results).Misroutes ↔ routing cwd options p ≠ [] := by
  refine exists_routing_iff cwd options p fun i hi => ?_
  obtain ⟨failure, -, rfl⟩ := List.mem_map.mp hi
  rfl

/-- A destination without a body is named by one issue, if it is declared. -/
theorem reported_empty : (reported cwd options p results).summary.issues.filter
      (·.kind = IssueKind.emptyDestination.name) =
    ((Plan.ofPass p options.tagFilter).declared.filter
      (Plan.ofPass p options.tagFilter).leavesEmpty).map fun name =>
        (Issue.ofEmpty (if options.strict then .error else .warning) name).entry := by
  rw [Report.filter_summary_issues, filter_reported_issues rfl, filter_routing_empty, List.map_map]
  rfl

theorem mem_reported_empty {i : IssueEntry} :
    i ∈ (reported cwd options p results).summary.issues ∧
        i.kind = IssueKind.emptyDestination.name ↔
      ∃ name, (name ∈ (Plan.ofPass p options.tagFilter).declared ∧
        (Plan.ofPass p options.tagFilter).Bodiless name) ∧
        (Issue.ofEmpty (if options.strict then .error else .warning) name).entry = i := by
  have hmem : i ∈ (reported cwd options p results).summary.issues.filter
      (·.kind = IssueKind.emptyDestination.name) ↔
        i ∈ (reported cwd options p results).summary.issues ∧
          i.kind = IssueKind.emptyDestination.name := by
    rw [List.mem_filter, decide_eq_true_iff]
  rw [← hmem, reported_empty, List.mem_map]
  refine exists_congr fun name => ?_
  rw [List.mem_filter, Plan.leavesEmpty_iff (Plan.nodup_destinations p options.tagFilter)]

theorem reported_empty_iff (name : String) :
    (∃ i ∈ (reported cwd options p results).summary.issues,
      i.kind = IssueKind.emptyDestination.name ∧ i.destination = some name) ↔
      name ∈ (Plan.ofPass p options.tagFilter).declared ∧
        (Plan.ofPass p options.tagFilter).Bodiless name := by
  constructor
  · rintro ⟨i, hi, hkind, hname⟩
    obtain ⟨name', hname', rfl⟩ := mem_reported_empty.mp ⟨hi, hkind⟩
    obtain rfl : name' = name := Option.some.inj hname
    exact hname'
  · intro hname
    obtain ⟨hi, hkind⟩ := mem_reported_empty.mpr ⟨name, hname, rfl⟩
    exact ⟨_, hi, hkind, rfl⟩

/-- A report is consistent if it has the results that it is to have. -/
theorem reported_consistent (h : ∀ inner ∈ p.walk, inner.Declares)
    (hunwritten : options.dryRun = true ∨ (reported cwd options p results).Fails → results = [])
    (hwritten : options.dryRun = false → ¬ (reported cwd options p results).Fails →
      results.map (·.destination) =
        (Plan.ofPass p options.tagFilter).destinations.map (·.destination)) :
    (reported cwd options p results).Consistent options.strict := by
  have hnodup := Plan.nodup_destinations p options.tagFilter
  have hdeclared : (Plan.ofPass p options.tagFilter).declared.Nodup := Plan.nodup_distinct _
  constructor
  case planned => exact fun e => Plan.mem_declared h
  case declares => exact h
  case nodup => exact hdeclared
  case unrouted =>
    rw [List.countP_eq_length_filter, Report.filter_summary_issues, filter_reported_issues rfl,
      filter_routing_unresolved, List.length_map, List.length_map]
    rfl
  case bodiless_iff =>
    intro e he
    obtain ⟨planned, hplanned, rfl⟩ := List.mem_map.mp he
    -- what is planned is declared, so nothing but its body decides
    refine (Plan.bodiless_iff hnodup hplanned).symm.trans ?_
    refine Iff.trans ?_ (reported_empty_iff planned.destination).symm
    exact (and_iff_right (Plan.mem_declared h hplanned)).symm
  case empty_iff => exact reported_empty_iff
  case empty_some =>
    intro i hi hkind
    obtain ⟨name, -, rfl⟩ := mem_reported_empty.mp ⟨hi, hkind⟩
    rfl
  case empty_once =>
    rw [reported_empty, List.map_map]
    exact (hdeclared.filter _).map fun _ _ => Option.some.inj
  case ok_iff_issues =>
    refine Report.ok_iff.trans ?_
    simp [Report.summary, Issue.entry, Severity.name_inj]
  case ok_iff_results =>
    refine reported_ok.trans (and_congr Iff.rfl ?_)
    rw [reported_misroutes]
    cases options.strict <;> simp
  case unwritten => exact fun hdry => ⟨hunwritten hdry, Report.unwritten_of_results (hunwritten hdry)⟩
  case written => exact fun hwet hfine => Report.carries_of_results hnodup (hwritten hwet hfine)

/-- Whatever a run over a text comes to: if it comes to a report, the report tells the same in its plan, its
issues, its results and to a program. -/
theorem runText_consistent {registry : Registry} {d d' : Disk} {f : Flavor} {options : Options}
    {writerRoot : Path} {text : String} {s : Surroundings} {r : Report}
    (h : runText registry d f options writerRoot text s = (d', .ok r)) :
    r.dryRun = options.dryRun ∧ r.Consistent options.strict := by
  have hran := runText_ran registry d f options writerRoot text s
  rw [h] at hran
  obtain ⟨p, results, hread, rfl⟩ := hran.reported
  refine ⟨rfl, reported_consistent (fun inner => Pass.declares_of_mem_walk hread) ?_ ?_⟩
  · rintro (hdry | hfails)
    · exact hran.results_of_dry hdry
    · cases hdry : options.dryRun with
      | true => exact hran.results_of_dry hdry
      | false =>
        rcases hran.tries hdry with ⟨-, hnone⟩ | ⟨hfine, -⟩
        · exact hnone
        · exact absurd hfails hfine
  · intro hwet hfine
    rcases hran.tries hwet with ⟨hfails, -⟩ | ⟨-, hnames⟩
    · exact absurd hfails hfine
    · exact hnames

/-- A run over a destination below a file, which cannot be written. -/
theorem runText_consistent_logged :
    let text := "<?btxt filename='log/a' ?>\n```\nx\n```\n"
    ∃ d' r, runText .builtin .logged .github Options.default .here text .usual = (d', .ok r) ∧
      r.dryRun = false ∧ r.Consistent false := by
  intro text
  have hweavable : ∀ s ∈ [Snippet.mk "log/a" "x\n"], s.Weavable := by decide +kernel
  obtain ⟨t, hread, ht⟩ := Snippet.ofText_collects .builtin Options.default.lenient hweavable
  have hdestinations := (ht.restored "github").destinations
  have hroot : Options.default.outputRoot.hasNul = false := rfl
  have hwriter : Path.here.hasNul = false := rfl
  obtain ⟨d', r, hrun⟩ := runText_ok (d := .logged) (s := .usual) hread hroot hwriter
    (Plan.forall_nameable hdestinations (by decide))
  exact ⟨d', r, hrun, runText_consistent hrun⟩

end Tangle

end Literate
