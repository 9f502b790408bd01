import Literate.Proofs.Pass.Safety
import Literate.Proofs.Plan.Weaving
import Literate.Proofs.Tangle.Strictness

/-!
# What a run answers

A run over a text gives a report or, if it is not lenient, stops at a malformed directive. One thing
comes between: a directive can name a destination with a character that no path can have, and a run that
is to write to such a destination ends without an answer (`runText_answers`, `runText_unanswered`).

A report of a run that was to write has one result for each destination, and says of each one that
failed why it did (`Report.Accounts`).
-/

namespace Literate

theorem Plan.nodup_destinations (p : Pass) (filter : Option String) :
    ((ofPass p filter).destinations.map (·.destination)).Nodup := by
  rw [ofPass, ofFragments, List.map_map]
  have hnames : ((·.destination) ∘ forDestination
      ((p.walk.flatMap (·.fragments)).filter (keeps filter))) = id := rfl
  rw [hnames, List.map_id]
  exact nodup_distinct _

/-! ## Results -/

namespace Disk

variable {s : Surroundings} {root : Path} {d d' : Disk} {request : WriteRequest}
  {requests : List WriteRequest} {result : WriteResult} {results : List WriteResult}

/-- A failure says which destination it is about. -/
theorem Attempt.failure (h : Attempt s root d request result d') (hok : result.ok = false) :
    ∃ e, result.error = some e ∧ e.destination = result.destination ∧ e.path = result.path := by
  have htried := h.tried
  rw [flush] at htried
  split at htried
  · cases htried
    cases hok
  · cases htried
    exact ⟨_, rfl, rfl, rfl⟩

theorem Attempts.failure (h : Attempts s root d requests results d') :
    ∀ result ∈ results, result.ok = false →
      ∃ e, result.error = some e ∧ e.destination = result.destination ∧ e.path = result.path := by
  induction h with
  | nil => exact List.forall_mem_nil _
  | cons first rest ih =>
    rw [List.forall_mem_cons]
    exact ⟨first.failure, ih⟩

end Disk

/-- A report accounts for all that was to be written. -/
structure Report.Accounts (r : Report) : Prop where
  destinations : r.results.map (·.destination) = r.plan.destinations.map (·.destination)
  nodup : (r.plan.destinations.map (·.destination)).Nodup
  failed : ∀ result ∈ r.results, result.ok = false →
    ∃ e, result.error = some e ∧ e.destination = result.destination ∧ e.path = result.path
  issues : r.issues.filter (·.kind = .writeFailure) =
    (r.results.filterMap (·.error)).map Issue.ofWriteFailure

namespace Tangle

variable {registry : Registry} {d : Disk} {f : Flavor} {options : Options} {writerRoot : Path}
  {text : String} {s : Surroundings} {out : Disk × Except Abort Report}

/-- What a run may end with: a report, or a malformed directive if it is not lenient. -/
def Answers (lenient : Bool) (result : Except Abort Report) : Prop :=
  (∃ r, result = .ok r) ∨ lenient = false ∧ ∃ fault, result = .error (.stop (.malformed fault))

/-- What is found before writing is not about a failure to write. -/
theorem survey_kind {cwd : Location} {p : Pass} {i : Issue}
    (hi : i ∈ (survey cwd options p).issues) : i.kind ≠ .writeFailure := by
  intro hkind
  rw [survey_issues] at hi
  rcases List.mem_append.mp hi with hi | hi
  · rw [(Pass.kind_of_mem_issues hi).1] at hkind
    cases hkind
  · have hrouting := (Plan.kind_of_mem_issues hi).1
    rw [hkind] at hrouting
    cases hrouting

/-- Any error that is found before writing is one of routing. -/
theorem survey_misroutes {cwd : Location} {p : Pass} {i : Issue}
    (hi : i ∈ (survey cwd options p).errors) :
    i ∈ (survey cwd options p).issues ∧ i.kind.isRouting = true ∧ i.severity = .error := by
  have hrouting := hi
  rw [survey_errors] at hrouting
  obtain ⟨hi, hseverity⟩ := List.mem_filter.mp hi
  refine ⟨hi, ?_, of_decide_eq_true hseverity⟩
  split at hrouting
  · exact (Plan.kind_of_mem_issues hrouting).1
  · cases hrouting

/-- What is no dry run and is not written has an error of routing. -/
theorem survey_unwritten {cwd : Location} {p : Pass} (hwet : options.dryRun = false)
    (h : writes (survey cwd options p) = false) :
    ∃ i ∈ (survey cwd options p).issues, i.kind.isRouting = true ∧ i.severity = .error := by
  have herrors : (survey cwd options p).errors ≠ [] := by
    intro hnone
    rw [writes, hnone] at h
    simp [survey, hwet] at h
  obtain ⟨i, hi⟩ := List.exists_mem_of_ne_nil _ herrors
  exact ⟨i, survey_misroutes hi⟩

theorem Ran.accounts {d' : Disk} {r : Report}
    (h : Ran registry d f options writerRoot text s (d', .ok r))
    (hroutes : ∀ i ∈ r.issues, i.kind.isRouting = true → i.severity = .warning)
    (hwet : options.dryRun = false) : r.Accounts := by
  cases h with
  | withheld p read unwritten =>
    obtain ⟨i, hi, hrouting, hseverity⟩ := survey_unwritten hwet unwritten
    rw [hroutes i hi hrouting] at hseverity
    cases hseverity
  | written p d' results read written attempts =>
    refine ⟨?_, Plan.nodup_destinations p options.tagFilter, attempts.failure, ?_⟩
    · exact attempts.destinations.trans (Plan.requests_destinations _)
    · have hsurvey : (survey d.cwd options p).issues.filter (·.kind = .writeFailure) = [] := by
        rw [List.filter_eq_nil_iff]
        intro i hi
        simpa using survey_kind hi
      have hfailures : ((results.filterMap (·.error)).map Issue.ofWriteFailure).filter
          (·.kind = .writeFailure) = (results.filterMap (·.error)).map Issue.ofWriteFailure := by
        rw [List.filter_eq_self]
        intro i hi
        obtain ⟨failure, -, rfl⟩ := List.mem_map.mp hi
        rfl
      rw [List.filter_append, hsurvey, hfailures, List.nil_append]

/-- Whatever becomes of a run, its report is about the plan for the document. -/
theorem Ran.plan {d' : Disk} {r : Report}
    (h : Ran registry d f options writerRoot text s (d', .ok r)) :
    ∃ p, Pass.ofText registry f options.lenient text = .ok p ∧
      r.plan = Plan.ofPass p options.tagFilter ∧ r.dryRun = options.dryRun := by
  cases h with
  | withheld p read unwritten => exact ⟨p, read, rfl, rfl⟩
  | written p d' results read written attempts => exact ⟨p, read, rfl, rfl⟩

/-- A run that is no dry run has an error and tries nothing, or it has none and tries all destinations of
its plan. -/
theorem Ran.tries {d' : Disk} {r : Report}
    (h : Ran registry d f options writerRoot text s (d', .ok r)) (hwet : options.dryRun = false) :
    r.Fails ∧ r.results = [] ∨
      ¬ r.Fails ∧ r.results.map (·.destination) = r.plan.destinations.map (·.destination) := by
  cases h with
  | withheld p read unwritten =>
    obtain ⟨i, hi, -, hseverity⟩ := survey_unwritten hwet unwritten
    exact Or.inl ⟨⟨i, hi, survey_kind hi, hseverity⟩, rfl⟩
  | written p d' results read written attempts =>
    refine Or.inr ⟨?_, ?_⟩
    · rintro ⟨i, hi, hkind, hseverity⟩
      rcases List.mem_append.mp hi with hi | hi
      · have herrors := List.isEmpty_iff.mp (Bool.and_eq_true_iff.mp written).1
        exact List.filter_eq_nil_iff.mp herrors i hi (decide_eq_true hseverity)
      · obtain ⟨failure, -, rfl⟩ := List.mem_map.mp hi
        exact hkind rfl
    · exact attempts.destinations.trans (Plan.requests_destinations _)

/-! ## Coming to an answer -/

/-- Only a malformed directive stops a pass, and only one that is not lenient. -/
theorem ofText_error {lenient : Bool} {stop : Stop} (hf : f = .github ∨ f = .inner)
    (h : Pass.ofText .builtin f lenient text = .error stop) :
    lenient = false ∧ ∃ fault, stop = .malformed fault := by
  obtain ⟨p, hlenient, -, hfatal⟩ := ofText_eq (Registry.complete_of_builtin hf) text
  cases lenient with
  | true =>
    rw [hlenient] at h
    cases h
  | false =>
    refine ⟨rfl, ?_⟩
    rw [hfatal] at h
    cases hfaults : Document.faults .builtin f text with
    | nil =>
      rw [hfaults] at h
      cases h
    | cons fault later =>
      rw [hfaults] at h
      cases h
      exact ⟨fault, rfl⟩

/-- A run comes to an answer if and only if each destination of its plan is one that a file can have. -/
theorem answers_iff (hf : f = .github ∨ f = .inner) (d : Disk) (options : Options) (text : String)
    (s : Surroundings) (hroot : options.outputRoot.hasNul = false)
    (hwriter : writerRoot.hasNul = false) :
    Answers options.lenient (runText .builtin d f options writerRoot text s).2 ↔
      ∀ p, Pass.ofText .builtin f options.lenient text = .ok p →
        ∀ e ∈ (Plan.ofPass p options.tagFilter).destinations, '\x00' ∉ e.destination.toList := by
  cases hread : Pass.ofText .builtin f options.lenient text with
  | error stop =>
    obtain ⟨hfatal, fault, rfl⟩ := ofText_error hf hread
    refine iff_of_true (Or.inr ⟨hfatal, fault, ?_⟩) nofun
    rw [runText, hread]
  | ok p =>
    simp only [Except.ok.injEq, forall_eq']
    by_cases hnames : ∀ e ∈ (Plan.ofPass p options.tagFilter).destinations,
        '\x00' ∉ e.destination.toList
    · obtain ⟨d', r, hr⟩ := runText_ok (d := d) (s := s) hread hroot hwriter hnames
      rw [hr]
      exact iff_of_true (Or.inl ⟨r, rfl⟩) hnames
    · refine iff_of_false ?_ hnames
      have hplan : (survey d.cwd options p).plan = Plan.ofPass p options.tagFilter := rfl
      rw [← Plan.unnameable_eq_false_iff hroot, Bool.not_eq_false] at hnames
      rw [runText, hread]
      simp only [hplan, hnames, if_true]
      rintro (⟨r, hr⟩ | ⟨-, fault, hfault⟩)
      · cases hr
      · cases hfault

/-- A run gives a report or stops at a malformed directive, unless it is to write to a destination that no
file can have. The report of a run that was to write accounts for all destinations of the plan. -/
theorem runText_answers (hf : f = .github ∨ f = .inner) (d : Disk) (options : Options)
    (text : String) (s : Surroundings) (hroot : options.outputRoot.hasNul = false)
    (hwriter : writerRoot.hasNul = false) :
    let run := runText .builtin d f options writerRoot text s
    (Answers options.lenient run.2 ↔
      ∀ p, Pass.ofText .builtin f options.lenient text = .ok p →
        ∀ e ∈ (Plan.ofPass p options.tagFilter).destinations, '\x00' ∉ e.destination.toList) ∧
      ∀ r, run.2 = .ok r →
        (∀ i ∈ r.issues, i.kind.isRouting = true → i.severity = .warning) →
        options.dryRun = false → r.Accounts := by
  intro run
  refine ⟨answers_iff hf d options text s hroot hwriter, ?_⟩
  intro r hr
  have hran : Ran .builtin d f options writerRoot text s (run.1, .ok r) := by
    rw [← hr]
    exact runText_ran ..
  exact hran.accounts

/-- Below a file nothing can be written, and an odd character in a name does no harm. -/
theorem runText_answers_logged :
    let text := "<?btxt filename='log/a\x07b' ?>\n```\nx\n```\n"
    let run := runText .builtin .logged .github Options.default .here text .usual
    (Flavor.github = .github ∨ Flavor.github = .inner) ∧
      Options.default.outputRoot.hasNul = false ∧ Path.here.hasNul = false ∧
      Options.default.dryRun = false ∧ Answers Options.default.lenient run.2 ∧
      ∀ r, run.2 = .ok r →
        (∀ i ∈ r.issues, i.kind.isRouting = true → i.severity = .warning) → r.Accounts := by
  intro text run
  have hweavable : ∀ s ∈ [Snippet.mk "log/a\x07b" "x\n"], s.Weavable := by decide +kernel
  obtain ⟨t, hread, ht⟩ := Snippet.ofText_collects .builtin Options.default.lenient hweavable
  have hdestinations := (ht.restored "github").destinations
  have hf : Flavor.github = .github ∨ Flavor.github = .inner := Or.inl rfl
  have hroot : Options.default.outputRoot.hasNul = false := rfl
  have hwriter : Path.here.hasNul = false := rfl
  obtain ⟨hanswers, haccounts⟩ := runText_answers hf .logged Options.default text .usual hroot hwriter
  refine ⟨hf, hroot, hwriter, rfl, hanswers.mpr ?_, fun r hr hroutes => haccounts r hr hroutes rfl⟩
  intro p hp
  obtain rfl : t.finish "github" = p := Except.ok.inj (hread.symm.trans hp)
  exact Plan.forall_nameable hdestinations (by decide)

/-- A name that no file can have is a destination like any other to a directive, and yet the run that is
to write to it has no answer. -/
theorem runText_unanswered :
    let text := "<?btxt filename='a\x00b' ?>\n```\nx\n```\n"
    Disk.logged.stat Options.default.outputRoot = .ok (.directory Disk.directoryMode) ∧
      ¬ Answers Options.default.lenient
        (runText .builtin .logged .github Options.default Options.default.outputRoot text .usual).2 := by
  intro text
  have hweavable : ∀ s ∈ [Snippet.mk "a\x00b" "x\n"], s.Weavable := by decide +kernel
  obtain ⟨t, hread, ht⟩ := Snippet.ofText_collects .builtin Options.default.lenient hweavable
  have hdestinations := (ht.restored "github").destinations
  refine ⟨rfl, ?_⟩
  rw [answers_iff (Or.inl rfl) .logged Options.default text .usual rfl rfl]
  intro hnames
  have hmem : "a\x00b" ∈ (Plan.ofPass (t.finish "github") none).destinations.map (·.destination) := by
    rw [hdestinations]
    exact List.mem_singleton_self _
  obtain ⟨e, he, hname⟩ := List.mem_map.mp hmem
  refine hnames _ hread e he ?_
  rw [hname]
  decide

end Tangle

end Literate
