import Literate.Command.Footprint
import Literate.Proofs.Tangle.Answer
import Literate.Proofs.Tangle.Strictness

/-!
# What a dry run announces

A run and the same run with the option for dry runs read the same document with the same options, but for
the one, and so have the same plan (`Reports.same_plan`). The dry run prints a line for each destination
of the plan. The other one tries all of them, unless an error of routing keeps it from writing: so the
lines are about what it tries unless there is such an error (`dryRun_announces`). A strict run can have
one, and then the dry run announces what will not be tried (`strict_dryRun_announces`).

Lines are compared as they are printed, without the control sequences that a terminal would obey.
-/

namespace Literate

open Text (printed)

namespace Command

/-! ## One more option -/

/-- One more option at the end of the arguments is given last, or it is one more operand if dashes have
ended the options. -/
theorem parse_concat {specs : List OptionSpec} {args : List String} {p : Parsed} {word : String}
    {g : Given} (h : parse specs false args = some p)
    (hword : parse specs false [word] = some ⟨[g], []⟩) :
    parse specs false (args ++ [word]) = some { p with given := p.given ++ [g] } ∨
      parse specs false (args ++ [word]) = some { p with operands := p.operands ++ [word] } := by
  fun_induction parse specs false args generalizing p with
  | case1 =>
    cases h
    exact Or.inl hword
  | case2 arg rest cs =>
    rename_i hdashes
    cases h
    right
    rw [List.cons_append, parse]
    exact if_pos hdashes
  | case3 => cases h
  | case4 arg rest cs =>
    rename_i hdashes hdash given hoption ih
    obtain ⟨q, hq, rfl⟩ := Option.map_eq_some_iff.mp h
    rw [List.cons_append, parse]
    simp only [cs] at hdashes hdash hoption
    rw [if_neg hdashes, if_pos hdash, hoption]
    rcases ih hq with hparse | hparse
    · left
      simp only [hparse, Option.map_some, List.append_assoc]
    · right
      simp only [hparse, Option.map_some]
  | case5 => cases h
  | case6 arg cs =>
    rename_i hdashes hdash given name hoption value rest ih
    obtain ⟨q, hq, rfl⟩ := Option.map_eq_some_iff.mp h
    rw [List.cons_append, parse]
    simp only [cs] at hdashes hdash hoption
    rw [if_neg hdashes, if_pos hdash, hoption]
    rcases ih hq with hparse | hparse
    · left
      simp only [List.cons_append, hparse, Option.map_some, List.append_assoc]
    · right
      simp only [List.cons_append, hparse, Option.map_some]
  | case7 => contradiction
  | case8 arg rest cs =>
    rename_i hdashes hdash _ ih
    obtain ⟨q, hq, rfl⟩ := Option.map_eq_some_iff.mp h
    rw [List.cons_append, parse]
    simp only [cs] at hdashes hdash
    rw [if_neg hdashes, if_neg hdash, if_neg Bool.false_ne_true]
    rcases ih hq with hparse | hparse
    · left
      simp only [hparse, Option.map_some]
    · right
      simp only [hparse, Option.map_some, List.cons_append]

namespace Parsed

variable {p : Parsed} {g : Given} {operands : List String} {name : String}

theorem last?_concat (h : g.name ≠ name) :
    (⟨p.given ++ [g], operands⟩ : Parsed).last? name = p.last? name := by
  simp [last?, h]

theorem choice?_concat {yes no : String} (hyes : g.name ≠ yes) (hno : g.name ≠ no) :
    (⟨p.given ++ [g], operands⟩ : Parsed).choice? yes no = p.choice? yes no := by
  simp [choice?, hyes, hno]

theorem has_concat :
    (⟨p.given ++ [g], operands⟩ : Parsed).has name = (p.has name || g.name == name) := by
  simp [has]

end Parsed

/-- Arguments of a run with the option for dry runs behind them are those of the dry run. -/
theorem parseTangle_dryRun {args : List String} {a a' : TangleArgs}
    (h : parseTangle args = some a) (h' : parseTangle (args ++ ["--dry-run"]) = some a') :
    a' = { a with dryRun := true } := by
  have hword : parse tangleOptions false ["--dry-run"] = some ⟨[⟨"dry-run", ""⟩], []⟩ := by
    rw [parse]
    simp only [parse]
    rfl
  obtain ⟨p, hp, ha⟩ := Option.bind_eq_some_iff.mp h
  obtain ⟨p', hp', ha'⟩ := Option.bind_eq_some_iff.mp h'
  cases hoperands : p.operands with
  | nil =>
    rw [hoperands] at ha
    cases ha
  | cons file more =>
    rw [hoperands] at ha
    cases more with
    | cons other more => cases ha
    | nil =>
      rcases parse_concat hp hword with hparse | hparse
      · obtain rfl := Option.some.inj (hp'.symm.trans hparse)
        simp only [hoperands] at ha'
        cases ha
        cases ha'
        simp (disch := decide) [Parsed.last?_concat, Parsed.choice?_concat, Parsed.has_concat]
      · -- the option would be a second operand
        obtain rfl := Option.some.inj (hp'.symm.trans hparse)
        simp only [hoperands] at ha'
        cases ha'

/-! ## One more setting -/

end Command

namespace Settings

/-- A name without an explicit value has the value of the file. -/
theorem lookup_overlay {explicit defaults : Settings} {name : String}
    (h : ∀ e ∈ explicit, e.1 = name → e.2 = .null) :
    (overlay explicit defaults).lookup name = defaults.lookup name := by
  induction explicit generalizing defaults with
  | nil => rfl
  | cons e explicit ih =>
    have hrest : ∀ e ∈ explicit, e.1 = name → e.2 = .null :=
      fun e he => h e (List.mem_cons_of_mem _ he)
    have hfirst := h e List.mem_cons_self
    rw [overlay, List.foldl_cons, ← overlay, ih hrest]
    split
    · rfl
    · rename_i hvalue
      refine Entries.lookup_put_of_ne ?_ _ _
      rintro rfl
      exact hvalue (hfirst rfl)

/-- Switching on dry runs changes no other option. -/
theorem options_dryRun {s : Settings} {root : Path} {o o' : Options} (h : options s root = .ok o)
    (h' : options (Entries.put "dry_run" (.flag true) s) root = .ok o') :
    o' = { o with dryRun := true } := by
  have hother : ∀ name ≠ "dry_run",
      (Entries.put "dry_run" (.flag true) s).lookup name = s.lookup name :=
    fun name hne => Entries.lookup_put_of_ne hne _ _
  have hself := Entries.lookup_put_self "dry_run" (Datum.flag true) s
  rw [options] at h h'
  split at h
  · split at h'
    · cases h
      cases h'
      simp (disch := decide) only [text?, on, hother, hself]
      rfl
    · cases h'
  · cases h

end Settings

namespace Command

theorem overlay_settings {a : TangleArgs} (h : a.dryRun = false) (d : Disk) (defaults : Settings) :
    Settings.overlay (({ a with dryRun := true } : TangleArgs).settings d) defaults =
      Entries.put "dry_run" (.flag true) (Settings.overlay (a.settings d) defaults) := by
  simp only [TangleArgs.settings, h, Settings.overlay]
  rfl

/-- The directory from which the output directory of a settings file is taken. -/
def settingsRoot (d : Disk) (config : Option String) : Path :=
  match config with
  | some file => (Path.ofString file).parent
  | none => Path.ofLocation d.cwd

/-- Options come from the settings file of the task and the arguments. -/
theorem resolve_ok {d : Disk} {config : Option String} {explicit : Settings} {x : Resolved}
    (h : resolve d config explicit = .ok x) :
    ∃ loaded, Settings.load d (settingsPath d config) = .ok loaded ∧
      Settings.options (Settings.overlay explicit loaded.settings) (settingsRoot d config) =
        .ok x.options := by
  unfold resolve Except.map at h
  simp only at h
  split at h
  · cases h
  · rename_i loaded hloaded
    split at h
    · cases h
    · rename_i options hoptions
      cases h
      refine ⟨loaded, ?_, ?_⟩
      · rw [← hloaded]
        cases config <;> rfl
      · rw [← hoptions]
        cases config <;> rfl

/-- Without a word on dry runs in the arguments or in the settings file, a run is none. With the option
for dry runs it is one, and nothing else about it changes. -/
theorem resolve_dryRun {d : Disk} {a : TangleArgs} {x x' : Resolved} (hargs : a.dryRun = false)
    (hfile : ∀ loaded, Settings.load d (settingsPath d a.config) = .ok loaded →
      loaded.settings.lookup "dry_run" = none)
    (h : resolve d a.config (a.settings d) = .ok x)
    (h' : resolve d a.config (({ a with dryRun := true } : TangleArgs).settings d) = .ok x') :
    x.options.dryRun = false ∧ x'.options = { x.options with dryRun := true } := by
  obtain ⟨loaded, hloaded, hoptions⟩ := resolve_ok h
  obtain ⟨loaded', hloaded', hoptions'⟩ := resolve_ok h'
  obtain rfl := Except.ok.inj (hloaded.symm.trans hloaded')
  rw [overlay_settings hargs] at hoptions'
  refine ⟨?_, Settings.options_dryRun hoptions hoptions'⟩
  have hlookup : (Settings.overlay (a.settings d) loaded.settings).lookup "dry_run" = none := by
    rw [Settings.lookup_overlay, hfile loaded hloaded]
    intro e he hname
    simp only [TangleArgs.settings, hargs, List.mem_cons, List.not_mem_nil, or_false] at he
    rcases he with rfl | rfl | rfl | rfl | rfl | rfl
    all_goals first | rfl | exact absurd hname (by simp)
  rw [Settings.options] at hoptions
  split at hoptions
  · obtain hoptions := Except.ok.inj hoptions
    rw [← hoptions]
    simp only [Settings.on, hlookup]
    rfl
  · cases hoptions

/-! ## Getting as far as a report -/

/-- The arguments of a run that comes to a report, and the disk as it is then. -/
inductive Reports (r : Registry) (d : Disk) (args : List String) : TangleArgs → Disk → Report → Prop
  | intro {a : TangleArgs} {x : Resolved} {d' : Disk} {report : Report} {there : Bool}
    (parsed : parseTangle args = some a)
    (paths : (namesFile d a.file && namePaths d [a.output, a.config, a.report]) = true)
    (asked : flavorComplaint? r a.flavor = none)
    (resolved : resolve d a.config (a.settings d) = .ok x)
    (known : flavorComplaint? r x.options.flavorId = none)
    (found : d.existsAt x.options.outputRoot = .ok there)
    (root : d.isDirectory x.options.outputRoot = true)
    (ran : Tangle.runFile r d x.options x.options.outputRoot (.ofString a.file) = (d', .ok report)) :
    Reports r d args a d' report

/-- The report that a run comes to is printed. -/
theorem Reports.run_eq {r : Registry} {d d' : Disk} {args : List String} {a : TangleArgs}
    {report : Report} (h : Reports r d args a d' report) :
    ∃ log, run r d ("tangle" :: args) = (present d' a report).after log := by
  cases h with
  | intro parsed paths asked resolved known found root ran =>
    rename_i x there
    obtain ⟨options, warnings⟩ := x
    have hparse : parse globalOptions true ("tangle" :: args) = some ⟨[], "tangle" :: args⟩ := by
      rw [parse]
      rfl
    have hinvocation : parseInvocation ("tangle" :: args) = some ⟨false, .tangle a⟩ := by
      rw [parseInvocation, hparse]
      simp only [Option.bind_some, parseTask, if_pos, parsed, Option.map_some]
      rfl
    rw [run, hinvocation]
    simp only [tangle, paths, asked, resolved, known, found, root, carryOut, ran, Bool.not_true,
      Bool.false_eq_true, if_false, if_true]
    exact ⟨_, rfl⟩

/-! ## What is announced -/

/-- A line that announces a destination, whatever the number of its fragments. -/
def Announces (line destination : String) : Prop :=
  ∃ n : Nat, line = printed s!"would write {destination} ({n} fragment(s))"

/-- Whether what is printed of a report is its lines about destinations, with at most the machine readable
report behind them. -/
def Prints (o : Outcome) (r : Report) : Prop :=
  o.out = destinationLines r ∨ o.out = destinationLines r ++ [printed r.json.text]

/-- The lines of a report are printed, whatever becomes of putting it where it is asked for. -/
theorem present_prints (d : Disk) (a : TangleArgs) (r : Report) : Prints (present d a r) r := by
  unfold present
  simp only
  split
  · exact Or.inl rfl
  · cases a.json with
    | false => exact Or.inl (List.append_nil _)
    | true => exact Or.inr rfl

theorem announces_destinations {r : Report} (h : r.dryRun = true) :
    List.Forall₂ Announces (destinationLines r) (r.plan.destinations.map (·.destination)) := by
  have hline : ∀ e : DestinationPlan, destinationLine? r e =
      some s!"would write {e.destination} ({e.operations.length} fragment(s))" := by
    intro e
    rw [destinationLine?, if_pos h]
  rw [destinationLines]
  induction r.plan.destinations with
  | nil => exact .nil
  | cons e destinations ih =>
    rw [List.filterMap_cons, hline]
    exact .cons ⟨e.operations.length, rfl⟩ ih

/-- A report about a file is that of a run over what the file holds. -/
theorem runFile_ran {registry : Registry} {d d' : Disk} {options : Options} {root path : Path}
    {report : Report} (h : Tangle.runFile registry d options root path = (d', .ok report)) :
    ∃ f text, Tangle.flavorFor registry options (some path.extension) = .ok f ∧
      Tangle.readDocument d path = .ok text ∧
      Tangle.Ran registry d f options root text .usual (d', .ok report) := by
  rw [Tangle.runFile] at h
  split at h
  · cases h
  · rename_i f hflavor
    split at h
    · cases h
    · rename_i text hread
      refine ⟨f, text, hflavor, hread, ?_⟩
      rw [← h]
      exact Tangle.runText_ran registry d f options root text .usual

/-- Both runs are about the same plan, and the one that is no dry run tries all of it or has an error. -/
theorem Reports.same_plan {r : Registry} {d d₁ d₂ : Disk} {args : List String} {a a' : TangleArgs}
    {dry wet : Report} (hdry : Reports r d (args ++ ["--dry-run"]) a' d₁ dry)
    (hwet : Reports r d args a d₂ wet) (hargs : a.dryRun = false)
    (hfile : ∀ loaded, Settings.load d (settingsPath d a.config) = .ok loaded →
      loaded.settings.lookup "dry_run" = none) :
    dry.dryRun = true ∧ dry.plan = wet.plan ∧
      (wet.Fails ∧ wet.results = [] ∨
        ¬ wet.Fails ∧ wet.results.map (·.destination) = wet.plan.destinations.map (·.destination)) := by
  cases hwet with
  | intro parsed paths asked resolved known found root ran =>
    cases hdry with
    | intro parsed' paths' asked' resolved' known' found' root' ran' =>
      obtain rfl := parseTangle_dryRun parsed parsed'
      obtain ⟨hoff, hoptions⟩ := resolve_dryRun hargs hfile resolved resolved'
      rw [hoptions] at ran'
      obtain ⟨f, text, hflavor, hread, hran⟩ := runFile_ran ran
      obtain ⟨f', text', hflavor', hread', hran'⟩ := runFile_ran ran'
      obtain rfl := Except.ok.inj (hflavor.symm.trans hflavor')
      obtain rfl := Except.ok.inj (hread.symm.trans hread')
      obtain ⟨p, hp, hplan, -⟩ := hran.plan
      obtain ⟨p', hp', hplan', hon⟩ := hran'.plan
      obtain rfl := Except.ok.inj (hp.symm.trans hp')
      exact ⟨hon, hplan'.trans hplan.symm, hran.tries hoff⟩

/-- A dry run announces the destinations that the same run without the option tries to write if and only if
that one has no error before it writes, or has nothing to write. -/
theorem dryRun_announces {r : Registry} {d d₁ d₂ : Disk} {args : List String} {a a' : TangleArgs}
    {dry wet : Report} (hdry : Reports r d (args ++ ["--dry-run"]) a' d₁ dry)
    (hwet : Reports r d args a d₂ wet) (hargs : a.dryRun = false)
    (hfile : ∀ loaded, Settings.load d (settingsPath d a.config) = .ok loaded →
      loaded.settings.lookup "dry_run" = none) :
    Prints (run r d ("tangle" :: (args ++ ["--dry-run"]))) dry ∧
      (List.Forall₂ Announces (destinationLines dry) (wet.results.map (·.destination)) ↔
        (wet.Fails → wet.plan.destinations = [])) := by
  constructor
  · obtain ⟨log, hrun⟩ := hdry.run_eq
    rw [hrun]
    exact present_prints d₁ a' dry
  · obtain ⟨hon, hplan, htries⟩ := hdry.same_plan hwet hargs hfile
    have hlines := announces_destinations hon
    rw [hplan] at hlines
    rcases htries with ⟨hfails, hresults⟩ | ⟨hpasses, hresults⟩
    · rw [hresults, List.map_nil, List.forall₂_nil_right_iff]
      constructor
      · intro hnone _
        rw [hnone, List.forall₂_nil_left_iff, List.map_eq_nil_iff] at hlines
        exact hlines
      · intro hnone
        rw [hnone hfails, List.map_nil, List.forall₂_nil_right_iff] at hlines
        exact hlines
    · rw [hresults]
      exact iff_of_true hlines fun hfails => absurd hfails hpasses

/-! ## A destination outside the output root -/

/-- A document whose only fragment is to go outside of the directory that it is in. -/
def climbing : String := "<?btxt filename='../a' ?>\n```\nx\n```\n"

/-- A directory with the document in it. -/
def folder : Disk :=
  ⟨["work"], [(["work"], .directory Disk.directoryMode),
    (["work", "doc.md"], .file climbing.toUTF8 Disk.fileMode)]⟩

/-- The arguments for a run over the document. -/
def climbingArgs (strict : Bool) : List String := "doc.md" :: if strict then ["--strict"] else []

/-- What these arguments are read as. -/
def climbingRun (strict dryRun : Bool) : TangleArgs where
  file := "doc.md"
  output := none
  tag := none
  strict := if strict then some true else none
  flavor := none
  lenient := none
  config := none
  dryRun
  report := none
  json := false

/-- The options that they amount to. -/
def climbingOptions (strict dryRun : Bool) : Options :=
  ⟨.ofLocation ["work"], none, strict, none, false, dryRun⟩

theorem read_climbing : ∃ p, Pass.ofText .builtin .github false climbing = .ok p ∧
    (Plan.ofPass p none).destinations.map (·.destination) = ["../a"] := by
  have hweavable : ∀ s ∈ [Snippet.mk "../a" "x\n"], s.Weavable := by decide +kernel
  obtain ⟨t, hread, ht⟩ := Snippet.ofText_collects .builtin false hweavable
  exact ⟨t.finish "github", hread, (ht.restored "github").destinations⟩

/-- A strict run finds that the destination is outside. -/
theorem writes_climbing {p : Pass} (strict dryRun : Bool)
    (hnames : (Plan.ofPass p none).destinations.map (·.destination) = ["../a"]) :
    Tangle.writes (Tangle.survey folder.cwd (climbingOptions strict dryRun) p) = true ↔
      strict = false ∧ dryRun = false := by
  rw [Tangle.writes_iff]
  refine and_congr_left' ?_
  cases strict with
  | false => exact iff_of_true nofun rfl
  | true =>
    refine iff_of_false ?_ nofun
    intro hrouting
    have hmem : "../a" ∈ (Plan.ofPass p none).destinations.map (·.destination) := by
      rw [hnames]
      exact List.mem_singleton_self _
    obtain ⟨e, he, hname⟩ := List.mem_map.mp hmem
    have hinside := (Plan.issues_eq_nil_iff.mp (hrouting rfl)).2.2 e he
    have houtside : (Path.ofLocation ["work"]).outside folder.cwd "../a" = true := by decide +kernel
    rw [hname] at hinside
    exact Bool.noConfusion (hinside.symm.trans houtside)

/-- A run over the document is about one destination, which only a run that is neither strict nor dry
tries. -/
theorem runFile_climbing (strict dryRun : Bool) :
    ∃ d' report, Tangle.runFile .builtin folder (climbingOptions strict dryRun)
        (.ofLocation ["work"]) (.ofString "doc.md") = (d', .ok report) ∧
      report.plan.destinations.map (·.destination) = ["../a"] ∧
      report.results.map (·.destination) =
        if strict = false ∧ dryRun = false then ["../a"] else [] := by
  obtain ⟨p, hp, hnames⟩ := read_climbing
  have hflavor : Tangle.flavorFor .builtin (climbingOptions strict dryRun)
      (some (Path.ofString "doc.md").extension) = .ok .github := by
    cases strict <;> cases dryRun <;> decide +kernel
  have hread : Tangle.readDocument folder (.ofString "doc.md") = .ok climbing := by decide +kernel
  have hran := Tangle.runText_ran .builtin folder .github (climbingOptions strict dryRun)
    (.ofLocation ["work"]) climbing .usual
  obtain ⟨d', report, hrun⟩ : ∃ d' report, Tangle.runText .builtin folder .github
      (climbingOptions strict dryRun) (.ofLocation ["work"]) climbing .usual = (d', .ok report) :=
    Tangle.runText_ok hp rfl rfl (Plan.forall_nameable hnames (by decide))
  rw [hrun] at hran
  obtain ⟨q, hq, hplan, -⟩ := hran.plan
  obtain rfl := Except.ok.inj (hp.symm.trans hq)
  refine ⟨d', report, ?_, ?_, ?_⟩
  · rw [Tangle.runFile, hflavor]
    simp only [hread]
    exact hrun
  · rw [hplan]
    exact hnames
  · have hwrites := writes_climbing strict dryRun hnames
    cases hran with
    | withheld q read unwritten =>
      obtain rfl := Except.ok.inj (hp.symm.trans read)
      have hheld : ¬ (strict = false ∧ dryRun = false) := by
        rw [← hwrites, unwritten]
        exact Bool.false_ne_true
      rw [if_neg hheld]
      rfl
    | written q d' results read written attempts =>
      obtain rfl := Except.ok.inj (hp.symm.trans read)
      rw [if_pos (hwrites.mp written)]
      exact (attempts.destinations.trans (Plan.requests_destinations _)).trans hnames

theorem reports_climbing (strict dryRun : Bool) :
    ∃ d' report, Reports .builtin folder
        (climbingArgs strict ++ if dryRun then ["--dry-run"] else []) (climbingRun strict dryRun) d'
        report ∧
      report.plan.destinations.map (·.destination) = ["../a"] ∧
      report.results.map (·.destination) =
        if strict = false ∧ dryRun = false then ["../a"] else [] := by
  obtain ⟨d', report, hran, hplan, hresults⟩ := runFile_climbing strict dryRun
  have hparsed : parseTangle (climbingArgs strict ++ if dryRun then ["--dry-run"] else []) =
      some (climbingRun strict dryRun) := by
    cases strict <;> cases dryRun <;> decide +kernel
  have hresolved : resolve folder none ((climbingRun strict dryRun).settings folder) =
      .ok ⟨climbingOptions strict dryRun, []⟩ := by
    cases strict <;> cases dryRun <;> rfl
  have hpaths : (namesFile folder "doc.md" && namePaths folder [none, none, none]) = true := by
    decide +kernel
  have hthere : folder.existsAt (.ofLocation ["work"]) = .ok true := by decide +kernel
  have hroot : folder.isDirectory (.ofLocation ["work"]) = true := by decide +kernel
  exact ⟨d', report, .intro hparsed hpaths rfl hresolved rfl hthere hroot hran, hplan, hresults⟩

/-- The directory has no settings file. -/
theorem load_folder : ∀ loaded, Settings.load folder (settingsPath folder none) = .ok loaded →
    loaded.settings.lookup "dry_run" = none := by
  have hnone : Settings.load folder (settingsPath folder none) = .ok ⟨[], none⟩ := rfl
  intro loaded hloaded
  obtain rfl := Except.ok.inj (hnone.symm.trans hloaded)
  rfl

/-- Without strictness, the destination is announced and tried. -/
theorem dryRun_announces_climbing :
    ∃ d₁ d₂ dry wet, Reports .builtin folder (climbingArgs false ++ ["--dry-run"])
        (climbingRun false true) d₁ dry ∧
      Reports .builtin folder (climbingArgs false) (climbingRun false false) d₂ wet ∧
      Prints (run .builtin folder ("tangle" :: (climbingArgs false ++ ["--dry-run"]))) dry ∧
      wet.results.map (·.destination) = ["../a"] ∧
      List.Forall₂ Announces (destinationLines dry) (wet.results.map (·.destination)) := by
  obtain ⟨d₁, dry, hdry, -, -⟩ := reports_climbing false true
  obtain ⟨d₂, wet, hwet, -, hresults⟩ := reports_climbing false false
  have hwetArgs : (climbingRun false false).dryRun = false := rfl
  obtain ⟨hprints, hiff⟩ := dryRun_announces hdry hwet hwetArgs load_folder
  have hpasses : ¬ wet.Fails := by
    rcases (hdry.same_plan hwet hwetArgs load_folder).2.2 with ⟨-, hnone⟩ | ⟨hpasses, -⟩
    · rw [hnone] at hresults
      cases hresults
    · exact hpasses
  exact ⟨d₁, d₂, dry, wet, hdry, hwet, hprints, hresults, hiff.mpr fun h => absurd h hpasses⟩

/-- A strict run has an error and tries nothing, and yet the dry run announces the destination. -/
theorem strict_dryRun_announces :
    ∃ d₁ d₂ dry wet, Reports .builtin folder (climbingArgs true ++ ["--dry-run"])
        (climbingRun true true) d₁ dry ∧
      Reports .builtin folder (climbingArgs true) (climbingRun true false) d₂ wet ∧
      (climbingRun true false).dryRun = false ∧
      (∀ loaded, Settings.load folder (settingsPath folder none) = .ok loaded →
        loaded.settings.lookup "dry_run" = none) ∧
      ¬ List.Forall₂ Announces (destinationLines dry) (wet.results.map (·.destination)) := by
  obtain ⟨d₁, dry, hdry, hplan, -⟩ := reports_climbing true true
  obtain ⟨d₂, wet, hwet, -, hresults⟩ := reports_climbing true false
  refine ⟨d₁, d₂, dry, wet, hdry, hwet, rfl, load_folder, ?_⟩
  have hlines := announces_destinations (hdry.same_plan hwet rfl load_folder).1
  intro hannounced
  have hnone : wet.results.map (·.destination) = [] := hresults
  rw [hnone, List.forall₂_nil_right_iff] at hannounced
  rw [hplan, hannounced, List.forall₂_nil_left_iff] at hlines
  cases hlines

end Command

end Literate
