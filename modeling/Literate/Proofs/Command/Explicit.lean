import Literate.Proofs.Command.DryRun
import Literate.Proofs.Path.Location

/-!
# What becomes of values on the command line

A value that is given on the command line counts whatever the settings file says
(`Settings.lookup_overlay_explicit`). Like the values of the file, a tag is taken without the blanks at its
ends. So a run is about the tag that it was given, if this neither starts nor ends with a blank, and else about
a shorter tag or none at all, and it writes to the output directory that it was given
(`explicit_values_count`). The tags of directives are taken as they are, so a fragment whose tag starts with a
blank cannot be asked for (`blank_tag_altered`).
-/

namespace Literate

open Text (Trims isBlank)

namespace Settings

variable {explicit defaults s : Settings} {name text kept : String} {value : Datum} {root : Path}
  {o : Options}

/-- A value that is given counts, whatever the file says. -/
theorem lookup_overlay_explicit (hnames : (explicit.map (·.1)).Nodup) (hmem : (name, value) ∈ explicit)
    (hvalue : value ≠ .null) : (overlay explicit defaults).lookup name = some value := by
  induction explicit generalizing defaults with
  | nil => cases hmem
  | cons e explicit ih =>
    obtain ⟨hfirst, hrest⟩ := List.nodup_cons.mp hnames
    rw [overlay, List.foldl_cons, ← overlay]
    rcases List.mem_cons.mp hmem with rfl | hmem
    · -- no later value has the name
      rw [lookup_overlay fun e he hname => absurd (List.mem_map.mpr ⟨e, he, hname⟩) hfirst]
      split
      · contradiction
      · exact Entries.lookup_put_self _ _ _
    · exact ih hrest hmem

/-- A text is taken without the blanks at its ends, and as none if nothing is left of it. -/
theorem textOf?_text (h : Trims text.toList kept.toList) :
    textOf? (.text text) = if kept = "" then none else some kept := by
  simp [textOf?, Datum.plain, Text.strip_eq_iff.mpr h]

theorem options_ok_iff : (∃ o, options s root = .ok o) ↔ haveTexts s = true := by
  rw [options]
  split
  · exact iff_of_true ⟨_, rfl⟩ ‹_›
  · refine iff_of_false ?_ ‹_›
    rintro ⟨o, ho⟩
    cases ho

theorem tagFilter_eq (h : options s root = .ok o) : o.tagFilter = text? s "tag" := by
  rw [options] at h
  split at h
  · cases h
    rfl
  · cases h

theorem outputRoot_eq (h : options s root = .ok o) (houtput : text? s "output" = some text) :
    o.outputRoot = root.join (.ofString text) := by
  rw [options] at h
  split at h
  · cases h
    simp only [houtput]
  · cases h

end Settings

/-- The fragments of a document that are not ignored and have a tag, or any tag if that is empty. -/
def Pass.withTag (p : Pass) (tag : String) : List Fragment :=
  (p.walk.flatMap (·.fragments)).filter fun f =>
    !f.config.ignore && (tag == "" || f.config.tag == some tag)

/-- The plan for a document is that for the fragments that are kept. -/
theorem Plan.ofPass_withTag (p : Pass) (tag : String) :
    ofPass p (if tag = "" then none else some tag) =
      ofFragments (p.withTag tag) none (distinct (p.walk.flatMap (·.declared))) := by
  have hkept : (p.walk.flatMap (·.fragments)).filter (keeps (if tag = "" then none else some tag)) =
      (p.withTag tag).filter (keeps none) := by
    rw [Pass.withTag, List.filter_filter]
    refine List.filter_congr fun f _ => ?_
    by_cases htag : tag = ""
    · cases hignore : f.config.ignore <;> simp [keeps, htag, hignore]
    · have hsome : tag.isEmpty = false := by simpa using htag
      cases hignore : f.config.ignore <;> simp [keeps, htag, hsome, hignore]
  rw [ofPass, ofFragments, ofFragments, hkept]

namespace Command

variable {d : Disk} {a : TangleArgs} {table : Settings} {tag output kept : String} {root : Path}
  {o : Options}

theorem nodup_settings (a : TangleArgs) (d : Disk) : ((a.settings d).map (·.1)).Nodup := by
  have hnames : (a.settings d).map (·.1) =
      ["output", "tag", "strict", "flavor", "lenient_directives", "dry_run"] := rfl
  rw [hnames]
  decide

theorem lookup_given {name text : String} (h : (name, .text text) ∈ a.settings d) :
    (Settings.overlay (a.settings d) table).lookup name = some (.text text) :=
  Settings.lookup_overlay_explicit (nodup_settings a d) h Datum.noConfusion

theorem lookup_tag (h : a.tag = some tag) :
    (Settings.overlay (a.settings d) table).lookup "tag" = some (.text tag) :=
  lookup_given (by simp [TangleArgs.settings, h, textSetting])

theorem lookup_output (h : a.output = some output) :
    (Settings.overlay (a.settings d) table).lookup "output" = some (.text (outputText d output)) :=
  lookup_given (by simp [TangleArgs.settings, h, textSetting])

/-- With a tag and an output directory, there are options unless the flavor is up to the file and cannot be
written. -/
theorem haveTexts_iff (htag : a.tag = some tag) (houtput : a.output = some output) :
    Settings.haveTexts (Settings.overlay (a.settings d) table) = true ↔
      (a.flavor = none → ∀ v, table.lookup "flavor" = some v → v.hasText = true) := by
  simp only [Settings.haveTexts, Settings.textNames, List.all_cons, List.all_nil, lookup_tag htag,
    lookup_output houtput]
  cases hflavor : a.flavor with
  | none =>
    rw [Settings.lookup_overlay (by simp [TangleArgs.settings, hflavor, textSetting])]
    cases table.lookup "flavor" <;> simp
  | some flavor =>
    have hgiven : (Settings.overlay (a.settings d) table).lookup "flavor" = some (.text flavor) :=
      lookup_given (by simp [TangleArgs.settings, hflavor, textSetting])
    simp [hgiven]

theorem tagFilter_given (htag : a.tag = some tag)
    (ho : Settings.options (Settings.overlay (a.settings d) table) root = .ok o)
    (hkept : Trims tag.toList kept.toList) :
    o.tagFilter = if kept = "" then none else some kept := by
  rw [Settings.tagFilter_eq ho, Settings.text?, lookup_tag htag, Option.bind_some, Settings.textOf?_text hkept]

/-- The filter is the tag that was given exactly if there are no blanks at its ends. -/
theorem given_tag_iff (hfilter : o.tagFilter = if kept = "" then none else some kept)
    (hkept : Trims tag.toList kept.toList) :
    o.tagFilter = some tag ↔ tag ≠ "" ∧ Trims tag.toList tag.toList := by
  rw [hfilter]
  constructor
  · intro hsame
    split at hsame
    · cases hsame
    · cases hsame
      exact ⟨‹_›, hkept⟩
  · rintro ⟨hsome, hself⟩
    rw [String.toList_inj.mp (hkept.unique hself), if_neg hsome]

theorem outputRoot_given (houtput : a.output = some output)
    (ho : Settings.options (Settings.overlay (a.settings d) table) root = .ok o)
    (hkept : Trims (Path.ofLocation ((Path.ofString output).locate d.cwd)).text.toList kept.toList) :
    o.outputRoot = .ofString kept := by
  -- the slash in front is kept, so the text is not taken as none, and is joined to nothing
  obtain ⟨cs, habsolute⟩ := Path.absolute_text_ofLocation ((Path.ofString output).locate d.cwd)
  have hslash := hkept
  rw [habsolute] at hslash
  obtain ⟨rest, hrest⟩ := Trims.cons hslash (by decide)
  have hsome : kept ≠ "" := by
    rintro rfl
    cases hrest
  have htext : Settings.text? (Settings.overlay (a.settings d) table) "output" = some kept := by
    rw [Settings.text?, lookup_output houtput, Option.bind_some, outputText,
      Settings.textOf?_text hkept, if_neg hsome]
  rw [Settings.outputRoot_eq ho htext]
  exact Path.join_of_absolute (fun h => Path.anchor_eq_relative_iff.mp h ⟨rest, hrest⟩) root

/-- A run whose tag filter is a tag, or none if that is empty, has the plan for the fragments with the tag. -/
theorem plan_withTag {registry : Registry} {d₀ d' : Disk} {f : Flavor} {writerRoot : Path} {text : String}
    {s : Surroundings} {report : Report}
    (h : Tangle.runText registry d₀ f o writerRoot text s = (d', .ok report))
    (htag : o.tagFilter = if tag = "" then none else some tag) :
    report.plan = Plan.ofFragments (report.document.withTag tag) none
      (Plan.distinct (report.document.walk.flatMap (·.declared))) := by
  have hran := Tangle.runText_ran registry d₀ f o writerRoot text s
  rw [h] at hran
  have hplan : report.plan = Plan.ofPass report.document o.tagFilter := by
    cases hran with
    | withheld | written => rfl
  rw [hplan, htag, Plan.ofPass_withTag]

/-- The options of a run with a tag and an output directory: the filter is the tag without the blanks at its
ends, so it is the tag exactly if there are none, and the run is about the fragments that have it and are not
ignored; the output directory is the one that was given, if its name does not end in a blank. The settings file
has no say in this. Only a flavor in it that cannot be written stops the run. -/
theorem explicit_values_count (hcwd : ∀ name ∈ d.cwd, Path.FileName name) (htag : a.tag = some tag)
    (houtput : a.output = some output) (table : Settings) (root : Path) :
    let settings := Settings.overlay (a.settings d) table
    let place := (Path.ofString output).locate d.cwd
    ((∃ o, Settings.options settings root = .ok o) ↔
      (a.flavor = none → ∀ v, table.lookup "flavor" = some v → v.hasText = true)) ∧
    ∀ o, Settings.options settings root = .ok o →
      (∃ kept : String, Trims tag.toList kept.toList ∧
        o.tagFilter = (if kept = "" then none else some kept) ∧
        (o.tagFilter = some tag ↔ tag ≠ "" ∧ Trims tag.toList tag.toList) ∧
        ∀ registry d₀ f writerRoot text s d' report,
          Tangle.runText registry d₀ f o writerRoot text s = (d', .ok report) →
            report.plan = Plan.ofFragments (report.document.withTag kept) none
              (Plan.distinct (report.document.walk.flatMap (·.declared)))) ∧
      ((∀ name ∈ place.getLast?, ∀ c ∈ name.toList.getLast?, isBlank c = false) →
        o.outputRoot = .ofLocation place) := by
  intro settings place
  refine ⟨Settings.options_ok_iff.trans (haveTexts_iff htag houtput), fun o ho => ⟨?_, ?_⟩⟩
  · obtain ⟨kept, hkept⟩ := Text.exists_trims tag
    have hfilter := tagFilter_given htag ho hkept
    exact ⟨kept, hkept, hfilter, given_tag_iff hfilter hkept,
      fun _ _ _ _ _ _ _ _ hrun => plan_withTag hrun hfilter⟩
  · intro hends
    obtain ⟨kept, hkept⟩ := Text.exists_trims (Path.ofLocation place).text
    rw [outputRoot_given houtput ho hkept]
    exact Path.ofString_trimmed (Path.fileName_of_mem_locate hcwd output) hkept hends

/-! ## Tags with and without blanks at their ends -/

/-- A directory with one in it to write to. -/
def workshop : Disk :=
  ⟨["work"], [(["work"], .directory Disk.directoryMode),
    (["work", "out"], .directory Disk.directoryMode)]⟩

/-- The arguments of a run with a tag and an output directory. -/
def taggedRun (tag output : String) : TangleArgs where
  file := "doc.md"
  output := some output
  tag := some tag
  strict := none
  flavor := none
  lenient := none
  config := none
  dryRun := false
  report := none
  json := false

/-- Blanks inside of a tag are kept, and the settings file has no say. -/
theorem explicit_values_count_workshop :
    let table : Settings := [("tag", .text "draft"), ("output", .number 3), ("strict", .list [])]
    (∀ name ∈ workshop.cwd, Path.FileName name) ∧ (taggedRun "next release" "out").tag = some "next release" ∧
      (taggedRun "next release" "out").output = some "out" ∧
      ∃ o, Settings.options (Settings.overlay ((taggedRun "next release" "out").settings workshop) table)
          .here = .ok o ∧
        o.tagFilter = some "next release" ∧ o.outputRoot = .ofLocation ["work", "out"] := by
  intro table
  have hcwd : ∀ name ∈ workshop.cwd, Path.FileName name := by decide
  have htag : (taggedRun "next release" "out").tag = some "next release" := rfl
  have houtput : (taggedRun "next release" "out").output = some "out" := rfl
  obtain ⟨hok, hall⟩ := explicit_values_count hcwd htag houtput table .here
  obtain ⟨o, ho⟩ := hok.mpr fun _ v hv => by cases hv
  obtain ⟨⟨-, -, -, hfilter, -⟩, hroot⟩ := hall o ho
  have hplace : (Path.ofString "out").locate workshop.cwd = ["work", "out"] := by decide +kernel
  rw [hplace] at hroot
  have hself : Trims "next release".toList "next release".toList :=
    Text.trims_self (by rintro c ⟨⟩; decide) (by rintro c ⟨⟩; decide)
  refine ⟨hcwd, htag, houtput, o, ho, hfilter.mpr ⟨by decide, hself⟩, hroot ?_⟩
  rintro name ⟨⟩ c ⟨⟩
  decide

/-- With a blank in front, another tag is asked for than the one that was given, and fragments with the tag
that was given are left out. -/
theorem blank_tag_altered :
    workshop.isDirectory (.ofString "out") = true ∧
      ∃ o, Settings.options (Settings.overlay ((taggedRun " a" "out").settings workshop) []) .here = .ok o ∧
        o.tagFilter = some "a" ∧ o.tagFilter ≠ some " a" ∧
        ∀ f : Fragment, f.config.tag = some " a" → Plan.keeps o.tagFilter f = false := by
  refine ⟨by decide +kernel, ⟨.ofLocation ["work", "out"], some "a", false, none, false, false⟩,
    by decide +kernel, rfl, by decide, ?_⟩
  intro f htag
  rw [Plan.keeps, htag]
  simp

end Command

end Literate
