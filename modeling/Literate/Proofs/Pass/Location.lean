import Literate.Proofs.Directive.Fault
import Literate.Proofs.Flavor.Fence
import Literate.Proofs.Flavor.Rendering
import Literate.Proofs.Pass.Safety
import Literate.Proofs.Pass.Steps
import Literate.Proofs.Tangle.Run

/-!
# Where reported faults are

The scanner finds a malformed directive where it stands, so its fault is located in the text that is
scanned. A nested document is scanned as a text of its own: a fault in it is located in the text of the
fence, and in the document around it only when it is moved behind all that stands before that text
(`located`). A span as it is reported does not name a place in the document around it
(`not_located`).
-/

namespace Literate

open Directive (Fault)

/-! ## What the scanner finds -/

namespace Flavor

variable {f : Flavor} {atStart : Bool} {c : Cursor}

/-- The content of a fence stands in the text, below the line that opens the fence. -/
theorem fenceLine_content {fence cs language content : List Char} {n : Nat}
    (h : fenceLine fence cs = .closed language content n) :
    ∃ before after, cs = before ++ content ++ after ∧ '\n' ∈ before := by
  obtain ⟨opening, line, after, hparts⟩ := fenceLine_parts h
  refine ⟨opening, line ++ after, ?_, hparts.opened.newline_mem⟩
  rw [List.append_assoc]
  exact hparts.text

theorem rejected_not_mem_text {fault : Fault} {steps : List Step} {n : Nat}
    (h : f.lineStart c = .text steps n) : Step.rejected fault ∉ steps := by
  have hheading : Step.rejected fault ∉ (headingSteps c).1 := by
    unfold headingSteps
    split <;> simp
  unfold lineStart at h
  split at h
  · cases h
  · cases h
    simpa using hheading
  · cases h
    exact hheading

/-- Nothing is found behind the end of the text. -/
theorem le_of_mem_scanFrom {step : Step} {n : Nat} (h : step ∈ f.scanFrom atStart (c.advance n)) :
    n ≤ c.rest.length := by
  by_contra hlt
  have hnil : (c.advance n).rest = [] := List.drop_eq_nil_of_le (by omega)
  rw [scanFrom_nil hnil] at h
  cases h

/-- What the scanner refuses is ahead of where it is. -/
theorem ahead_of_mem_scanFrom {fault : Fault} (h : Step.rejected fault ∈ f.scanFrom atStart c) :
    fault.Ahead c := by
  fun_induction scanFrom f atStart c with
  | case1 c e n hline ih =>
    have h := List.mem_of_ne_of_mem Step.noConfusion h
    exact (ih h).of_advance (le_of_mem_scanFrom h)
  | case2 c steps n hline ih =>
    have h := (List.mem_append.mp h).resolve_left (rejected_not_mem_text hline)
    exact (ih h).of_advance (le_of_mem_scanFrom h)
  | case3 => cases h
  | case4 c _ ih | case5 c _ ih => exact (ih h).of_advance (le_of_mem_scanFrom h)
  | case6 c d stop hd ih =>
    obtain ⟨k, rfl, -, hk⟩ := Directive.readAt_eq (inline_directive hd)
    exact (ih (List.mem_of_ne_of_mem Step.noConfusion h)).of_advance hk
  | case7 c fault' n hr ih =>
    rcases List.mem_cons.mp h with heq | h
    · cases heq
      exact Directive.readAt_error (inline_rejected hr).1
    · exact (ih h).of_advance (le_of_mem_scanFrom h)

/-- A nested document stands in the text, below some line. -/
theorem nested_of_mem_scanFrom {id content : String} {place : Position}
    (h : Step.event (.nested id content place) ∈ f.scanFrom atStart c) :
    ∃ before after, c.rest = before ++ content.toList ++ after ∧ '\n' ∈ before := by
  -- what stands further on stands behind more
  have hbehind : ∀ {c : Cursor} {n : Nat}, (∃ before after,
      (c.advance n).rest = before ++ content.toList ++ after ∧ '\n' ∈ before) →
      ∃ before after, c.rest = before ++ content.toList ++ after ∧ '\n' ∈ before := by
    rintro c n ⟨before, after, hrest, hnewline⟩
    refine ⟨c.rest.take n ++ before, after, ?_, List.mem_append_right _ hnewline⟩
    rw [List.append_assoc, List.append_assoc, ← List.append_assoc before, ← hrest,
      Cursor.rest_advance, List.take_append_drop]
  fun_induction scanFrom f atStart c with
  | case1 c e n hline ih =>
    rcases List.mem_cons.mp h with heq | h
    · rw [lineStart] at hline
      split at hline
      · rename_i language inside k hfence
        cases hline
        rw [length_nested_lt (Step.event.inj heq).symm]
        exact fenceLine_content hfence
      · cases hline
      · cases hline
    · exact hbehind (ih h)
  | case2 c steps n hline ih =>
    exact hbehind (ih ((List.mem_append.mp h).resolve_left (not_nested_mem_text hline)))
  | case3 => cases h
  | case4 c _ ih | case5 c _ ih => exact hbehind (ih h)
  | case6 c d stop hd ih =>
    obtain ⟨k, rfl, -, -⟩ := Directive.readAt_eq (inline_directive hd)
    exact hbehind (ih (List.mem_of_ne_of_mem (by simp) h))
  | case7 c fault n hr ih => exact hbehind (ih (List.mem_of_ne_of_mem (by simp) h))

end Flavor

/-! ## What a pass records of its own text -/

/-- The malformed directives that a pass has itself are those that the scanner refuses. -/
theorem Pass.rejected_of_mem_faults {r : Registry} {f : Flavor} {lenient : Bool} {text : String}
    {p : Pass} {fault : Fault} (h : Pass.ofText r f lenient text = .ok p)
    (hfault : fault ∈ p.faults) : Step.rejected fault ∈ f.scan text := by
  obtain ⟨t, ht, rfl⟩ := ofText_keeps
    (I := fun steps t => ∀ fault ∈ t.faults, Step.rejected fault ∈ steps)
    (List.forall_mem_nil _)
    (by
      intro before s t t' ht hgoes fault hfault
      cases hgoes with
      | rejected passes =>
        refine (List.mem_append.mp hfault).elim (fun hold => ?_) fun hnew => ?_
        · exact List.mem_append_left _ (ht fault hold)
        · rw [List.mem_singleton.mp hnew]
          exact List.mem_append_right _ List.mem_cons_self
      | heading | directive | fragment | nested | openFence =>
        exact List.mem_append_left _ (ht fault hfault))
    h
  exact ht fault hfault

/-! ## What is reported of a text -/

/-- A fault that going through a text stops at, or that is recorded for the text or for a document in
it. -/
def Pass.Reports (r : Registry) (f : Flavor) (text : String) (fault : Fault) : Prop :=
  Pass.ofText r f false text = .error (.malformed fault) ∨
    ∃ lenient p, Pass.ofText r f lenient text = .ok p ∧ ∃ inner ∈ p.walk, fault ∈ inner.faults

/-- A fault of a document that is nested in a text. Its span counts from where that document starts, and
so it is in its place only when it is moved there. -/
def Directive.Fault.NestedIn (text : String) (fault : Fault) : Prop :=
  ∃ before content after place, text.toList = before ++ content.toList ++ after ∧ '\n' ∈ before ∧
    Step.event (.nested "nested" content place) ∈ Flavor.github.scan text ∧
    fault.LocatedIn content.toList ∧ (fault.shift (.behind before)).LocatedIn text.toList

theorem Directive.Fault.LocatedIn.shift {fault : Fault} {before content after : List Char}
    (h : fault.LocatedIn content) :
    (fault.shift (.behind before)).LocatedIn (before ++ content ++ after) := by
  obtain ⟨xs, ys, rfl, hspan⟩ := Fault.locatedIn_iff.mp h
  refine Fault.locatedIn_iff.mpr ⟨before ++ xs, ys ++ after, ?_, ?_⟩
  · rw [Fault.shift]
    simp only [List.append_assoc]
  · rw [Fault.shift, hspan]
    simp only [Span.shift, Shift.behind, Position.start, Position.after, Position.span,
      List.length_append, List.count_append, Span.mk.injEq]
    omega

theorem Flavor.located_of_rejected {f : Flavor} {text : String} {fault : Fault}
    (h : Step.rejected fault ∈ f.scan text) : fault.LocatedIn text.toList :=
  (ahead_of_mem_scanFrom h).locatedIn

theorem Pass.Reports.mem_faults {r : Registry} {f : Flavor} {text : String} {fault : Fault}
    (hf : r.Complete f) (h : Pass.Reports r f text fault) : fault ∈ Document.faults r f text := by
  obtain ⟨p, hlenient, hperm, hfatal⟩ := ofText_eq hf text
  rcases h with h | ⟨lenient, q, hq, inner, hinner, hfault⟩
  · rw [hfatal] at h
    cases hfaults : Document.faults r f text with
    | nil =>
      rw [hfaults] at h
      cases h
    | cons first later =>
      rw [hfaults] at h
      cases h
      exact List.mem_cons_self
  · have hpq : q = p := by
      cases lenient with
      | true => exact Except.ok.inj (hq.symm.trans hlenient)
      | false =>
        rw [hfatal] at hq
        cases hfaults : Document.faults r f text with
        | nil =>
          rw [hfaults] at hq
          cases hq
          rfl
        | cons first later =>
          rw [hfaults] at hq
          cases hq
    rw [hpq] at hinner
    exact hperm.mem_iff.mp (List.mem_flatMap.mpr ⟨inner, hinner, hfault⟩)

/-- A malformed directive stands in the document itself or in one that is nested in it. -/
theorem Document.mem_faults_github {text : String} {fault : Fault}
    (h : fault ∈ faults .builtin .github text) :
    Step.rejected fault ∈ Flavor.github.scan text ∨ fault.NestedIn text := by
  rw [faults_eq, List.mem_flatMap] at h
  obtain ⟨step, hstep, hfault⟩ := h
  cases step with
  | rejected fault' =>
    rw [List.mem_singleton.mp hfault]
    exact Or.inl hstep
  | openFence line => cases hfault
  | event e =>
    cases e with
    | heading level title place => cases hfault
    | directive d place => cases hfault
    | fragment language content place => cases hfault
    | nested id content place =>
      obtain rfl : "nested" = id := Option.some.inj (Flavor.nested_flavor hstep)
      have hinner : Registry.builtin.forName? "nested" = some .inner := by decide +kernel
      simp only [stepFaults, hinner, faults_eq, List.mem_flatMap] at hfault
      obtain ⟨inside, hinside, hfault⟩ := hfault
      -- nothing is nested in a nested document
      have hrejected : Step.rejected fault ∈ Flavor.inner.scan content := by
        cases inside with
        | rejected fault' => rwa [List.mem_singleton.mp hfault]
        | openFence line => cases hfault
        | event e =>
          cases e with
          | nested id' content' place' => cases Flavor.nested_flavor hinside
          | heading level title place => cases hfault
          | directive d place => cases hfault
          | fragment language content place => cases hfault
      obtain ⟨before, after, htext, hnewline⟩ := Flavor.nested_of_mem_scanFrom hstep
      have htext : text.toList = before ++ content.toList ++ after := htext
      have hlocated := Flavor.located_of_rejected hrejected
      refine Or.inr ⟨before, content, after, place, htext, hnewline, hstep, hlocated, ?_⟩
      rw [htext]
      exact hlocated.shift

/-- Routing and writing make issues of other kinds. -/
theorem Tangle.Ran.malformed {registry : Registry} {d d' : Disk} {f : Flavor} {options : Options}
    {root : Path} {text : String} {s : Surroundings} {report : Report} {i : Issue}
    (h : Ran registry d f options root text s (d', .ok report)) (hi : i ∈ report.issues)
    (hkind : i.kind = .malformedDirective) :
    ∃ p, Pass.ofText registry f options.lenient text = .ok p ∧ i ∈ p.issues := by
  have hsurvey : ∀ {p : Pass}, i ∈ (survey d.cwd options p).issues → i ∈ p.issues := by
    intro p hmem
    rw [survey_issues] at hmem
    refine (List.mem_append.mp hmem).resolve_right fun hrouting => ?_
    have hkind' := (Plan.kind_of_mem_issues hrouting).1
    rw [hkind] at hkind'
    cases hkind'
  cases h with
  | withheld p read unwritten => exact ⟨p, read, hsurvey hi⟩
  | written p d' results read written attempts =>
    refine ⟨p, read, hsurvey ((List.mem_append.mp hi).resolve_right fun hfailure => ?_)⟩
    obtain ⟨failure, -, rfl⟩ := List.mem_map.mp hfailure
    cases hkind

/-- Every fault of a text is found at the place that its span names, on the line that its span names. So is
every fault of a document nested in it, but in the nested text. An issue shows the line of its fault. -/
theorem located (text : String) :
    (∀ lenient p, Pass.ofText .builtin .github lenient text = .ok p →
      ∀ fault ∈ p.faults, fault.LocatedIn text.toList) ∧
    (∀ fault, Pass.Reports .builtin .github text fault →
      Step.rejected fault ∈ Flavor.github.scan text ∧ fault.LocatedIn text.toList ∨
        fault.NestedIn text) ∧
    ∀ d options root s d' report,
      Tangle.runText .builtin d .github options root text s = (d', .ok report) →
      ∀ i ∈ report.issues, i.kind = .malformedDirective →
        ∃ fault, Pass.Reports .builtin .github text fault ∧ i.line = some fault.span.line := by
  refine ⟨?_, ?_, ?_⟩
  · intro lenient p hp fault hfault
    exact Flavor.located_of_rejected (Pass.rejected_of_mem_faults hp hfault)
  · intro fault h
    have hfault := h.mem_faults (Registry.complete_of_builtin (Or.inl rfl))
    refine (Document.mem_faults_github hfault).imp_left fun hrejected => ?_
    exact ⟨hrejected, Flavor.located_of_rejected hrejected⟩
  · intro d options root s d' report hrun i hi hkind
    have hran := Tangle.runText_ran .builtin d .github options root text s
    rw [hrun] at hran
    obtain ⟨p, hp, hissue⟩ := hran.malformed hi hkind
    obtain ⟨fault, hfault, rfl⟩ := List.mem_map.mp hissue
    obtain ⟨inner, hinner, hfault⟩ := List.mem_flatMap.mp hfault
    exact ⟨fault, Or.inr ⟨options.lenient, p, hp, inner, hinner, hfault⟩, rfl⟩

/-! ## A fault in a nested document -/

/-- A directive that sets a destination without a name. -/
def nameless : String := "<?btxt filename='' ?>\n"

/-- Its fault: the two quotes. -/
def namelessFault : Fault := ⟨.emptyDestination, ⟨16, 18, 1⟩, "''"⟩

theorem readAt_nameless :
    Directive.readAt (.ofText nameless.toList) = .error namelessFault := by
  have hat : Directive.Marker.at? (Cursor.ofText nameless.toList).rest = some .instruction := by
    decide +kernel
  have hqualifier : Directive.readQualifier (some .instruction)
      ((Cursor.ofText nameless.toList).advance Directive.Marker.instruction.opener.length) =
        .ok (none, 0) := by
    decide +kernel
  obtain ⟨c, hc⟩ : ∃ c, c = Directive.skipBlanks
      ((Cursor.ofText nameless.toList).advance Directive.Marker.instruction.opener.length) := ⟨_, rfl⟩
  have hends : ¬ Directive.ends (some .instruction) c.rest = true := by
    rw [hc]
    decide +kernel
  have hmore : c.rest ≠ [] := by
    rw [hc]
    decide +kernel
  have hitem : Directive.readItem (some .instruction) [] c = .error namelessFault := by
    rw [hc]
    decide +kernel
  rw [Directive.readAt, hat]
  simp only
  rw [Directive.readInside, hqualifier]
  simp only
  rw [Cursor.advance_zero, Directive.readItems_step, ← hc, if_neg hends, if_neg hmore, hitem]

/-- It is refused in a document of either kind. -/
theorem scan_nameless {f : Flavor} (hf : f.fence = "```" ∨ f.fence = "'''") :
    f.scan nameless = [.rejected namelessFault] := by
  have hfence : ¬ f.fence.toList <+: (Cursor.ofText nameless.toList).rest := by
    rcases hf with hf | hf <;> rw [hf] <;> decide +kernel
  have hheading : ¬ Flavor.HeadingLine (Cursor.ofText nameless.toList).rest := by
    have hhead : (Cursor.ofText nameless.toList).rest.head? = some '<' := by decide +kernel
    refine Flavor.not_headingLine_of_head ?_
    rw [hhead]
    rintro x ⟨⟩
    decide
  have hinline : Flavor.inline (.ofText nameless.toList) = .rejected namelessFault 21 := by
    have hrest : (Cursor.ofText nameless.toList).rest = '<' :: "?btxt filename='' ?>\n".toList := by
      decide +kernel
    have hopens : ¬ (Directive.Marker.at? ('<' :: "?btxt filename='' ?>\n".toList)).isNone = true := by
      decide +kernel
    have hskip : Directive.skipLength (Cursor.ofText nameless.toList).rest = 21 := by decide +kernel
    rw [Flavor.inline, hrest]
    simp only
    rw [if_neg (by decide), if_neg hopens, readAt_nameless]
    simp only
    rw [← hrest, hskip]
  have hnewline : ((Cursor.ofText nameless.toList).advance 21).rest = '\n' :: [] := by decide +kernel
  rw [Flavor.scan, Flavor.scanFrom_unmarked hfence hheading, Flavor.scanFrom_inside, hinline]
  simp only
  rw [Flavor.scanFrom_newline hnewline, Flavor.scanFrom_nil (by decide +kernel)]

/-- A heading, and a fence around the document with the nameless destination. -/
def around : List Block := [.heading 1 "Top", .fenced (some "btxt") nameless]

theorem around_wellFormed : ∀ b ∈ around, b.WellFormed .github := by
  intro b hb
  simp only [around, List.mem_cons, List.not_mem_nil, or_false] at hb
  rcases hb with rfl | rfl
  · exact .heading (by decide) (by simp) (by decide)
  · exact .plainFence (by simp; decide) (Or.inr (by decide)) (by decide)

theorem scan_around :
    Flavor.github.scan "# Top\n```btxt\n<?btxt filename='' ?>\n```\n" =
      [.event (.heading 1 (some "Top") ⟨0, 1⟩), .event (.nested "nested" nameless ⟨6, 2⟩)] := by
  have hrest : (Cursor.ofText "# Top\n```btxt\n<?btxt filename='' ?>\n```\n".toList).rest =
      around.flatMap (Block.chars .github) := by
    decide +kernel
  rw [Flavor.scan, scanFrom_blocks (Or.inl rfl) around_wellFormed hrest]
  rfl

theorem reports_nameless {f : Flavor} {text : String} (hf : f = .github ∨ f = .inner)
    (h : Document.faults .builtin f text = [namelessFault]) :
    Pass.Reports .builtin f text namelessFault := by
  obtain ⟨p, -, -, hfatal⟩ := ofText_eq (Registry.complete_of_builtin hf) text
  rw [h] at hfatal
  exact Or.inl hfatal

/-- The fault in the nested document is reported with a span that is not its place in the text. -/
theorem not_located :
    let text := "# Top\n```btxt\n<?btxt filename='' ?>\n```\n"
    Pass.Reports .builtin .github text namelessFault ∧ ¬ namelessFault.LocatedIn text.toList := by
  intro text
  have hinner : Registry.builtin.forName? "nested" = some .inner := by decide +kernel
  have hscan : Flavor.inner.scan nameless = [.rejected namelessFault] := scan_nameless (Or.inr rfl)
  refine ⟨reports_nameless (Or.inl rfl) ?_, by decide +kernel⟩
  rw [Document.faults_eq, scan_around]
  simp only [List.flatMap_cons, List.flatMap_nil, Document.stepFaults, hinner, Document.faults_eq,
    hscan, List.nil_append, List.append_nil]

/-- Without a fence around it, the same fault is reported for its place. -/
theorem located_nameless :
    Pass.Reports .builtin .github nameless namelessFault ∧ namelessFault.LocatedIn nameless.toList := by
  have hfault : Pass.Reports .builtin .github nameless namelessFault := by
    refine reports_nameless (Or.inl rfl) ?_
    rw [Document.faults_eq, scan_nameless (Or.inl rfl)]
    rfl
  refine ⟨hfault, ?_⟩
  rcases (located nameless).2.1 namelessFault hfault with ⟨-, hlocated⟩ | ⟨_, _, _, _, -, -, hnested, -⟩
  · exact hlocated
  · rw [scan_nameless (Or.inl rfl)] at hnested
    cases List.mem_singleton.mp hnested

end Literate
