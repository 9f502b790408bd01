import Literate.Proofs.Pass.Configuration
import Literate.Proofs.Reading

/-!
# Lenient and fatal passes

A lenient pass goes through any document whose nested documents have a known flavor, and a fatal one
comes to the same result unless a directive is malformed; then it stops at the first malformed one
(`ofText_agrees`). First means first in the document (`Document.faults`): a nested document stands
where its fence does, whereas the tree of passes lists what it records pass by pass.

`Settles` says what one piece of a document does to a pass of either kind. It is shown for each kind
of piece, carried over to lists of pieces (`run_settles`), and from there to documents nested in
documents by induction on the length of the text.
-/

namespace Literate

open Directive (Fault)

/-! ## Registered flavors and the order of a document -/

namespace Registry

/-- The flavors of documents, and of documents nested in them, and so on. -/
inductive Leads (r : Registry) : Flavor → Flavor → Prop where
  | self (f : Flavor) : Leads r f f
  | nested {f g h : Flavor} {id : String} : f.nested = some id → r.forName? id = some g →
      Leads r g h → Leads r f h

/-- Whether the flavors of all documents that can be nested in a document are registered. -/
def Complete (r : Registry) (f : Flavor) : Prop :=
  ∀ g, r.Leads f g → ∀ id ∈ g.nested, ∃ h, r.forName? id = some h

theorem named_eq_ok {r : Registry} {id : String} {f : Flavor} (h : r.forName? id = some f) :
    r.named id = .ok f := by
  rw [named, h]
  rfl

theorem Complete.nested {r : Registry} {f : Flavor} {id : String} (h : r.Complete f)
    (hid : f.nested = some id) : ∃ g, r.forName? id = some g ∧ r.Complete g := by
  obtain ⟨g, hg⟩ := h f (.self f) id hid
  exact ⟨g, hg, fun g' hleads => h g' (.nested hid hg hleads)⟩

end Registry

namespace Document

/-- The malformed directives of a text in the order of the text, those of a nested document at the
place of its fence. -/
def faults (r : Registry) (f : Flavor) (text : String) : List Fault :=
  (f.scan text).attach.flatMap fun ⟨step, _h⟩ =>
    match step with
    | .rejected fault => [fault]
    | .event (.nested id content _) =>
      match r.forName? id with
      | some inner => faults r inner content
      | none => []
    | _ => []
termination_by text.toList.length
decreasing_by exact Flavor.length_lt_of_mem_scan _h

/-- The malformed directives that one step of the scanner finds, in it or in the document it is. -/
def stepFaults (r : Registry) : Step → List Fault
  | .rejected fault => [fault]
  | .event (.nested id content _) =>
    match r.forName? id with
    | some inner => faults r inner content
    | none => []
  | _ => []

theorem faults_eq (r : Registry) (f : Flavor) (text : String) :
    faults r f text = (f.scan text).flatMap (stepFaults r) := by
  rw [faults]
  conv => rhs; rw [← List.attach_map_subtype_val (f.scan text), List.flatMap_map]
  congr 1
  funext ⟨step, h⟩
  rcases step with e | fault | line
  · cases e <;> rfl
  · rfl
  · rfl

end Document

/-! ## What the scanner can find -/

namespace Flavor

variable {f : Flavor} {atStart : Bool} {c : Cursor}

/-- An event is a fence or a heading, at the start of some line, or a directive that is read. -/
theorem event_mem_scanFrom {e : Event} (h : Step.event e ∈ f.scanFrom atStart c) :
    (∃ word content place, e = f.fenceEvent word content place) ∨
      (∃ c', Step.event e ∈ (headingSteps c').1) ∨
      ∃ c' d stop, e = .directive d c'.position ∧ Directive.readAt c' = .ok (d, stop) := by
  fun_induction scanFrom f atStart c with
  | case1 c fenced n hline ih =>
    rcases List.mem_cons.mp h with heq | h
    · rw [lineStart] at hline
      split at hline
      · cases hline
        cases heq
        exact Or.inl ⟨_, _, _, rfl⟩
      · cases hline
      · cases hline
    · exact ih h
  | case2 c steps n hline ih =>
    rcases List.mem_append.mp h with hmem | hmem
    · right; left
      rw [lineStart] at hline
      split at hline
      · cases hline
      · cases hline
        exact ⟨c, by simpa using hmem⟩
      · cases hline
        exact ⟨c, hmem⟩
    · exact ih hmem
  | case3 => cases h
  | case4 c _ ih | case5 c _ ih => exact ih h
  | case6 c d stop hd ih =>
    rcases List.mem_cons.mp h with heq | h
    · cases heq
      exact Or.inr (Or.inr ⟨c, d, stop, rfl, inline_directive hd⟩)
    · exact ih h
  | case7 c fault n hr ih =>
    rcases List.mem_cons.mp h with heq | h
    · cases heq
    · exact ih h

theorem heading_level {level : Int} {title : Option String} {place : Position}
    (h : Step.event (.heading level title place) ∈ f.scanFrom atStart c) : 1 ≤ level := by
  rcases event_mem_scanFrom h with ⟨word, content, place', heq⟩ | ⟨c', h⟩ | ⟨c', d, stop, heq, -⟩
  · unfold fenceEvent at heq
    split at heq
    · split at heq <;> cases heq
    · cases heq
  · unfold headingSteps at h
    split at h
    · rename_i n title' k hheading
      have := (heading?_length hheading).2
      simp only [List.mem_singleton, Step.event.injEq, Event.heading.injEq] at h
      omega
    · cases h
  · cases heq

theorem nested_flavor {id content : String} {place : Position}
    (h : Step.event (.nested id content place) ∈ f.scanFrom atStart c) : f.nested = some id := by
  rcases event_mem_scanFrom h with ⟨word, content', place', heq⟩ | ⟨c', h⟩ | ⟨c', d, stop, heq, -⟩
  · unfold fenceEvent at heq
    split at heq
    · rename_i hid
      split at heq
      · cases heq
        exact hid
      · cases heq
    · cases heq
  · exact absurd h not_nested_mem_headingSteps
  · cases heq

end Flavor

/-! ## What one piece does to a pass -/

theorem Pass.walkAll_concat (ps : List Pass) (p : Pass) :
    walkAll (ps ++ [p]) = walkAll ps ++ p.walk := by
  induction ps with
  | nil => simp [walkAll]
  | cons q ps ih => rw [List.cons_append, walkAll, ih, walkAll, List.append_assoc]

/-- What comes of a pass that stops at the first of some malformed directives. -/
def stopAtFirst {α : Type} (faults : List Fault) (a : α) : Except Stop α :=
  match faults with
  | [] => .ok a
  | fault :: _ => .error (.malformed fault)

namespace Traversal

/-- All that has been recorded so far, in this pass and in those below it. -/
def recorded (t : Traversal) : List Fault :=
  t.faults ++ (Pass.walkAll t.nested).flatMap (·.faults)

/-- A piece with these malformed directives can be gone through. A lenient pass records them, and a
fatal one comes to the same or stops at the first of them. -/
def Settles (p : Piece) (faults : List Fault) : Prop :=
  ∀ es t, Traversed es t → ∃ es' t', t.step true p = .ok t' ∧ Traversed es' t' ∧
    t'.recorded.Perm (t.recorded ++ faults) ∧ t.step false p = stopAtFirst faults t'

variable {t t' : Traversal}

theorem emit_recorded {language : Option String} {content : String} {line : Int} {origin : Origin}
    {role : Option Role} (h : t.emit language content line origin role = .ok t') :
    t'.recorded = t.recorded := by
  unfold emit at h
  split at h
  · cases h
  · split at h
    · cases h
    · cases h
      rfl

theorem emitPayloads_recorded {language : Option String} {ps : List Directive.Payload}
    (h : ps.foldlM (emitPayload language) t = .ok t') : t'.recorded = t.recorded := by
  induction ps generalizing t with
  | nil =>
    cases h
    rfl
  | cons p ps ih =>
    rw [List.foldlM_cons] at h
    cases hp : emitPayload language t p with
    | error stop =>
      rw [hp] at h
      cases h
    | ok next =>
      rw [hp] at h
      rw [ih h]
      exact emit_recorded hp

/-- Events leave no record, and it makes no difference to them of which kind the pass is. -/
theorem step_event_recorded {lenient : Bool} {e : Event}
    (h : t.step lenient (.event e) = .ok t') : t'.recorded = t.recorded := by
  cases e with
  | heading level title place =>
    rw [step, enter] at h
    split at h <;> cases h
    rfl
  | directive d place =>
    rw [step, direct] at h
    split at h
    · cases h
    · have hrecorded := emitPayloads_recorded h
      exact hrecorded
  | fragment language content place =>
    rw [step] at h
    exact emit_recorded h
  | nested id content place =>
    rw [step] at h
    cases h
    rfl

theorem step_event_fatal (t : Traversal) (e : Event) :
    t.step false (.event e) = t.step true (.event e) := by
  cases e <;> rw [step, step]

theorem settles_event {e : Event}
    (hlevel : ∀ level title place, e = .heading level title place → 1 ≤ level) :
    Settles (.event e) [] := by
  intro es t ht
  obtain ⟨t', hstep, ht'⟩ := step_traversed ht true e hlevel
  refine ⟨_, t', hstep, ht', ?_, ?_⟩
  · rw [List.append_nil, step_event_recorded hstep]
  · rw [step_event_fatal, hstep]
    rfl

theorem settles_openFence (line : Int) : Settles (.openFence line) [] := by
  intro es t ht
  refine ⟨es, t, by rw [step], ht, by rw [List.append_nil], ?_⟩
  rw [step]
  rfl

theorem settles_rejected (fault : Fault) : Settles (.rejected fault) [fault] := by
  intro es t ht
  refine ⟨es, { t with faults := t.faults ++ [fault] }, ?_, ⟨ht.nests, ht.records, ht.fragments⟩,
    ?_, ?_⟩
  · rw [step]
    rfl
  · simp only [recorded, List.append_assoc]
    exact List.perm_append_comm.append_left t.faults
  · rw [step]
    rfl

/-- Pieces are gone through one after the other. -/
theorem run_settles {ps : List Piece} {fss : List (List Fault)}
    (h : List.Forall₂ Settles ps fss) {es : List Event} {t : Traversal} (ht : Traversed es t) :
    ∃ es' t', t.run true ps = .ok t' ∧ Traversed es' t' ∧
      t'.recorded.Perm (t.recorded ++ fss.flatten) ∧
      t.run false ps = stopAtFirst fss.flatten t' := by
  induction h generalizing es t with
  | nil =>
    refine ⟨es, t, by rw [run], ht, by simp, ?_⟩
    rw [run]
    rfl
  | @cons p fs ps fss hp _ ih =>
    obtain ⟨es₁, t₁, hstep, ht₁, hperm₁, hfatal₁⟩ := hp es t ht
    obtain ⟨es₂, t₂, hrun, ht₂, hperm₂, hfatal₂⟩ := ih ht₁
    refine ⟨es₂, t₂, by rw [run, hstep]; exact hrun, ht₂, ?_, ?_⟩
    · rw [List.flatten_cons, ← List.append_assoc]
      exact hperm₂.trans (hperm₁.append_right fss.flatten)
    · rw [run, hfatal₁, List.flatten_cons]
      cases fs with
      | nil => exact hfatal₂
      | cons fault later => rfl

theorem recorded_nested (t : Traversal) (p : Pass) :
    ({ t with nested := t.nested ++ [p] } : Traversal).recorded =
      t.recorded ++ p.walk.flatMap (·.faults) := by
  simp only [recorded, Pass.walkAll_concat, List.flatMap_append, List.append_assoc]

/-- What a pass records is what all passes of its tree have. -/
theorem faults_walk_finish (t : Traversal) (flavorId : String) :
    (t.finish flavorId).walk.flatMap (·.faults) = t.recorded := by
  rw [finish, Pass.walk, List.flatMap_cons]
  rfl

/-- A nested document is gone through by a pass of its own. -/
theorem settles_document {ps : List Piece} {fss : List (List Fault)} (flavorId : String)
    (line : Int) (h : List.Forall₂ Settles ps fss) :
    Settles (.document flavorId line ps) fss.flatten := by
  intro es t ht
  obtain ⟨es', inner, hrun, -, hperm, hfatal⟩ := run_settles h traversed_start
  refine ⟨es, { t with nested := t.nested ++ [inner.finish flavorId] }, ?_,
    ⟨ht.nests, ht.records, ht.fragments⟩, ?_, ?_⟩
  · rw [step, hrun]
  · rw [recorded_nested, faults_walk_finish]
    exact hperm.append_left t.recorded
  · rw [step, hfatal]
    cases fss.flatten <;> rfl

end Traversal

/-! ## Whole documents -/

open Traversal (Settles)

theorem read_settles {r : Registry} {f : Flavor} (hf : r.Complete f) (text : String) :
    List.Forall₂ Settles (Document.read r f text)
      ((f.scan text).map (Document.stepFaults r)) := by
  obtain ⟨n, hn⟩ : ∃ n, text.toList.length = n := ⟨_, rfl⟩
  induction n using Nat.strongRecOn generalizing f text with
  | ind n ih =>
    rw [Document.read_eq, List.forall₂_map_left_iff, List.forall₂_map_right_iff,
      List.forall₂_same]
    intro step hstep
    cases step with
    | rejected fault => exact Traversal.settles_rejected fault
    | openFence line => exact Traversal.settles_openFence line
    | event e =>
      cases e with
      | heading level title place =>
        refine Traversal.settles_event ?_
        rintro _ _ _ ⟨⟩
        exact Flavor.heading_level hstep
      | directive d place => exact Traversal.settles_event nofun
      | fragment language content place => exact Traversal.settles_event nofun
      | nested id content place =>
        -- the flavor is known, and the text of the nested document is shorter
        obtain ⟨inner, hinner, hcomplete⟩ := hf.nested (Flavor.nested_flavor hstep)
        have hlt := Flavor.length_lt_of_mem_scan hstep
        have hrec := ih _ (hn ▸ hlt) hcomplete content rfl
        have hpiece : Document.ofStep r (.event (.nested id content place)) =
            .document inner.id place.line (Document.read r inner content) := by
          rw [Document.ofStep, Document.ofEvent, Registry.named_eq_ok hinner]
        have hfaults : Document.stepFaults r (.event (.nested id content place)) =
            ((inner.scan content).map (Document.stepFaults r)).flatten := by
          rw [Document.stepFaults, hinner]
          exact Document.faults_eq r inner content
        rw [hpiece, hfaults]
        exact Traversal.settles_document inner.id place.line hrec

/-- How the two kinds of pass through a text agree, the lenient one ending with `p`. -/
structure Pass.Agrees (r : Registry) (f : Flavor) (text : String) (p : Pass) : Prop where
  lenient : Pass.ofText r f true text = .ok p
  recorded : (p.walk.flatMap (·.faults)).Perm (Document.faults r f text)
  fatal_ok_iff : ∀ q, Pass.ofText r f false text = .ok q ↔
    q = p ∧ ∀ inner ∈ p.walk, inner.faults = []
  fatal_error_iff : ∀ stop, Pass.ofText r f false text = .error stop ↔
    ∃ fault later, Document.faults r f text = fault :: later ∧ stop = .malformed fault

theorem ofText_eq {r : Registry} {f : Flavor} (hf : r.Complete f) (text : String) :
    ∃ p, Pass.ofText r f true text = .ok p ∧
      (p.walk.flatMap (·.faults)).Perm (Document.faults r f text) ∧
      Pass.ofText r f false text = stopAtFirst (Document.faults r f text) p := by
  obtain ⟨es, t, hrun, -, hperm, hfatal⟩ :=
    Traversal.run_settles (read_settles hf text) traversed_start
  have hfaults : ((f.scan text).map (Document.stepFaults r)).flatten =
      Document.faults r f text := (Document.faults_eq r f text).symm
  rw [hfaults] at hperm hfatal
  refine ⟨t.finish f.id, ?_, ?_, ?_⟩
  · rw [Pass.ofText, Pass.ofPieces, hrun]
    rfl
  · rw [Traversal.faults_walk_finish]
    exact hperm
  · rw [Pass.ofText, Pass.ofPieces, hfatal]
    cases Document.faults r f text <;> rfl

/-! ## One document -/

namespace Reading

/-- A fatal reader of a text sees all that a lenient one sees, if nothing is malformed, and else the
events that a lenient one sees before it is told of the first malformed directive. -/
inductive BreaksOff (f : Flavor) (text : String) : Prop where
  | never : (∀ fault, .rejected fault ∉ f.scan text) → ofText f false text = ofText f true text →
      BreaksOff f text
  | at (before after : List Step) (fault : Fault) :
      f.scan text = before ++ .rejected fault :: after → (∀ e, .rejected e ∉ before) →
      ofText f false text = ⟨before.filterMap Step.event?, [], some fault⟩ →
      ofText f true text = ⟨before.filterMap Step.event? ++ after.filterMap Step.event?,
        fault :: after.filterMap Step.fault?, none⟩ → BreaksOff f text

theorem breaksOff (f : Flavor) (text : String) : BreaksOff f text := by
  rcases exists_first_rejected (f.scan text) with h | ⟨before, after, fault, hscan, h⟩
  · have hboth := fun lenient => ofSteps_append h lenient []
    simp only [List.append_nil] at hboth
    exact .never h (by rw [ofText, ofText, hboth, hboth]; rfl)
  · refine .at before after fault hscan h ?_ ?_
    · rw [ofText, hscan, ofSteps_append h]
      simp [ofSteps]
    · rw [ofText, hscan, ofSteps_append h, ofSteps_lenient]
      rfl

end Reading

/-- A fatal pass through a text ends as a lenient one does if that one has nothing to record
anywhere, and else it stops at the first malformed directive of the text. Of the text alone a
fatal reader sees what a lenient one sees before it is told of anything malformed. -/
theorem ofText_agrees {r : Registry} {f : Flavor} (hf : r.Complete f) (text : String) :
    (∃ p, Pass.Agrees r f text p) ∧ Reading.BreaksOff f text := by
  obtain ⟨p, hlenient, hperm, hfatal⟩ := ofText_eq hf text
  refine ⟨⟨p, hlenient, hperm, ?_, ?_⟩, Reading.breaksOff f text⟩
  · intro q
    have hclean : (∀ inner ∈ p.walk, inner.faults = []) ↔ Document.faults r f text = [] := by
      rw [← List.flatMap_eq_nil_iff, ← List.perm_nil, ← List.perm_nil]
      exact ⟨hperm.symm.trans, hperm.trans⟩
    rw [hclean, hfatal]
    cases Document.faults r f text with
    | nil => simp [stopAtFirst, eq_comm]
    | cons fault later => simp [stopAtFirst]
  · intro stop
    rw [hfatal]
    cases Document.faults r f text with
    | nil => simp [stopAtFirst]
    | cons fault later => simp [stopAtFirst, eq_comm]

/-- The flavors that every run starts with are complete. -/
theorem Registry.complete_builtin : builtin.Complete .github := by
  have hinner : builtin.forName? "nested" = some .inner := by decide +kernel
  have hleads : ∀ g, builtin.Leads .github g → g = .github ∨ g = .inner := by
    intro g h
    cases h with
    | self => exact Or.inl rfl
    | nested hid hg hlater =>
      cases hid
      rw [hinner] at hg
      cases hg
      cases hlater with
      | self => exact Or.inr rfl
      | nested hid _ _ => cases hid
  intro g hg id hid
  rcases hleads g hg with rfl | rfl
  · cases hid
    exact ⟨.inner, hinner⟩
  · cases hid

/-- The first malformed directive is in a nested document, and the second one behind it. -/
theorem ofText_agrees_nested :
    let text := "```btxt\n<?btxt x?>\n```\n<?btxt y?>\n"
    Registry.builtin.Complete .github ∧
      (∃ p, Pass.Agrees .builtin .github text p) ∧ Reading.BreaksOff .github text := by
  intro text
  exact ⟨Registry.complete_builtin, ofText_agrees Registry.complete_builtin text⟩

end Literate
