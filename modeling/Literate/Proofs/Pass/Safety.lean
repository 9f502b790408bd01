import Literate.Proofs.Directive.Acceptance
import Literate.Proofs.Outline.Destination
import Literate.Proofs.Pass.Leniency

/-!
# What no document can cause

With the flavors that every run starts with, a lenient pass goes through any text, and a fatal one
stops at a malformed directive or not at all: no text opens a section of level zero, resolves a mode
or a role to something else, closes the root, or nests a document of an unknown flavor
(`ofText_safe`). That part comes from `ofText_eq`.

The other part is about destinations. Reading refuses an empty one, so no directive sets it
(`routable_readAt`), so no section has it, so no fragment is sent there. `Routable` says this of each
of the three; every piece of a document keeps it (`Keeps`), and so does the pass of a nested one.
-/

namespace Literate

/-! ## Directives -/

namespace Directive

/-- Whether a directive does not set an empty destination. -/
def Routable (d : Directive) : Prop := ∀ a ∈ d.assignments, a ≠ .destination ""

theorem destination_ne_of_means {v : Written.Value} {name : String}
    (h : v.Means (.assignment (.destination name))) : name ≠ "" := by
  generalize hs : Setting.assignment (.destination name) = s at h
  cases h with
  | destination _ hne =>
    cases hs
    simpa using hne
  | on _ | off _ | mode _ _ | role _ _ | tag _ | payload _ => cases hs

/-- What the items of a directive assign is what their values mean. -/
theorem means_of_mem_itemsAt {m : Option Marker} {items : List Written.Item}
    {settings : List Setting} (h : List.Forall₂ (Written.Item.Accepted m) items settings)
    (p : Position) {a : Assignment}
    (ha : a ∈ (Written.itemsAt p items settings).filterMap Item.assignment?) :
    ∃ v : Written.Value, v.Means (.assignment a) := by
  induction h generalizing p with
  | nil => cases ha
  | @cons i s items settings hi _ ih =>
    rw [Written.itemsAt] at ha
    cases s with
    | assignment a' =>
      rcases List.mem_cons.mp ha with rfl | ha
      · exact ⟨i.value, hi.means⟩
      · exact ih _ ha
    | payload kind content => exact ih _ ha

theorem routable_readAt {c stop : Cursor} {d : Directive} (h : readAt c = .ok (d, stop)) :
    d.Routable := by
  obtain ⟨w, settings, rest, hw, -, rfl, -⟩ := readAt_sound h
  intro a ha
  obtain ⟨v, hv⟩ := means_of_mem_itemsAt hw.items _ ha
  rintro rfl
  exact destination_ne_of_means hv rfl

end Directive

/-! ## Sections -/

/-- Whether a fragment goes nowhere or to a destination with a name. -/
def Config.Routable (c : Config) : Prop := c.destination ≠ some ""

namespace Outline

/-- Whether no section says that fragments go to an empty destination. -/
def Routable (o : Outline) : Prop :=
  ∀ n language, o.said? n language .destination ≠ some (.text "")

theorem routable_iff {o : Outline} : o.Routable ↔ o.SendsTo (· ≠ "") := by
  constructor
  · rintro h n language name hsaid rfl
    exact h n language hsaid
  · intro h n language hsaid
    exact h n language "" hsaid rfl

theorem routable_root (level : Int) (title : Option String) : Routable (root level title) :=
  routable_iff.mpr (sendsTo_root level title)

variable {o : Outline} {n : Nat} {language : Option String}

theorem Routable.enter {b b' : OpenOutline} {level : Int} {title : Option String}
    (h : b.outline.Routable) (henter : b.enter level title = .ok b') : b'.outline.Routable :=
  routable_iff.mpr ((routable_iff.mp h).enter henter)

theorem Routable.apply (h : o.Routable) (n : Nat) {d : Directive} (hd : d.Routable) :
    Routable (o.apply n d) := by
  refine routable_iff.mpr ((routable_iff.mp h).apply n fun name hname => ?_)
  rintro rfl
  exact hd _ (Directive.mem_of_destination? hname) rfl

theorem Routable.config (h : o.Routable) {c : Config} (hc : o.config n language = .ok c) :
    c.Routable :=
  fun hempty => (routable_iff.mp h).config hc hempty rfl

end Outline

/-! ## Passes -/

/-- Whether every fragment of a pass, and of those below it, goes nowhere or to a destination with a
name. -/
def Pass.Routable (p : Pass) : Prop :=
  ∀ inner ∈ p.walk, ∀ fragment ∈ inner.fragments, fragment.config.Routable

namespace Traversal

/-- What makes all fragments routable, those that are there and those to come. -/
structure Routable (t : Traversal) : Prop where
  outline : t.outline.outline.Routable
  fragments : ∀ fragment ∈ t.fragments, fragment.config.Routable
  nested : ∀ inner ∈ Pass.walkAll t.nested, ∀ fragment ∈ inner.fragments,
    fragment.config.Routable

theorem routable_start : Routable start where
  outline := Outline.routable_root 0 none
  fragments := List.forall_mem_nil _
  nested := List.forall_mem_nil _

variable {t t' : Traversal}

theorem Routable.finish (h : t.Routable) (flavorId : String) : (t.finish flavorId).Routable := by
  intro inner hinner
  rw [Traversal.finish, Pass.walk] at hinner
  rcases List.mem_cons.mp hinner with rfl | hinner
  · exact h.fragments
  · exact h.nested inner hinner

theorem Routable.emit (h : t.Routable) {language : Option String} {content : String} {line : Int}
    {origin : Origin} {role : Option Role}
    (hemit : t.emit language content line origin role = .ok t') : t'.Routable := by
  unfold Traversal.emit at hemit
  split at hemit
  · cases hemit
  · split at hemit
    · cases hemit
    · rename_i config hconfig
      cases hemit
      refine ⟨h.outline, ?_, h.nested⟩
      intro fragment hmem
      rcases List.mem_append.mp hmem with hmem | hmem
      · exact h.fragments fragment hmem
      · obtain rfl := List.mem_singleton.mp hmem
        have hroutable : config.Routable := h.outline.config hconfig
        exact hroutable

theorem Routable.emitPayloads {language : Option String} {ps : List Directive.Payload}
    (h : t.Routable) (hfold : ps.foldlM (emitPayload language) t = .ok t') : t'.Routable := by
  induction ps generalizing t with
  | nil =>
    cases hfold
    exact h
  | cons p ps ih =>
    rw [List.foldlM_cons] at hfold
    cases hp : emitPayload language t p with
    | error stop =>
      rw [hp] at hfold
      cases hfold
    | ok next =>
      rw [hp] at hfold
      exact ih (h.emit hp) hfold

theorem Routable.enter (h : t.Routable) {level : Int} {title : Option String}
    (henter : t.enter level title = .ok t') : t'.Routable := by
  unfold Traversal.enter at henter
  split at henter
  · rename_i b hb
    cases henter
    exact ⟨h.outline.enter hb, h.fragments, h.nested⟩
  · cases henter
  · cases henter

theorem Routable.direct (h : t.Routable) {d : Directive} (hd : d.Routable)
    (hdirect : t.direct d = .ok t') : t'.Routable := by
  unfold Traversal.direct at hdirect
  split at hdirect
  · cases hdirect
  · rename_i n _
    have hset : Routable { t with
        outline := { t.outline with outline := t.outline.outline.apply n d }
        declared := declare t.declared d.destination? } :=
      ⟨h.outline.apply n hd, h.fragments, h.nested⟩
    exact hset.emitPayloads hdirect

/-- Whether fragments stay routable when a piece is gone through, by a pass of either kind. -/
def Keeps (p : Piece) : Prop :=
  ∀ lenient t t', Routable t → t.step lenient p = .ok t' → Routable t'

theorem keeps_event {e : Event} (h : ∀ d place, e = .directive d place → d.Routable) :
    Keeps (.event e) := by
  intro lenient t t' ht hstep
  cases e with
  | heading level title place =>
    rw [step] at hstep
    exact ht.enter hstep
  | directive d place =>
    rw [step] at hstep
    exact ht.direct (h d place rfl) hstep
  | fragment language content place =>
    rw [step] at hstep
    exact ht.emit hstep
  | nested id content place =>
    rw [step] at hstep
    cases hstep
    exact ht

theorem run_routable {ps : List Piece} (hps : ∀ p ∈ ps, Keeps p) {lenient : Bool}
    (ht : t.Routable) (hrun : t.run lenient ps = .ok t') : t'.Routable := by
  induction ps generalizing t with
  | nil =>
    rw [run] at hrun
    cases hrun
    exact ht
  | cons p ps ih =>
    rw [run] at hrun
    split at hrun
    · rename_i next hnext
      exact ih (fun q hq => hps q (List.mem_cons_of_mem p hq))
        (hps p List.mem_cons_self lenient t next ht hnext) hrun
    · cases hrun

theorem keeps_document {ps : List Piece} (flavorId : String) (line : Int)
    (h : ∀ p ∈ ps, Keeps p) : Keeps (.document flavorId line ps) := by
  intro lenient t t' ht hstep
  rw [step] at hstep
  split at hstep
  · rename_i inner hinner
    cases hstep
    refine ⟨ht.outline, ht.fragments, ?_⟩
    intro p hp
    rw [Pass.walkAll_concat] at hp
    rcases List.mem_append.mp hp with hp | hp
    · exact ht.nested p hp
    · exact (run_routable h routable_start hinner).finish flavorId p hp
  · cases hstep

theorem keeps_openFence (line : Int) : Keeps (.openFence line) := by
  intro lenient t t' ht hstep
  rw [step] at hstep
  cases hstep
  exact ht

theorem keeps_rejected (fault : Directive.Fault) : Keeps (.rejected fault) := by
  intro lenient t t' ht hstep
  rw [step] at hstep
  split at hstep
  · cases hstep
    exact ⟨ht.outline, ht.fragments, ht.nested⟩
  · cases hstep

theorem keeps_broken (stop : Stop) : Keeps (.broken stop) := by
  intro lenient t t' ht hstep
  rw [step] at hstep
  cases hstep

end Traversal

/-! ## Whole documents -/

open Traversal (Keeps)

/-- A directive that the scanner finds is one that was read. -/
theorem Flavor.routable_directive {f : Flavor} {atStart : Bool} {c : Cursor} {d : Directive}
    {place : Position} (h : Step.event (.directive d place) ∈ f.scanFrom atStart c) :
    d.Routable := by
  rcases event_mem_scanFrom h with ⟨word, content, place', heq⟩ | ⟨c', h⟩ | ⟨c', d', stop, heq, hd⟩
  · unfold fenceEvent at heq
    split at heq
    · split at heq <;> cases heq
    · cases heq
  · unfold headingSteps at h
    split at h <;> simp at h
  · cases heq
    exact Directive.routable_readAt hd

theorem read_keeps (r : Registry) (f : Flavor) (text : String) :
    ∀ p ∈ Document.read r f text, Keeps p := by
  obtain ⟨n, hn⟩ : ∃ n, text.toList.length = n := ⟨_, rfl⟩
  induction n using Nat.strongRecOn generalizing f text with
  | ind n ih =>
    intro p hp
    rw [Document.read_eq] at hp
    obtain ⟨step, hstep, rfl⟩ := List.mem_map.mp hp
    cases step with
    | rejected fault => exact Traversal.keeps_rejected fault
    | openFence line => exact Traversal.keeps_openFence line
    | event e =>
      cases e with
      | heading level title place => exact Traversal.keeps_event nofun
      | fragment language content place => exact Traversal.keeps_event nofun
      | directive d place =>
        refine Traversal.keeps_event ?_
        rintro _ _ ⟨⟩
        exact Flavor.routable_directive hstep
      | nested id content place =>
        rw [Document.ofStep, Document.ofEvent]
        split
        · -- the text of the nested document is shorter
          rename_i inner _
          have hlt := Flavor.length_lt_of_mem_scan hstep
          exact Traversal.keeps_document inner.id place.line (ih _ (hn ▸ hlt) inner content rfl)
        · exact Traversal.keeps_broken _

theorem routable_ofText {r : Registry} {f : Flavor} {lenient : Bool} {text : String} {p : Pass}
    (h : Pass.ofText r f lenient text = .ok p) : p.Routable := by
  rw [Pass.ofText, Pass.ofPieces] at h
  cases hrun : Traversal.run lenient .start (Document.read r f text) with
  | error stop =>
    rw [hrun] at h
    cases h
  | ok t =>
    rw [hrun] at h
    cases h
    exact (Traversal.run_routable (read_keeps r f text) Traversal.routable_start hrun).finish f.id

/-- The flavors that every run starts with are complete. -/
theorem Registry.complete_of_builtin {f : Flavor} (hf : f = .github ∨ f = .inner) :
    builtin.Complete f := by
  rcases hf with rfl | rfl
  · exact complete_builtin
  · have hnested : Flavor.github.nested = some "nested" := rfl
    obtain ⟨g, hg, hcomplete⟩ := complete_builtin.nested hnested
    have hinner : builtin.forName? "nested" = some .inner := by decide +kernel
    rw [hinner] at hg
    cases hg
    exact hcomplete

/-- A lenient pass through a text comes to its end, and a fatal one comes to its end or stops at a
malformed directive; nothing else can stop a pass. Every fragment, also those of nested documents,
goes nowhere or to a destination with a name. -/
theorem ofText_safe {f : Flavor} (hf : f = .github ∨ f = .inner) (text : String) :
    (∃ p, Pass.ofText .builtin f true text = .ok p) ∧
      ((∃ p, Pass.ofText .builtin f false text = .ok p) ∨
        ∃ fault, Pass.ofText .builtin f false text = .error (.malformed fault)) ∧
      ∀ lenient p, Pass.ofText .builtin f lenient text = .ok p → p.Routable := by
  obtain ⟨p, hlenient, -, hfatal⟩ := ofText_eq (Registry.complete_of_builtin hf) text
  refine ⟨⟨p, hlenient⟩, ?_, fun lenient q hq => routable_ofText hq⟩
  rw [hfatal]
  cases Document.faults .builtin f text with
  | nil => exact Or.inl ⟨p, rfl⟩
  | cons fault later => exact Or.inr ⟨fault, rfl⟩

/-- A malformed directive in a nested document, behind a heading and a destination. -/
theorem ofText_safe_nested :
    let text := "# A\n<?btxt filename='a.py'?>\n```btxt\n## B\n<?btxt filename=''?>\n```\n"
    (Flavor.github = .github ∨ Flavor.github = .inner) ∧
      (∃ p, Pass.ofText .builtin .github true text = .ok p) ∧
      ((∃ p, Pass.ofText .builtin .github false text = .ok p) ∨
        ∃ fault, Pass.ofText .builtin .github false text = .error (.malformed fault)) ∧
      ∀ lenient p, Pass.ofText .builtin .github lenient text = .ok p → p.Routable := by
  intro text
  exact ⟨Or.inl rfl, ofText_safe (Or.inl rfl) text⟩

end Literate
