import Literate.Pass
import Literate.Proofs.Outline.Scope
import Mathlib.Data.List.Forall2

/-!
# How fragments are configured

The configuration of every fragment that going through a document produces is what the rule of
`Declaration.Governs` makes of the headings and directives up to that fragment. The events of the
document are all that this speaks of; the outline, its stack and its tables stay inside the proof.

`Traversed` is what holds after each event. Every kind of event keeps it (`step_traversed`), hence
any number of them do (`run_traversed`).
-/

namespace Literate

open Directive (Assignment)
open Outline (Nests Records Resolved declarationsOf)

/-! ## Values suit their properties -/

/-- Whether a property can have a value, or can have none. -/
def Property.Admits (v : Option Value) : Property → Prop
  | .destination | .tag => ∃ s : Option String, v = s.map .text
  | .mode => ∃ m, v = some (.mode m)
  | .ignore => ∃ b, v = some (.flag b)
  | .role => ∃ r, v = some (.role r)

theorem Property.admits_value (a : Assignment) : a.property.Admits (some a.value) := by
  cases a with
  | destination s | tag s => exact ⟨some s, rfl⟩
  | mode m => exact ⟨m, rfl⟩
  | ignore b => exact ⟨b, rfl⟩
  | role r => exact ⟨r, rfl⟩

theorem Property.admits_default (p : Property) : p.Admits p.default := by
  cases p with
  | destination | tag => exact ⟨none, rfl⟩
  | mode | ignore | role => exact ⟨_, rfl⟩

/-- The rule gives every property a value that suits it. -/
theorem Outline.Resolved.admits {levels : List Int} {ds : List Declaration} {n : Nat}
    {language : Option String} {key : Property} {v : Option Value}
    (h : Resolved levels ds n language key v) : key.Admits v := by
  cases h with
  | declared hd =>
    rw [← hd.counts.key]
    exact Property.admits_value _
  | undeclared _ => exact Property.admits_default key

/-- The configuration that the declarations so far give to a section's fragments in a language. -/
structure Config.ResolvedBy (levels : List Int) (ds : List Declaration) (n : Nat)
    (language : Option String) (c : Config) : Prop where
  destination : Resolved levels ds n language .destination (c.destination.map .text)
  mode : Resolved levels ds n language .mode (some (.mode c.mode))
  tag : Resolved levels ds n language .tag (c.tag.map .text)
  ignore : Resolved levels ds n language .ignore (some (.flag c.ignore))
  role : Resolved levels ds n language .role (some (.role c.role))

/-- A section has a configuration, and it is the one by the rule. -/
theorem Outline.config_resolved {b : OpenOutline} {levels : List Int} {ds : List Declaration}
    (hn : Nests b levels) (hr : Records b.outline ds) {n : Nat} (hle : n ≤ levels.length)
    (language : Option String) :
    ∃ c, b.outline.config n language = .ok c ∧ c.ResolvedBy levels ds n language := by
  have hres := resolve_resolved hn hr hle language
  obtain ⟨d, hd⟩ := (hres .destination).admits
  obtain ⟨m, hm⟩ := (hres .mode).admits
  obtain ⟨t, ht⟩ := (hres .tag).admits
  obtain ⟨i, hi⟩ := (hres .ignore).admits
  obtain ⟨r, hrole⟩ := (hres .role).admits
  refine ⟨⟨d, m, t, i, r⟩, ?_, ⟨hd ▸ hres _, hm ▸ hres _, ht ▸ hres _, hi ▸ hres _,
    hrole ▸ hres _⟩⟩
  rw [Outline.config, hd, hm, ht, hi, hrole]
  cases d <;> cases t <;> rfl

/-! ## What the events say -/

/-- The levels of the headings. -/
def headings (es : List Event) : List Int :=
  es.filterMap fun e => match e with | .heading level _ _ => some level | _ => none

/-- The declarations of the directives from an event on, the section there being given. -/
def declarationsFrom (n : Nat) : List Event → List Declaration
  | [] => []
  | .heading .. :: es => declarationsFrom (n + 1) es
  | .directive d _ :: es => declarationsOf n d ++ declarationsFrom n es
  | _ :: es => declarationsFrom n es

/-- The declarations of the directives, each in the section that it stands in. -/
def declarations (es : List Event) : List Declaration := declarationsFrom 0 es

/-- A fragment as it is written. -/
structure Emission where
  language : Option String
  content : String
  line : Int
  origin : Origin
  /-- The role that it has in any case. -/
  role : Option Role

/-- The payload of a directive as a fragment. -/
def Emission.ofPayload (language : Option String) (p : Directive.Payload) : Emission :=
  ⟨language, p.content, p.span.line, .payload, p.kind.role?⟩

/-- The fragments that an event brings. -/
def Event.emissions : Event → List Emission
  | .fragment language content place => [⟨language, content, place.line, .fence, none⟩]
  | .directive d _ => d.orderedPayloads.map (.ofPayload d.language)
  | _ => []

/-- The fragments that the events bring, each with the number of its event. -/
def emissions (es : List Event) : List (Nat × Emission) :=
  es.zipIdx.flatMap fun x => x.1.emissions.map (x.2, ·)

/-- A fragment of a section, written in one way and configured by the declarations so far. -/
structure Emission.Becomes (levels : List Int) (ds : List Declaration) (e : Emission)
    (f : Fragment) : Prop where
  node : f.node = levels.length
  language : f.language = e.language
  content : f.content = e.content
  line : f.line = e.line
  origin : f.origin = e.origin
  config : ∃ c : Config, c.ResolvedBy levels ds levels.length e.language ∧
    f.config = { c with role := e.role.getD c.role }

/-- Whether the events bring a fragment with their event number `x.1`: it belongs to the section of
the last heading before that event, and the directives up to and with that event configure it. -/
def Brings (es : List Event) (x : Nat × Emission) (f : Fragment) : Prop :=
  x.2.Becomes (headings (es.take x.1)) (declarations (es.take (x.1 + 1))) f

theorem headings_append (es es' : List Event) :
    headings (es ++ es') = headings es ++ headings es' := by
  rw [headings, List.filterMap_append, headings, headings]

theorem declarationsFrom_append (n : Nat) (es es' : List Event) :
    declarationsFrom n (es ++ es') =
      declarationsFrom n es ++ declarationsFrom (n + (headings es).length) es' := by
  induction es generalizing n with
  | nil => simp [headings, declarationsFrom]
  | cons e es ih =>
    cases e with
    | heading level title place =>
      have hlen : n + (headings (.heading level title place :: es)).length =
          n + 1 + (headings es).length := by
        simp only [headings, List.filterMap_cons, List.length_cons]
        omega
      rw [List.cons_append, declarationsFrom, declarationsFrom, ih, hlen]
    | directive d place =>
      rw [List.cons_append, declarationsFrom, declarationsFrom, ih, List.append_assoc]
      rfl
    | fragment language content place =>
      rw [List.cons_append, declarationsFrom, declarationsFrom, ih]
      · rfl
      all_goals simp
    | nested flavorId content place =>
      rw [List.cons_append, declarationsFrom, declarationsFrom, ih]
      · rfl
      all_goals simp

theorem declarations_append (es : List Event) (e : Event) :
    declarations (es ++ [e]) =
      declarations es ++ declarationsFrom (headings es).length [e] := by
  rw [declarations, declarationsFrom_append, Nat.zero_add, declarations]

theorem emissions_append (es : List Event) (e : Event) :
    emissions (es ++ [e]) = emissions es ++ e.emissions.map (es.length, ·) := by
  simp [emissions, List.zipIdx_append]

/-- A fragment comes with an event that is there. -/
theorem lt_length_of_mem_emissions {es : List Event} {x : Nat × Emission}
    (h : x ∈ emissions es) : x.1 < es.length := by
  obtain ⟨y, hy, hx⟩ := List.mem_flatMap.mp h
  obtain ⟨em, -, rfl⟩ := List.mem_map.mp hx
  exact List.snd_lt_of_mem_zipIdx hy

/-- What the events bring does not depend on later events. -/
theorem brings_append {es : List Event} {x : Nat × Emission} {f : Fragment}
    (hx : x.1 < es.length) (e : Event) : Brings (es ++ [e]) x f ↔ Brings es x f := by
  rw [Brings, Brings, List.take_append_of_le_length (Nat.le_of_lt hx),
    List.take_append_of_le_length hx]

/-- The fragments of the last event belong to the section before it, and all directives configure
them. -/
theorem brings_last {es : List Event} {e : Event} {em : Emission} {f : Fragment} :
    Brings (es ++ [e]) (es.length, em) f ↔
      em.Becomes (headings es) (declarations (es ++ [e])) f := by
  rw [Brings, List.take_left, List.take_of_length_le (by simp)]

/-! ## One step and all steps -/

/-- One more fragment is configured by the declarations so far. -/
theorem Traversal.emit_becomes {t : Traversal} {levels : List Int} {ds : List Declaration}
    (hn : Nests t.outline levels) (hr : Records t.outline.outline ds) (e : Emission) :
    ∃ f, t.emit e.language e.content e.line e.origin e.role =
        .ok { t with fragments := t.fragments ++ [f] } ∧ e.Becomes levels ds f := by
  obtain ⟨c, hc, hres⟩ := Outline.config_resolved hn hr (Nat.le_refl _) e.language
  refine ⟨⟨t.fragments.length, e.language, e.content, levels.length,
    { c with role := e.role.getD c.role }, e.line, e.origin⟩, ?_, ⟨rfl, rfl, rfl, rfl, rfl,
    c, hres, rfl⟩⟩
  rw [Traversal.emit, hn.current?]
  simp only [hc]

/-- The payloads of a directive become fragments one after the other. -/
theorem Traversal.emitPayloads_become {levels : List Int} {ds : List Declaration}
    (language : Option String) (ps : List Directive.Payload) {t : Traversal}
    (hn : Nests t.outline levels) (hr : Records t.outline.outline ds) :
    ∃ fs, ps.foldlM (Traversal.emitPayload language) t =
        .ok { t with fragments := t.fragments ++ fs } ∧
      List.Forall₂ (Emission.Becomes levels ds) (ps.map (.ofPayload language)) fs := by
  induction ps generalizing t with
  | nil => exact ⟨[], by simp [pure, Except.pure], .nil⟩
  | cons p ps ih =>
    obtain ⟨f, hemit, hf⟩ := Traversal.emit_becomes hn hr (.ofPayload language p)
    obtain ⟨fs, hfold, hfs⟩ := ih (t := { t with fragments := t.fragments ++ [f] }) hn hr
    refine ⟨f :: fs, ?_, .cons hf hfs⟩
    have hstep : Traversal.emitPayload language t p =
        .ok { t with fragments := t.fragments ++ [f] } := hemit
    rw [List.foldlM_cons, hstep]
    show ps.foldlM (Traversal.emitPayload language) _ = _
    rw [hfold, List.append_assoc]
    rfl

/-- What holds once some events are gone through. -/
structure Traversed (es : List Event) (t : Traversal) : Prop where
  nests : Nests t.outline (headings es)
  records : Records t.outline.outline (declarations es)
  fragments : List.Forall₂ (Brings es) (emissions es) t.fragments

theorem traversed_start : Traversed [] .start where
  nests := Outline.nests_start none
  records := Outline.records_root 0 none
  fragments := .nil

/-- What is to be shown of one more event: that the sections and their properties are those of its
heading and its directive, and that it brings its own fragments. -/
theorem Traversed.append {es : List Event} {t t' : Traversal} {e : Event} {fs : List Fragment}
    (h : Traversed es t) (hn : Nests t'.outline (headings es ++ headings [e]))
    (hr : Records t'.outline.outline
      (declarations es ++ declarationsFrom (headings es).length [e]))
    (hfs : List.Forall₂ (Emission.Becomes (headings es)
      (declarations es ++ declarationsFrom (headings es).length [e])) e.emissions fs)
    (ht : t'.fragments = t.fragments ++ fs) : Traversed (es ++ [e]) t' where
  nests := by rwa [headings_append]
  records := by rwa [declarations_append]
  fragments := by
    rw [emissions_append, ht]
    refine List.rel_append ?_ ?_
    · have hboth := (List.forall₂_and_left (emissions es) t.fragments).mpr
        ⟨fun x hx => lt_length_of_mem_emissions hx, h.fragments⟩
      exact hboth.imp fun x f hx => (brings_append hx.1 e).mpr hx.2
    · rw [List.forall₂_map_left_iff]
      refine hfs.imp fun em f hf => brings_last.mpr ?_
      rwa [declarations_append]

/-- Every event is gone through, and what holds before it holds after it. -/
theorem step_traversed {es : List Event} {t : Traversal} (h : Traversed es t) (lenient : Bool)
    (e : Event) (hlevel : ∀ level title place, e = .heading level title place → 1 ≤ level) :
    ∃ t', t.step lenient (.event e) = .ok t' ∧ Traversed (es ++ [e]) t' := by
  have hnests : Nests t.outline (headings es ++ []) := by
    rw [List.append_nil]
    exact h.nests
  have hrecords : Records t.outline.outline (declarations es ++ []) := by
    rw [List.append_nil]
    exact h.records
  cases e with
  | heading level title place =>
    obtain ⟨b, hb, hopened, houtline⟩ := h.nests.enter (hlevel _ _ _ rfl) title
    refine ⟨{ t with outline := b }, ?_, h.append hopened ?_ .nil (List.append_nil _).symm⟩
    · rw [Traversal.step, Traversal.enter, hb]
    · show Records b.outline (declarations es ++ [])
      rw [houtline]
      exact hrecords.addBelow _ level title
  | directive d place =>
    -- the properties are set before the payloads become fragments
    obtain ⟨set, hset⟩ : ∃ set : Traversal, set = { t with
        outline := { t.outline with outline := t.outline.outline.apply (headings es).length d }
        declared := Traversal.declare t.declared d.destination? } := ⟨_, rfl⟩
    have hopened : Nests set.outline (headings es ++ []) := by
      rw [hset]
      exact hnests.apply (headings es).length d
    have hsaid : Records set.outline.outline
        (declarations es ++ declarationsFrom (headings es).length [.directive d place]) := by
      rw [hset]
      show Records _ (declarations es ++ (declarationsOf (headings es).length d ++ []))
      rw [List.append_nil]
      exact h.records.apply (by rw [h.nests.length]; omega) d
    obtain ⟨fs, hfold, hfs⟩ := Traversal.emitPayloads_become d.language d.orderedPayloads
      (by rwa [List.append_nil] at hopened) hsaid
    refine ⟨{ set with fragments := set.fragments ++ fs }, ?_,
      h.append hopened hsaid hfs (by rw [hset])⟩
    rw [Traversal.step, Traversal.direct, h.nests.current?, ← hfold, hset]
  | fragment language content place =>
    obtain ⟨f, hemit, hf⟩ := Traversal.emit_becomes h.nests hrecords
      ⟨language, content, place.line, .fence, none⟩
    refine ⟨{ t with fragments := t.fragments ++ [f] }, ?_,
      h.append hnests hrecords (.cons hf .nil) rfl⟩
    rw [Traversal.step]
    exact hemit
  | nested flavorId content place =>
    exact ⟨t, by rw [Traversal.step], h.append hnests hrecords .nil (List.append_nil _).symm⟩

theorem run_traversed (lenient : Bool) (es' : List Event)
    (hlevel : ∀ level title place, .heading level title place ∈ es' → 1 ≤ level)
    {es : List Event} {t : Traversal} (h : Traversed es t) :
    ∃ t', t.run lenient (es'.map .event) = .ok t' ∧ Traversed (es ++ es') t' := by
  induction es' generalizing es t with
  | nil => exact ⟨t, by rw [List.map_nil, Traversal.run], by rwa [List.append_nil]⟩
  | cons e es' ih =>
    obtain ⟨t', hstep, ht'⟩ := step_traversed h lenient e fun level title place he =>
      hlevel level title place (by simp [he])
    obtain ⟨t'', hrun, ht''⟩ := ih (fun level title place he =>
      hlevel level title place (List.mem_cons_of_mem e he)) ht'
    refine ⟨t'', ?_, ?_⟩
    · rw [List.map_cons, Traversal.run, hstep]
      exact hrun
    · rwa [List.append_assoc, List.singleton_append] at ht''

/-- Going through headings, directives and fences brings exactly the fragments that are written, in
order, and each is configured by the rule: what its section and the sections around it had declared up
to its event. -/
theorem fragments_configured (flavorId : String) (lenient : Bool) (es : List Event)
    (hlevel : ∀ level title place, .heading level title place ∈ es → 1 ≤ level) :
    ∃ p, Pass.ofPieces flavorId lenient (es.map .event) = .ok p ∧
      List.Forall₂ (Brings es) (emissions es) p.fragments := by
  obtain ⟨t, hrun, ht⟩ := run_traversed lenient es hlevel traversed_start
  refine ⟨t.finish flavorId, ?_, ht.fragments⟩
  rw [Pass.ofPieces, hrun]
  rfl

/-- A destination for the whole document and another one for a language in its first section. -/
def twoSections : List Event :=
  [.directive ⟨none, [.destination "test.rs"], [], ⟨0, 29, 1⟩⟩ ⟨0, 1⟩,
    .heading 1 (some "A") ⟨30, 2⟩,
    .directive ⟨some "rust", [.destination "foo.rs"], [⟨.pre, "use a;", ⟨50, 62, 3⟩⟩],
      ⟨34, 66, 3⟩⟩ ⟨34, 3⟩,
    .fragment (some "rust") "f();\n" ⟨67, 4⟩,
    .heading 1 (some "B") ⟨84, 7⟩,
    .fragment (some "rust") "g();\n" ⟨88, 8⟩]

theorem fragments_configured_twoSections :
    (∀ level title place, .heading level title place ∈ twoSections → 1 ≤ level) ∧
      ∃ p, Pass.ofPieces "github" false (twoSections.map .event) = .ok p ∧
        List.Forall₂ (Brings twoSections) (emissions twoSections) p.fragments := by
  have hlevel : ∀ level title place, .heading level title place ∈ twoSections → 1 ≤ level := by
    intro level title place h
    simp only [twoSections, List.mem_cons, Event.heading.injEq, reduceCtorEq, List.not_mem_nil,
      or_false, false_or] at h
    omega
  exact ⟨hlevel, fragments_configured "github" false twoSections hlevel⟩

end Literate
