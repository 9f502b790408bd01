import Literate.Proofs.Pass.Walk
import Literate.Proofs.Reading
import Mathlib.Data.List.Forall2

/-!
# What a pass does at each step

`Goes` lists all that a pass can do at one step of the scanner, and `step_goes` says that it does nothing
else. Whatever all of that keeps holds when a pass is through (`Pass.ofText_keeps`).

A nested document gets a pass of its own, through its own text: the passes right below a pass are those of
the documents nested in its text (`Pass.ofText_nested`). So the way down to a pass is also the way down to
a document (`Pass.ofText_at?`), and every pass of a tree is a pass through some text
(`Pass.ofText_of_mem_walk`).
-/

namespace Literate

theorem Registry.forName?_of_named {r : Registry} {id : String} {f : Flavor} (h : r.named id = .ok f) :
    r.forName? id = some f := by
  unfold named at h
  cases hid : r.forName? id with
  | none =>
    rw [hid] at h
    cases h
  | some g =>
    rw [hid] at h
    rw [Except.ok.inj h]

namespace Traversal

/-- A fragment that is written in one way and gets the configuration of its section in its language. -/
structure Emits (t : Traversal) (origin : Origin) (f : Fragment) : Prop where
  origin : f.origin = origin
  config : ∃ c, t.outline.outline.config f.node f.language = .ok c ∧
    f.config = { c with role := f.config.role }

/-- The traversal behind the settings of a directive, with its payloads still ahead. -/
def set (t : Traversal) (n : Nat) (d : Directive) : Traversal :=
  { t with
    outline := { t.outline with outline := t.outline.outline.apply n d }
    declared := declare t.declared d.destination? }

/-- The ways to go on at a step of the scanner. -/
inductive Goes (r : Registry) (lenient : Bool) (t : Traversal) : Step → Traversal → Prop where
  | heading {level : Int} {title : Option String} {place : Position} {outline : OpenOutline}
    (enter : t.outline.enter level title = .ok outline) :
    Goes r lenient t (.event (.heading level title place)) { t with outline }
  | directive {d : Directive} {place : Position} {n : Nat} {payloads : List Fragment}
    (current : t.outline.current? = some n)
    (emits : ∀ f ∈ payloads, (t.set n d).Emits .payload f) :
    Goes r lenient t (.event (.directive d place))
      { t.set n d with fragments := t.fragments ++ payloads }
  | fragment {language : Option String} {content : String} {place : Position} {f : Fragment}
    (emits : t.Emits .fence f) :
    Goes r lenient t (.event (.fragment language content place))
      { t with fragments := t.fragments ++ [f] }
  | nested {id content : String} {place : Position} {inner : Flavor} {p : Pass}
    (known : r.forName? id = some inner) (read : Pass.ofText r inner lenient content = .ok p) :
    Goes r lenient t (.event (.nested id content place)) { t with nested := t.nested ++ [p] }
  | rejected {fault : Directive.Fault} (passes : lenient = true) :
    Goes r lenient t (.rejected fault) { t with faults := t.faults ++ [fault] }
  | openFence {line : Int} : Goes r lenient t (.openFence line) t

variable {r : Registry} {lenient : Bool} {t t' : Traversal} {s : Step} {steps : List Step}

theorem emit_emits {language : Option String} {content : String} {line : Int} {origin : Origin}
    {role : Option Role} (h : t.emit language content line origin role = .ok t') :
    ∃ f, t' = { t with fragments := t.fragments ++ [f] } ∧ t.Emits origin f := by
  unfold emit at h
  split at h
  · cases h
  · split at h
    · cases h
    · rename_i config hconfig
      cases h
      exact ⟨_, rfl, rfl, config, hconfig, rfl⟩

theorem emitPayloads_emit {language : Option String} {ps : List Directive.Payload}
    (h : ps.foldlM (emitPayload language) t = .ok t') :
    ∃ fs, t' = { t with fragments := t.fragments ++ fs } ∧ ∀ f ∈ fs, t.Emits .payload f := by
  induction ps generalizing t with
  | nil =>
    cases h
    exact ⟨[], by rw [List.append_nil], List.forall_mem_nil _⟩
  | cons p ps ih =>
    rw [List.foldlM_cons] at h
    cases hp : emitPayload language t p with
    | error stop =>
      rw [hp] at h
      cases h
    | ok next =>
      rw [hp] at h
      obtain ⟨f, rfl, hf⟩ := emit_emits hp
      obtain ⟨fs, rfl, hfs⟩ := ih h
      refine ⟨f :: fs, by simp, List.forall_mem_cons.mpr ⟨hf, ?_⟩⟩
      -- emitting changes nothing that a configuration depends on
      exact fun f' hf' => ⟨(hfs f' hf').origin, (hfs f' hf').config⟩

/-- A pass goes on in one of the ways that there are, or not at all. -/
theorem step_goes (h : t.step lenient (Document.ofStep r s) = .ok t') : t.Goes r lenient s t' := by
  cases s with
  | rejected fault =>
    rw [Document.ofStep, step] at h
    split at h
    · rename_i hlenient
      cases h
      exact .rejected hlenient
    · cases h
  | openFence line =>
    rw [Document.ofStep, step] at h
    cases h
    exact .openFence
  | event e =>
    cases e with
    | heading level title place =>
      rw [Document.ofStep, Document.ofEvent, step, enter] at h
      · split at h
        · rename_i outline houtline
          cases h
          exact .heading houtline
        · cases h
        · cases h
      · intro _ _ _ heq
        cases heq
    | directive d place =>
      rw [Document.ofStep, Document.ofEvent, step, direct] at h
      · split at h
        · cases h
        · rename_i n hcurrent
          obtain ⟨fs, rfl, hfs⟩ := emitPayloads_emit (t := t.set n d) h
          exact .directive hcurrent hfs
      · intro _ _ _ heq
        cases heq
    | fragment language content place =>
      rw [Document.ofStep, Document.ofEvent, step] at h
      · obtain ⟨f, rfl, hf⟩ := emit_emits h
        exact .fragment hf
      · intro _ _ _ heq
        cases heq
    | nested id content place =>
      rw [Document.ofStep, Document.ofEvent] at h
      split at h
      · rename_i inner hinner
        rw [step] at h
        split at h
        · rename_i t₁ hrun
          cases h
          refine .nested (Registry.forName?_of_named hinner) ?_
          rw [Pass.ofText, Pass.ofPieces, hrun]
          rfl
        · cases h
      · rw [step] at h
        cases h

/-- What every way to go on keeps, with the steps up to there, a run keeps. -/
theorem run_keeps {I : List Step → Traversal → Prop}
    (keeps : ∀ {before s t t'}, I before t → t.Goes r lenient s t' → I (before ++ [s]) t')
    {before : List Step} (ht : I before t)
    (h : t.run lenient (steps.map (Document.ofStep r)) = .ok t') : I (before ++ steps) t' := by
  induction steps generalizing before t with
  | nil =>
    rw [List.map_nil, run] at h
    cases h
    rwa [List.append_nil]
  | cons s steps ih =>
    rw [List.map_cons, run] at h
    split at h
    · rename_i next hnext
      have hrest := ih (keeps ht (step_goes hnext)) h
      rwa [List.append_assoc] at hrest
    · cases h

end Traversal

namespace Pass

variable {r : Registry} {f : Flavor} {lenient : Bool} {text : String} {p : Pass}

/-- What holds at the start and is kept by every step holds when the pass is through. -/
theorem ofText_keeps {I : List Step → Traversal → Prop} (start : I [] .start)
    (keeps : ∀ {before s t t'}, I before t → t.Goes r lenient s t' → I (before ++ [s]) t')
    (h : ofText r f lenient text = .ok p) : ∃ t, I (f.scan text) t ∧ t.finish f.id = p := by
  rw [ofText, ofPieces, Document.read_eq] at h
  cases hrun : Traversal.run lenient .start ((f.scan text).map (Document.ofStep r)) with
  | error stop =>
    rw [hrun] at h
    cases h
  | ok t =>
    rw [hrun] at h
    exact ⟨t, Traversal.run_keeps keeps start hrun, Except.ok.inj h⟩

end Pass

/-! ## Nested documents -/

/-- The nested document that a step is: the id of its flavor, and its text. -/
def Step.nested? : Step → Option (String × String)
  | .event (.nested id content _) => some (id, content)
  | _ => none

/-- The documents that are nested in a text, not in one of them. -/
def Document.nested (f : Flavor) (text : String) : List (String × String) :=
  (f.scan text).filterMap Step.nested?

theorem Document.mem_nested {f : Flavor} {text id content : String} :
    (id, content) ∈ nested f text ↔ ∃ place, .event (.nested id content place) ∈ f.scan text := by
  rw [nested, List.mem_filterMap]
  constructor
  · rintro ⟨s, hs, hnested⟩
    unfold Step.nested? at hnested
    split at hnested
    · cases hnested
      exact ⟨_, hs⟩
    · cases hnested
  · rintro ⟨place, hmem⟩
    exact ⟨_, hmem, rfl⟩

/-- The flavor and the text of the document at the end of a way down from a text, if there is one and the
flavors on the way are known. -/
def Document.descend? (r : Registry) (f : Flavor) (text : String) : List Nat → Option (Flavor × String)
  | [] => some (f, text)
  | i :: path =>
    (nested f text)[i]?.bind fun document =>
      (r.forName? document.1).bind fun inner => descend? r inner document.2 path

theorem Document.descend?_cons {r : Registry} {f : Flavor} {text : String} {i : Nat} {path : List Nat}
    {x : Flavor × String} : descend? r f text (i :: path) = some x ↔
      ∃ id content inner, (nested f text)[i]? = some (id, content) ∧ r.forName? id = some inner ∧
        descend? r inner content path = some x := by
  simp only [descend?, Option.bind_eq_some_iff, Prod.exists]
  constructor
  · rintro ⟨id, content, hi, inner, hid, hpath⟩
    exact ⟨id, content, inner, hi, hid, hpath⟩
  · rintro ⟨id, content, inner, hi, hid, hpath⟩
    exact ⟨id, content, hi, inner, hid, hpath⟩

theorem Document.descend?_append (r : Registry) (f : Flavor) (text : String) (above path : List Nat) :
    descend? r f text (above ++ path) =
      (descend? r f text above).bind fun x => descend? r x.1 x.2 path := by
  induction above generalizing f text with
  | nil => rfl
  | cons i above ih =>
    rw [List.cons_append, descend?, descend?, Option.bind_assoc]
    congr 1
    funext document
    rw [Option.bind_assoc]
    congr 1
    funext inner
    exact ih inner document.2

namespace Pass

variable {r : Registry} {f : Flavor} {lenient : Bool} {text : String} {p q : Pass}

/-- Whether a pass is the one through a nested document. -/
def Through (r : Registry) (lenient : Bool) (document : String × String) (p : Pass) : Prop :=
  ∃ g, r.forName? document.1 = some g ∧ ofText r g lenient document.2 = .ok p

/-- The passes right below a pass are those through the documents nested in its text, in their order. -/
theorem ofText_nested (h : ofText r f lenient text = .ok p) :
    List.Forall₂ (Through r lenient) (Document.nested f text) p.nested := by
  obtain ⟨t, ht, rfl⟩ := ofText_keeps
    (I := fun steps t => List.Forall₂ (Through r lenient) (steps.filterMap Step.nested?) t.nested)
    .nil
    (by
      intro before s t t' ht hgoes
      rw [List.filterMap_append]
      cases hgoes with
      | nested known read =>
        exact List.rel_append ht (.cons ⟨_, known, read⟩ .nil)
      | heading | directive | fragment | rejected | openFence =>
        rwa [List.filterMap_cons_none rfl, List.filterMap_nil, List.append_nil])
    h
  exact ht

/-- At the end of a way down from a pass is the pass through the document at the end of that way. -/
theorem ofText_at? (h : ofText r f lenient text = .ok p) {path : List Nat}
    (hq : p.at? path = some q) :
    ∃ g inside, Document.descend? r f text path = some (g, inside) ∧
      ofText r g lenient inside = .ok q := by
  induction path generalizing f text p with
  | nil =>
    cases hq
    exact ⟨f, text, rfl, h⟩
  | cons i path ih =>
    obtain ⟨below, hbelow, hq⟩ := Option.bind_eq_some_iff.mp hq
    obtain ⟨hi, rfl⟩ := List.getElem?_eq_some_iff.mp hbelow
    have hnested := ofText_nested h
    have hlt : i < (Document.nested f text).length := hnested.length_eq ▸ hi
    obtain ⟨g, hg, hread⟩ := hnested.get hlt hi
    obtain ⟨g', inside, hdescend, hq⟩ := ih hread hq
    exact ⟨g', inside, Document.descend?_cons.mpr
      ⟨_, _, g, List.getElem?_eq_getElem hlt, hg, hdescend⟩, hq⟩

theorem ofText_of_mem_walk (h : ofText r f lenient text = .ok p) (hq : q ∈ p.walk) :
    ∃ g inside, ofText r g lenient inside = .ok q := by
  rw [← located_walk] at hq
  obtain ⟨⟨path, q⟩, hmem, rfl⟩ := List.mem_map.mp hq
  obtain ⟨g, inside, -, hread⟩ := ofText_at? h ((mem_located p path q).mp hmem)
  exact ⟨g, inside, hread⟩

end Pass

end Literate
