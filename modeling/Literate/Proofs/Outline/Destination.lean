import Literate.Proofs.Outline.Scope
import Mathlib.Data.List.Induction

/-!
# Which destinations an outline can give

A fragment goes to a destination only if some section says so (`SendsTo.config`), and a section says only
what a directive told it: of the destinations of one directive, the last one (`said?_apply`). So whatever is
true of the destinations of all directives is true of the destinations of all fragments.
-/

namespace Literate

/-- The destination of a directive is one that it sets. -/
theorem Directive.mem_of_destination? {d : Directive} {name : String}
    (h : d.destination? = some name) : .destination name ∈ d.assignments := by
  obtain ⟨language, as, payloads, span⟩ := d
  induction as using List.reverseRecOn with
  | nil => cases h
  | append_singleton as a ih =>
    simp only [destination?, List.foldl_append, List.foldl_cons, List.foldl_nil] at ih h ⊢
    split at h
    · cases h
      simp
    · exact List.mem_append_left _ (ih h)

namespace Outline

open Directive (Assignment)

variable {o : Outline} {n : Nat} {language : Option String} {P Q : String → Prop}

/-- A property that has no default has a value only if some section says so. -/
theorem said?_of_resolve {v : Value} (h : o.resolve n language .destination = some v) :
    ∃ i l, o.said? i l .destination = some v := by
  rw [resolve, Property.default, Option.or_none] at h
  obtain ⟨before, i, after, -, hi, -⟩ := List.findSome?_eq_some_iff.mp h
  obtain ⟨s, hs, hv⟩ := Option.bind_eq_some_iff.mp hi
  have hsaid : ∀ l, o.said? i l .destination = s.said? l .destination := by
    intro l
    rw [said?, hs, Option.bind_some]
  rw [Section.value?_eq] at hv
  rcases Option.or_eq_some_iff.mp hv with hown | ⟨-, hshared⟩
  · obtain ⟨l, -, hown⟩ := Option.bind_eq_some_iff.mp hown
    exact ⟨i, some l, by rw [hsaid, hown]⟩
  · exact ⟨i, none, by rw [hsaid, hshared]⟩

theorem length_apply (o : Outline) (n : Nat) (d : Directive) : (o.apply n d).length = o.length := by
  rw [apply]
  generalize d.assignments = as
  induction as generalizing o with
  | nil => rfl
  | cons a as ih => rw [List.foldl_cons, ih, length_declare]

/-- A directive for a section that there is not changes nothing. -/
theorem apply_of_length_le (h : o.length ≤ n) (d : Directive) : o.apply n d = o := by
  rw [apply]
  generalize d.assignments = as
  induction as with
  | nil => rfl
  | cons a as ih => rw [List.foldl_cons, declare, List.modify_eq_self h, ih]

/-- A directive tells a section its last destination, for the fragments that it is about. -/
theorem said?_apply (h : n < o.length) (d : Directive) (k : Nat) (language : Option String) :
    (o.apply n d).said? k language .destination =
      if k = n ∧ language = d.language then
        (d.destination?.map Value.text).or (o.said? k language .destination)
      else o.said? k language .destination := by
  obtain ⟨l, as, ps, span⟩ := d
  induction as using List.reverseRecOn with
  | nil => simp [apply, Directive.destination?]
  | append_singleton as a ih =>
    have hlength := length_apply o n ⟨l, as, ps, span⟩
    simp only [apply, Directive.destination?, List.foldl_append, List.foldl_cons, List.foldl_nil]
      at ih hlength ⊢
    rw [said?_declare (by rw [hlength]; exact h), ih]
    cases a with
    | destination name =>
      by_cases hplace : k = n ∧ language = l
      · simp [hplace, Assignment.property, Assignment.value]
      · simp [hplace, Assignment.property]
    | mode m | tag name | ignore b | role r => simp [Assignment.property]

/-- Whether all destinations that sections say are of some kind. -/
def SendsTo (o : Outline) (P : String → Prop) : Prop :=
  ∀ n language name, o.said? n language .destination = some (.text name) → P name

theorem SendsTo.mono (h : o.SendsTo P) (hPQ : ∀ name, P name → Q name) : o.SendsTo Q :=
  fun n language name hsaid => hPQ name (h n language name hsaid)

theorem sendsTo_root (level : Int) (title : Option String) : SendsTo (root level title) P := by
  intro n language name
  rw [records_root level title n language]
  nofun

theorem SendsTo.addBelow (h : o.SendsTo P) (p : Nat) (level : Int) (title : Option String) :
    SendsTo (OpenOutline.addBelow o p level title) P := by
  intro n language name
  rw [said?_addBelow]
  exact h n language name

theorem SendsTo.enter {b b' : OpenOutline} {level : Int} {title : Option String}
    (h : b.outline.SendsTo P) (henter : b.enter level title = .ok b') : b'.outline.SendsTo P := by
  unfold OpenOutline.enter at henter
  split at henter
  · cases henter
  · simp only at henter
    split at henter
    · cases henter
    · cases henter
      exact h.addBelow _ level title

theorem SendsTo.apply (h : o.SendsTo P) (n : Nat) {d : Directive}
    (hd : ∀ name, d.destination? = some name → P name) : SendsTo (o.apply n d) P := by
  rcases Nat.lt_or_ge n o.length with hn | hn
  · intro k language name hsaid
    rw [said?_apply hn] at hsaid
    split at hsaid
    · rcases Option.or_eq_some_iff.mp hsaid with hnew | ⟨-, hold⟩
      · obtain ⟨name', hname, heq⟩ := Option.map_eq_some_iff.mp hnew
        cases heq
        exact hd name hname
      · exact h k language name hold
    · exact h k language name hsaid
  · rwa [apply_of_length_le hn]

theorem text?_eq_some {v : Option Value} {name : String} (h : config.text? v = some name) :
    v = some (.text name) := by
  unfold config.text? at h
  split at h
  · rw [Option.some.inj h]
  · cases h

theorem SendsTo.config (h : o.SendsTo P) {c : Config} (hc : o.config n language = .ok c)
    {name : String} (hname : c.destination = some name) : P name := by
  unfold Outline.config at hc
  simp only at hc
  split at hc
  · cases hc
    obtain ⟨k, l, hsaid⟩ := said?_of_resolve (text?_eq_some hname)
    exact h k l name hsaid
  · cases hc

end Outline

end Literate
