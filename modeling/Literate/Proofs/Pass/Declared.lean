import Literate.Proofs.Outline.Destination
import Literate.Proofs.Pass.Steps
import Literate.Proofs.Plan.Assembly

/-!
# Destinations are declared

A pass declares each destination that a directive of its text sets, once. Its sections say no others, so no
fragment of the pass goes to one that it does not declare (`Pass.declares_ofText`). This holds of each pass
of a tree, so a plan has no destinations but declared ones (`Plan.mem_declared`).
-/

namespace Literate

namespace Traversal

variable {declared : List String} {destination : Option String} {r : Registry} {lenient : Bool}
  {t t' : Traversal} {s : Step}

theorem mem_declare {name : String} :
    name ∈ declare declared destination ↔ name ∈ declared ∨ destination = some name := by
  cases destination with
  | none => simp [declare]
  | some d =>
    by_cases hd : d ∈ declared
    · simp only [declare, List.contains_eq_mem, hd, decide_true, if_true, Option.some.injEq]
      exact ⟨Or.inl, fun h => h.elim id (fun heq => heq ▸ hd)⟩
    · simp [declare, hd, eq_comm]

theorem nodup_declare (h : declared.Nodup) : (declare declared destination).Nodup := by
  cases destination with
  | none => exact h
  | some d =>
    by_cases hd : d ∈ declared
    · simpa [declare, hd] using h
    · simp only [declare, List.contains_eq_mem, hd, decide_false, Bool.false_eq_true, if_false]
      rw [List.nodup_append]
      refine ⟨h, by simp, ?_⟩
      rintro name hname _ hmem rfl
      rw [List.mem_singleton.mp hmem] at hname
      exact hd hname

/-- What a pass has declared so far is all that its sections say and that its fragments go to. -/
structure Declares (t : Traversal) : Prop where
  outline : t.outline.outline.SendsTo (· ∈ t.declared)
  fragments : ∀ x ∈ t.fragments, ∀ name, x.config.destination = some name → name ∈ t.declared
  nodup : t.declared.Nodup

theorem declares_start : Declares start where
  outline := Outline.sendsTo_root 0 none
  fragments := List.forall_mem_nil _
  nodup := .nil

theorem Declares.emits (h : t.Declares) {origin : Origin} {x : Fragment} (hx : t.Emits origin x)
    {name : String} (hname : x.config.destination = some name) : name ∈ t.declared := by
  obtain ⟨c, hc, heq⟩ := hx.config
  rw [heq] at hname
  exact h.outline.config hc hname

theorem Declares.set (h : t.Declares) (n : Nat) (d : Directive) : (t.set n d).Declares where
  outline :=
    (h.outline.mono fun _ hname => mem_declare.mpr (Or.inl hname)).apply n
      fun _ hname => mem_declare.mpr (Or.inr hname)
  fragments x hx name hname := mem_declare.mpr (Or.inl (h.fragments x hx name hname))
  nodup := nodup_declare h.nodup

theorem Declares.append (h : t.Declares) {origin : Origin} {fs : List Fragment}
    (hfs : ∀ x ∈ fs, t.Emits origin x) :
    Declares { t with fragments := t.fragments ++ fs } where
  outline := h.outline
  fragments x hx name hname := by
    rcases List.mem_append.mp hx with hx | hx
    · exact h.fragments x hx name hname
    · exact h.emits (hfs x hx) hname
  nodup := h.nodup

theorem Declares.goes (h : t.Declares) (hgoes : t.Goes r lenient s t') : t'.Declares := by
  cases hgoes with
  | heading enter => exact ⟨h.outline.enter enter, h.fragments, h.nodup⟩
  | directive current emits => exact (h.set _ _).append emits
  | fragment emits => exact h.append (List.forall_mem_singleton.mpr emits)
  | nested known read => exact ⟨h.outline, h.fragments, h.nodup⟩
  | rejected passes => exact ⟨h.outline, h.fragments, h.nodup⟩
  | openFence => exact h

end Traversal

/-- Whether a pass declares the destinations of its fragments, each one once. -/
structure Pass.Declares (p : Pass) : Prop where
  fragments : ∀ x ∈ p.fragments, ∀ name, x.config.destination = some name → name ∈ p.declared
  nodup : p.declared.Nodup

theorem Pass.declares_ofText {r : Registry} {f : Flavor} {lenient : Bool} {text : String} {p : Pass}
    (h : ofText r f lenient text = .ok p) : p.Declares := by
  obtain ⟨t, ht, rfl⟩ := ofText_keeps (I := fun _ t => t.Declares) Traversal.declares_start
    Traversal.Declares.goes h
  exact ⟨ht.fragments, ht.nodup⟩

theorem Pass.declares_of_mem_walk {r : Registry} {f : Flavor} {lenient : Bool} {text : String}
    {p inner : Pass} (h : ofText r f lenient text = .ok p) (hinner : inner ∈ p.walk) :
    inner.Declares := by
  obtain ⟨g, inside, hread⟩ := ofText_of_mem_walk h hinner
  exact declares_ofText hread

namespace Plan

variable {p : Pass} {filter : Option String}

theorem mem_declared (h : ∀ inner ∈ p.walk, inner.Declares) {e : DestinationPlan}
    (he : e ∈ (ofPass p filter).destinations) : e.destination ∈ (ofPass p filter).declared := by
  obtain ⟨x, f, hroutes⟩ :=
    ((ofPass_assembles p filter).mem_destinations e.destination).mp (List.mem_map_of_mem he)
  have hmem := List.mem_map_of_mem (f := (·.2)) (Pass.mem_placed.mpr hroutes.found)
  rw [Pass.placed_walk] at hmem
  obtain ⟨inner, hinner, hf⟩ := List.mem_flatMap.mp hmem
  have hname := (h inner hinner).fragments f hf e.destination hroutes.destination
  exact mem_distinct.mpr (List.mem_flatMap.mpr ⟨inner, hinner, hname⟩)

end Plan

end Literate
