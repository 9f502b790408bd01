import Literate.Plan
import Literate.Proofs.Pass.Walk
import Mathlib.Data.List.Induction

/-!
# What a plan is made of

A plan for a tree of passes holds each fragment that is kept exactly once: in the plan of its
destination, or among those that go nowhere. Which fragments are kept (`Fragment.Kept`), where they
are (`Place`) and in which order they are written (`WrittenBefore`) is said of the tree, not of the
lists that the plan is computed from.
-/

namespace Literate

/-- Whether a fragment takes part: it is not ignored, and it has the tag that is asked for. -/
structure Fragment.Kept (filter : Option String) (f : Fragment) : Prop where
  not_ignored : f.config.ignore = false
  tagged : ∀ tag ∈ filter, tag ≠ "" → f.config.tag = some tag

/-- The place of a fragment that is kept and goes to the destination, or nowhere if it is none. -/
structure Pass.Routes (p : Pass) (filter destination : Option String) (x : Place)
    (f : Fragment) : Prop where
  found : p.fragmentAt? x = some f
  kept : f.Kept filter
  destination : f.config.destination = destination

/-- The order in which the fragments of one destination are written. -/
def WrittenBefore (x y : Place × Fragment) : Prop :=
  x.2.config.role.rank < y.2.config.role.rank ∨
    x.2.config.role = y.2.config.role ∧ x.1.Before y.1

theorem WrittenBefore.ne {x y : Place × Fragment} (h : WrittenBefore x y) : x ≠ y := by
  rintro rfl
  rcases h with hrank | ⟨-, hbefore⟩
  · exact Nat.lt_irrefl _ hrank
  · exact hbefore.ne rfl

namespace Plan

/-- The fragments that go one way, each one once, in an order. -/
structure Gathers (p : Pass) (filter destination : Option String)
    (order : Place × Fragment → Place × Fragment → Prop) (xs : List (Place × Fragment)) : Prop where
  mem_iff : ∀ x f, (x, f) ∈ xs ↔ p.Routes filter destination x f
  nodup : xs.Nodup
  ordered : xs.Pairwise order

/-- A plan for a tree of passes. -/
structure Assembles (p : Pass) (filter : Option String) (plan : Plan) : Prop where
  nodup : (plan.destinations.map (·.destination)).Nodup
  mem_destinations : ∀ d, d ∈ plan.destinations.map (·.destination) ↔
    ∃ x f, p.Routes filter (some d) x f
  /-- A destination comes before those that get their first fragment later. -/
  first_appearance : (plan.destinations.map (·.destination)).Pairwise fun d d' =>
    ∃ x f, p.Routes filter (some d) x f ∧ ∀ y g, p.Routes filter (some d') y g → x.Before y
  operations : ∀ e ∈ plan.destinations, ∃ xs,
    Gathers p filter (some e.destination) WrittenBefore xs ∧
      e.operations = xs.map fun x =>
        ⟨⟨x.2.content.toUTF8, x.2.config.mode⟩, x.2.config.role, x.2.index⟩
  unrouted : ∃ xs, Gathers p filter none (fun x y => x.1.Before y.1) xs ∧
    plan.unrouted = xs.map (·.2)

theorem keeps_iff {filter : Option String} {f : Fragment} :
    keeps filter f = true ↔ f.Kept filter := by
  rw [keeps.eq_def, Bool.and_eq_true, Bool.not_eq_true']
  constructor
  · rintro ⟨hignore, htag⟩
    refine ⟨hignore, ?_⟩
    intro tag hfilter hne
    cases hfilter
    simpa [hne] using htag
  · rintro ⟨hignore, htag⟩
    refine ⟨hignore, ?_⟩
    cases filter with
    | none => rfl
    | some tag =>
      by_cases hne : tag = ""
      · simp [hne]
      · simp [htag tag rfl hne]

/-! ## Destinations in the order of their first appearance -/

theorem distinct_append (names : List String) (d : String) :
    distinct (names ++ [d]) =
      if d ∈ distinct names then distinct names else distinct names ++ [d] := by
  rw [distinct, List.foldl_append, ← distinct]
  simp

theorem mem_distinct {names : List String} {d : String} : d ∈ distinct names ↔ d ∈ names := by
  induction names using List.reverseRecOn with
  | nil => simp [distinct]
  | append_singleton names e ih =>
    rw [distinct_append, List.mem_append, List.mem_singleton, ← ih]
    by_cases he : e ∈ distinct names
    · rw [if_pos he]
      refine ⟨Or.inl, ?_⟩
      rintro (hd | rfl)
      · exact hd
      · exact he
    · rw [if_neg he, List.mem_append, List.mem_singleton]

theorem nodup_distinct (names : List String) : (distinct names).Nodup := by
  induction names using List.reverseRecOn with
  | nil => exact List.nodup_nil
  | append_singleton names e ih =>
    rw [distinct_append]
    by_cases he : e ∈ distinct names
    · rwa [if_pos he]
    · rw [if_neg he, List.nodup_append]
      refine ⟨ih, by simp, fun d hd d' hd' heq => he ?_⟩
      rwa [← List.mem_singleton.mp hd', ← heq]

/-- Of two names, the one that is found first comes first. -/
theorem pairwise_distinct (names : List String) :
    (distinct names).Pairwise fun d d' =>
      ∃ before after, names = before ++ d :: after ∧ d' ∉ before := by
  induction names using List.reverseRecOn with
  | nil => exact List.Pairwise.nil
  | append_singleton names e ih =>
    have hkeep : (distinct names).Pairwise fun d d' =>
        ∃ before after, names ++ [e] = before ++ d :: after ∧ d' ∉ before := by
      refine ih.imp ?_
      rintro d d' ⟨before, after, rfl, hno⟩
      exact ⟨before, after ++ [e], by simp, hno⟩
    rw [distinct_append]
    by_cases he : e ∈ distinct names
    · rwa [if_pos he]
    · -- a name that is new was found behind all the others
      rw [if_neg he, List.pairwise_append]
      refine ⟨hkeep, List.pairwise_singleton _ e, ?_⟩
      intro d hd d' hd'
      obtain rfl := List.mem_singleton.mp hd'
      obtain ⟨before, after, rfl⟩ := List.append_of_mem (mem_distinct.mp hd)
      refine ⟨before, after ++ [d'], by simp, ?_⟩
      intro hbefore
      exact he (mem_distinct.mpr (List.mem_append_left _ hbefore))

/-! ## The fragments of a destination -/

/-- Parting by roles loses nothing and keeps the order within a role. -/
theorem exists_arranged {xs : List (Place × Fragment)}
    (hxs : xs.Pairwise fun x y => x.1.Before y.1) :
    ∃ ys : List (Place × Fragment), arranged (xs.map (·.2)) = ys.map (·.2) ∧
      (∀ y, y ∈ ys ↔ y ∈ xs) ∧ ys.Pairwise WrittenBefore := by
  refine ⟨[Role.before, .body, .after].flatMap fun r => xs.filter (·.2.config.role = r),
    ?_, ?_, ?_⟩
  · have hrole : ∀ r, ofRole (xs.map (·.2)) r =
        (xs.filter (·.2.config.role = r)).map (·.2) := by
      intro r
      rw [ofRole, List.filter_map]
      rfl
    simp [arranged, hrole]
  · intro y
    simp only [List.mem_flatMap, List.mem_filter, decide_eq_true_eq]
    refine ⟨fun ⟨_, _, hy, _⟩ => hy, fun hy => ⟨y.2.config.role, ?_, hy, rfl⟩⟩
    cases y.2.config.role <;> decide
  · rw [List.pairwise_flatMap]
    constructor
    · intro r _
      refine (hxs.filter _).imp_of_mem fun hx hy hbefore => Or.inr ⟨?_, hbefore⟩
      simp only [List.mem_filter, decide_eq_true_eq] at hx hy
      rw [hx.2, hy.2]
    · have hranks : [Role.before, .body, .after].Pairwise fun r r' => r.rank < r'.rank := by
        decide
      refine hranks.imp fun hrank x hx y hy => Or.inl ?_
      simp only [List.mem_filter, decide_eq_true_eq] at hx hy
      rwa [hx.2, hy.2]

/-- The fragments of a tree that are kept, with their places. -/
def kept (p : Pass) (filter : Option String) : List (Place × Fragment) :=
  p.placed.filter fun x => keeps filter x.2

theorem kept_walk (p : Pass) (filter : Option String) :
    (p.walk.flatMap (·.fragments)).filter (keeps filter) = (kept p filter).map (·.2) := by
  rw [← Pass.placed_walk, List.filter_map]
  rfl

theorem pairwise_kept (p : Pass) (filter : Option String) :
    (kept p filter).Pairwise fun x y => x.1.Before y.1 :=
  (Pass.pairwise_placed p).filter _

theorem mem_kept_iff {p : Pass} {filter destination : Option String} {x : Place} {f : Fragment} :
    (x, f) ∈ kept p filter ∧ f.config.destination = destination ↔
      p.Routes filter destination x f := by
  rw [kept, List.mem_filter, Pass.mem_placed, keeps_iff]
  exact ⟨fun ⟨⟨hf, hk⟩, hd⟩ => ⟨hf, hk, hd⟩, fun ⟨hf, hk, hd⟩ => ⟨⟨hf, hk⟩, hd⟩⟩

/-- What goes one way, in the order of the tree. -/
theorem gathers_filter (p : Pass) (filter destination : Option String) :
    Gathers p filter destination (fun x y => x.1.Before y.1)
      ((kept p filter).filter (·.2.config.destination == destination)) where
  mem_iff := by
    intro x f
    rw [List.mem_filter, beq_iff_eq]
    exact mem_kept_iff
  nodup := ((pairwise_kept p filter).filter _).imp fun h heq => h.ne (congrArg (·.1) heq)
  ordered := (pairwise_kept p filter).filter _

/-- The plan for a destination has its fragments in the order in which they are written. -/
theorem forDestination_gathers (p : Pass) (filter : Option String) (d : String) :
    ∃ xs, Gathers p filter (some d) WrittenBefore xs ∧
      (forDestination ((kept p filter).map (·.2)) d).operations = xs.map fun x =>
        ⟨⟨x.2.content.toUTF8, x.2.config.mode⟩, x.2.config.role, x.2.index⟩ := by
  have hgathers := gathers_filter p filter (some d)
  obtain ⟨ys, harranged, hmem, hordered⟩ := exists_arranged hgathers.ordered
  refine ⟨ys, ⟨fun x f => by rw [hmem, hgathers.mem_iff], hordered.imp WrittenBefore.ne,
    hordered⟩, ?_⟩
  have hgroup : ((kept p filter).map (·.2)).filter (·.config.destination == some d) =
      ((kept p filter).filter (·.2.config.destination == some d)).map (·.2) := by
    rw [List.filter_map]
    rfl
  rw [forDestination, hgroup, harranged, List.map_map]
  rfl

/-! ## The whole plan -/

/-- The destinations of the fragments that are kept, in the order of the tree. -/
def named (p : Pass) (filter : Option String) : List String :=
  (kept p filter).filterMap (·.2.config.destination)

theorem mem_named {p : Pass} {filter : Option String} {d : String} :
    d ∈ named p filter ↔ ∃ x f, p.Routes filter (some d) x f := by
  rw [named, List.mem_filterMap]
  exact ⟨fun ⟨⟨x, f⟩, hx⟩ => ⟨x, f, mem_kept_iff.mp hx⟩, fun ⟨x, f, hx⟩ =>
    ⟨(x, f), mem_kept_iff.mpr hx⟩⟩

/-- The destination that is named first has a fragment before all those of the other one. -/
theorem first_of_named {p : Pass} {filter : Option String} {d d' : String}
    {before after : List String} (hnamed : named p filter = before ++ d :: after)
    (hbefore : d' ∉ before) (hne : d ≠ d') :
    ∃ x f, p.Routes filter (some d) x f ∧
      ∀ y g, p.Routes filter (some d') y g → x.Before y := by
  obtain ⟨xs, rest, hkept, hxs, hrest⟩ := List.filterMap_eq_append_iff.mp hnamed
  obtain ⟨unnamed, ⟨x, f⟩, later, rfl, hunnamed, hf, -⟩ := List.filterMap_eq_cons_iff.mp hrest
  have hordered := pairwise_kept p filter
  rw [hkept, ← List.append_assoc] at hordered
  refine ⟨x, f, mem_kept_iff.mp ⟨by simp [hkept], hf⟩, ?_⟩
  intro y g hy
  obtain ⟨hmem, hg⟩ := mem_kept_iff.mpr hy
  rw [hkept, ← List.append_assoc, List.mem_append, List.mem_append, List.mem_cons] at hmem
  -- nothing that goes to `d'` is found before `x` or is `x` itself
  rcases hmem with (hmem | hmem) | heq | hmem
  · exact absurd (by rw [← hxs]; exact List.mem_filterMap.mpr ⟨_, hmem, hg⟩) hbefore
  · have := hunnamed _ hmem
    rw [hg] at this
    cases this
  · cases heq
    exact absurd (Option.some.inj (hf.symm.trans hg)) hne
  · have := (List.pairwise_cons.mp (List.pairwise_append.mp hordered).2.1).1
    exact this _ hmem

/-- The plan for a tree of passes: nothing that is kept is lost, nothing is there twice, and all of it
is in order. -/
theorem ofPass_assembles (p : Pass) (filter : Option String) :
    (ofPass p filter).Assembles p filter := by
  have hnamed : ((kept p filter).map (·.2)).filterMap (·.config.destination) =
      named p filter := by
    rw [List.filterMap_map, named]
    rfl
  have hplans : (ofPass p filter).destinations =
      (distinct (named p filter)).map (forDestination ((kept p filter).map (·.2))) := by
    rw [ofPass, ofFragments, kept_walk, hnamed]
  have hnames : (ofPass p filter).destinations.map (·.destination) =
      distinct (named p filter) := by
    rw [hplans, List.map_map]
    exact List.map_id _
  refine ⟨?_, ?_, ?_, ?_, ?_⟩
  · rw [hnames]
    exact nodup_distinct _
  · intro d
    rw [hnames, mem_distinct, mem_named]
  · rw [hnames]
    refine ((nodup_distinct _).and (pairwise_distinct _)).imp ?_
    rintro d d' ⟨hne, before, after, heq, hbefore⟩
    exact first_of_named heq hbefore hne
  · intro e he
    rw [hplans] at he
    obtain ⟨d, -, rfl⟩ := List.mem_map.mp he
    exact forDestination_gathers p filter d
  · have hnowhere : ∀ x : Place × Fragment,
        x.2.config.destination.isNone = (x.2.config.destination == none) := by
      intro x
      cases x.2.config.destination <;> rfl
    refine ⟨_, gathers_filter p filter none, ?_⟩
    rw [ofPass, ofFragments, kept_walk]
    show ((kept p filter).map (·.2)).filter (·.config.destination.isNone) = _
    rw [List.filter_map]
    exact congrArg _ (List.filter_congr fun x _ => hnowhere x)

end Plan

end Literate
