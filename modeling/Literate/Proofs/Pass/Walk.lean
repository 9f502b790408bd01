import Literate.Pass

/-!
# The passes of a tree, in order

The way down to a pass is a list of numbers: which nested document to enter at each level. In the
order of these ways every pass comes before those below it and those come before its later siblings,
and this is the order in which `Pass.walk` lists the passes (`located_walk`, `pairwise_located`). Each
pass of the tree is listed under its own way and nothing else is (`mem_located`).

A fragment of the tree is found by its pass and its number there (`Place`).
-/

namespace Literate

/-- Where a fragment is in a tree of passes. -/
structure Place where
  /-- The way down to the pass. -/
  pass : List Nat
  /-- The number of fragments before it in the pass. -/
  number : Nat
deriving DecidableEq

/-- The order of passes in the tree, and within a pass that of its fragments. -/
def Place.Before (x y : Place) : Prop :=
  x.pass < y.pass ∨ x.pass = y.pass ∧ x.number < y.number

theorem Place.Before.ne {x y : Place} (h : x.Before y) : x ≠ y := by
  rintro rfl
  rcases h with hpass | ⟨-, hnumber⟩
  · exact List.lt_irrefl _ hpass
  · exact Nat.lt_irrefl _ hnumber

namespace Pass

/-- The pass at the end of a way down, if there is one. -/
def at? (p : Pass) : List Nat → Option Pass
  | [] => some p
  | i :: is => p.nested[i]?.bind (·.at? is)

/-- The fragment at a place, if there is one. -/
def fragmentAt? (p : Pass) (x : Place) : Option Fragment :=
  (p.at? x.pass).bind (·.fragments[x.number]?)

mutual

/-- All passes of a tree with the ways down to them. -/
def located (p : Pass) : List (List Nat × Pass) :=
  match p with
  | ⟨flavorId, outline, fragments, declared, faults, nested⟩ =>
    ([], ⟨flavorId, outline, fragments, declared, faults, nested⟩) :: locatedAll 0 nested

/-- The same for some siblings, the first of which has the given number. -/
def locatedAll (i : Nat) : List Pass → List (List Nat × Pass)
  | [] => []
  | p :: ps => p.located.map (fun x => (i :: x.1, x.2)) ++ locatedAll (i + 1) ps

end

mutual

/-- The passes are listed in the order of `walk`. -/
theorem located_walk (p : Pass) : p.located.map (·.2) = p.walk := by
  match p with
  | ⟨flavorId, outline, fragments, declared, faults, nested⟩ =>
    rw [located, walk, List.map_cons, locatedAll_walkAll 0 nested]

theorem locatedAll_walkAll (i : Nat) (ps : List Pass) :
    (locatedAll i ps).map (·.2) = walkAll ps := by
  match ps with
  | [] => rw [locatedAll, walkAll, List.map_nil]
  | p :: ps =>
    rw [locatedAll, walkAll, List.map_append, List.map_map, locatedAll_walkAll (i + 1) ps,
      ← located_walk p]
    rfl

end

mutual

/-- A pass is listed under the ways that lead to it. -/
theorem mem_located (p : Pass) (path : List Nat) (q : Pass) :
    (path, q) ∈ p.located ↔ p.at? path = some q := by
  match p with
  | ⟨flavorId, outline, fragments, declared, faults, nested⟩ =>
    rw [located, List.mem_cons, mem_locatedAll 0 nested path q]
    cases path with
    | nil => simp [at?, eq_comm]
    | cons i is =>
      rw [at?]
      constructor
      · rintro (heq | ⟨j, is', heq, hq⟩)
        · cases heq
        · obtain ⟨rfl, rfl⟩ := List.cons.inj heq
          rwa [Nat.zero_add]
      · intro hq
        exact Or.inr ⟨i, is, by rw [Nat.zero_add], hq⟩

theorem mem_locatedAll (i : Nat) (ps : List Pass) (path : List Nat) (q : Pass) :
    (path, q) ∈ locatedAll i ps ↔
      ∃ j is, path = (i + j) :: is ∧ ps[j]?.bind (·.at? is) = some q := by
  match ps with
  | [] => simp [locatedAll]
  | p :: ps =>
    rw [locatedAll, List.mem_append, mem_locatedAll (i + 1) ps path q, List.mem_map]
    constructor
    · rintro (⟨⟨is, q'⟩, hmem, heq⟩ | ⟨j, is, rfl, hq⟩)
      · cases heq
        exact ⟨0, is, rfl, (mem_located p is _).mp hmem⟩
      · exact ⟨j + 1, is, by rw [Nat.add_assoc, Nat.add_comm 1], hq⟩
    · rintro ⟨j, is, rfl, hq⟩
      -- the first of the siblings, or one of those behind it
      cases j with
      | zero => exact Or.inl ⟨(is, q), (mem_located p is q).mpr hq, rfl⟩
      | succ j => exact Or.inr ⟨j, is, by rw [Nat.add_assoc, Nat.add_comm 1], hq⟩

end

mutual

/-- The ways are listed in their order. -/
theorem pairwise_located (p : Pass) : p.located.Pairwise fun x y => x.1 < y.1 := by
  match p with
  | ⟨flavorId, outline, fragments, declared, faults, nested⟩ =>
    rw [located, List.pairwise_cons]
    refine ⟨?_, pairwise_locatedAll 0 nested⟩
    rintro ⟨path, q⟩ hmem
    obtain ⟨j, is, rfl, -⟩ := (mem_locatedAll 0 nested path q).mp hmem
    exact List.nil_lt_cons _ _

theorem pairwise_locatedAll (i : Nat) (ps : List Pass) :
    (locatedAll i ps).Pairwise fun x y => x.1 < y.1 := by
  match ps with
  | [] =>
    rw [locatedAll]
    exact List.Pairwise.nil
  | p :: ps =>
    rw [locatedAll, List.pairwise_append]
    refine ⟨?_, pairwise_locatedAll (i + 1) ps, ?_⟩
    · rw [List.pairwise_map]
      exact (pairwise_located p).imp fun h => List.cons_lt_cons_iff.mpr (Or.inr ⟨rfl, h⟩)
    · -- whatever is below a later sibling starts with a greater number
      rintro x hx ⟨path, q⟩ hy
      obtain ⟨x', -, rfl⟩ := List.mem_map.mp hx
      obtain ⟨j, is, rfl, -⟩ := (mem_locatedAll (i + 1) ps path q).mp hy
      exact List.cons_lt_cons_iff.mpr (Or.inl (by omega))

end

/-- All fragments of a tree with their places. -/
def placed (p : Pass) : List (Place × Fragment) :=
  p.located.flatMap fun x => x.2.fragments.zipIdx.map fun y => (⟨x.1, y.2⟩, y.1)

theorem placed_walk (p : Pass) : p.placed.map (·.2) = p.walk.flatMap (·.fragments) := by
  rw [← located_walk, placed, List.map_flatMap, List.flatMap_map]
  congr 1
  funext x
  rw [List.map_map]
  exact List.zipIdx_map_fst 0 x.2.fragments

theorem mem_placed {p : Pass} {x : Place} {f : Fragment} :
    (x, f) ∈ p.placed ↔ p.fragmentAt? x = some f := by
  rw [placed, List.mem_flatMap, fragmentAt?, Option.bind_eq_some_iff]
  constructor
  · rintro ⟨⟨path, q⟩, hq, hmem⟩
    obtain ⟨⟨g, n⟩, hg, heq⟩ := List.mem_map.mp hmem
    cases heq
    exact ⟨q, (mem_located p path q).mp hq, List.mk_mem_zipIdx_iff_getElem?.mp hg⟩
  · rintro ⟨q, hq, hf⟩
    exact ⟨(x.pass, q), (mem_located p x.pass q).mpr hq,
      List.mem_map.mpr ⟨(f, x.number), List.mk_mem_zipIdx_iff_getElem?.mpr hf, rfl⟩⟩

theorem pairwise_placed (p : Pass) : p.placed.Pairwise fun x y => x.1.Before y.1 := by
  rw [placed, List.pairwise_flatMap]
  constructor
  · intro x _
    rw [List.pairwise_map]
    have hnumbers : (x.2.fragments.zipIdx.map (·.2)).Pairwise (· < ·) := by
      rw [List.zipIdx_map_snd]
      exact List.pairwise_lt_range'
    exact (List.pairwise_map.mp hnumbers).imp fun h => Or.inr ⟨rfl, h⟩
  · refine (pairwise_located p).imp ?_
    intro x y h a ha b hb
    obtain ⟨a', -, rfl⟩ := List.mem_map.mp ha
    obtain ⟨b', -, rfl⟩ := List.mem_map.mp hb
    exact Or.inl h

end Pass

end Literate
