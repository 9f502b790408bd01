import Literate.Proofs.Outline.Nesting
import Mathlib.Data.List.Sort
import Mathlib.Logic.Relation

/-!
# Sections within sections

Going up from a section, from parent to parent, leads to the sections that cover it (`Covers`). If parents
are opened before their children (`ParentsFirst`), the chain of a section is what covers it, from the inside
out (`mem_chain_iff`, `exists_chain_split`), and what is below a section is what it covers
(`mem_below_iff`).
-/

namespace Literate.Outline

variable {o o' : Outline} {a i k m n p : Nat}

/-- Whether every section comes after the one around it. -/
def ParentsFirst (o : Outline) : Prop := ∀ n p, o.parent? n = some p → p < n

/-- Whether going up from section `m` leads to section `n`: it is `m` itself or one around it. -/
def Covers (o : Outline) (n m : Nat) : Prop :=
  Relation.ReflTransGen (fun m p => o.parent? m = some p) m n

theorem Covers.refl (o : Outline) (n : Nat) : o.Covers n n := Relation.ReflTransGen.refl

theorem Covers.of_parent (hp : o.parent? m = some p) (h : o.Covers n p) : o.Covers n m :=
  Relation.ReflTransGen.head hp h

theorem Covers.trans (h : o.Covers a n) (h' : o.Covers n m) : o.Covers a m :=
  Relation.ReflTransGen.trans h' h

theorem Covers.eq_or_parent (h : o.Covers n m) :
    n = m ∨ ∃ p, o.parent? m = some p ∧ o.Covers n p := by
  rcases Relation.ReflTransGen.cases_head h with heq | ⟨p, hp, h⟩
  · exact Or.inl heq.symm
  · exact Or.inr ⟨p, hp, h⟩

/-- Of two sections around the same one, one covers the other. -/
theorem Covers.total (h : o.Covers n m) (h' : o.Covers k m) : o.Covers n k ∨ o.Covers k n := by
  have hunique : Relator.RightUnique fun m p => o.parent? m = some p := by
    intro m p p' hp hp'
    exact Option.some.inj (hp.symm.trans hp')
  exact (Relation.ReflTransGen.total_of_right_unique hunique h h').symm

theorem ParentsFirst.le_of_covers (ho : o.ParentsFirst) (h : o.Covers n m) : n ≤ m := by
  induction h with
  | refl => exact Nat.le_refl _
  | tail _ hp ih => exact Nat.le_trans (Nat.le_of_lt (ho _ _ hp)) ih

theorem length_of_parent? (h : o.parent? m = some p) : m < o.length := by
  obtain ⟨s, hs, -⟩ := Option.bind_eq_some_iff.mp h
  exact (List.getElem?_eq_some_iff.mp hs).1

/-- A section that does not exist is covered by itself alone. -/
theorem Covers.lt_length (h : o.Covers n m) (hn : n < o.length) : m < o.length := by
  rcases h.eq_or_parent with rfl | ⟨p, hp, -⟩
  · exact hn
  · exact length_of_parent? hp

/-! ## The chain -/

/-- The chain depends on the parents only. -/
theorem chain_congr (h : ∀ i, o'.parent? i = o.parent? i) (n : Nat) : o'.chain n = o.chain n := by
  induction n using Nat.strongRecOn with
  | ind n ih =>
    rw [chain, chain, h n]
    cases o.parent? n with
    | none => rfl
    | some p =>
      simp only
      split
      · rename_i hp
        rw [ih p hp]
      · rfl

theorem ParentsFirst.chain_eq (ho : o.ParentsFirst) (n : Nat) :
    o.chain n = n :: match o.parent? n with
      | some p => o.chain p
      | none => [] := by
  rw [chain]
  cases hp : o.parent? n with
  | none => rfl
  | some p => simp only [if_pos (ho n p hp)]

/-- The chain of a section is what covers it. -/
theorem mem_chain_iff (ho : o.ParentsFirst) : n ∈ o.chain m ↔ o.Covers n m := by
  induction m using Nat.strongRecOn with
  | ind m ih =>
    rw [ho.chain_eq, List.mem_cons]
    constructor
    · rintro (rfl | h)
      · exact .refl o n
      · cases hp : o.parent? m with
        | none => simp [hp] at h
        | some p =>
          rw [hp] at h
          exact .of_parent hp ((ih p (ho m p hp)).mp h)
    · intro h
      rcases h.eq_or_parent with rfl | ⟨p, hp, h⟩
      · exact Or.inl rfl
      · rw [hp]
        exact Or.inr ((ih p (ho m p hp)).mpr h)

theorem pairwise_chain (ho : o.ParentsFirst) (n : Nat) : (o.chain n).Pairwise (· > ·) := by
  induction n using Nat.strongRecOn with
  | ind n ih =>
    rw [ho.chain_eq]
    cases hp : o.parent? n with
    | none => exact List.pairwise_singleton _ _
    | some p =>
      have hlt := ho n p hp
      refine List.pairwise_cons.mpr ⟨?_, ih p hlt⟩
      intro i hi
      have := ho.le_of_covers ((mem_chain_iff ho).mp hi)
      omega

/-- A section that covers another one stands in its chain, behind those that are nearer. -/
theorem exists_chain_split (ho : o.ParentsFirst) (h : o.Covers n m) :
    ∃ inner outer, o.chain m = inner ++ n :: outer ∧ n ∉ inner ∧ n ∉ outer ∧
      ∀ i, i ∈ inner ↔ o.Covers n i ∧ i ≠ n ∧ o.Covers i m := by
  obtain ⟨inner, outer, hsplit⟩ := List.append_of_mem ((mem_chain_iff ho).mpr h)
  have hordered := pairwise_chain ho m
  rw [hsplit, List.pairwise_append, List.pairwise_cons] at hordered
  obtain ⟨-, ⟨houter, -⟩, hcross⟩ := hordered
  have hinner : ∀ i ∈ inner, n < i := fun i hi => hcross i hi n (List.mem_cons_self ..)
  refine ⟨inner, outer, hsplit, fun hn => Nat.lt_irrefl _ (hinner n hn),
    fun hn => Nat.lt_irrefl _ (houter n hn), ?_⟩
  intro i
  constructor
  · intro hi
    have hlt := hinner i hi
    have hcovers : o.Covers i m := (mem_chain_iff ho).mp (by simp [hsplit, hi])
    refine ⟨?_, by omega, hcovers⟩
    rcases h.total hcovers with hni | hin
    · exact hni
    · have := ho.le_of_covers hin
      omega
  · rintro ⟨hni, hne, hcovers⟩
    have hmem := (mem_chain_iff ho).mpr hcovers
    have hle := ho.le_of_covers hni
    rw [hsplit, List.mem_append, List.mem_cons] at hmem
    rcases hmem with hi | rfl | hi
    · exact hi
    · exact absurd rfl hne
    · have := houter i hi
      omega

/-! ## What is below a section -/

theorem below_eq (o : Outline) (n : Nat) : o.below n = n :: (o.children n).flatMap o.below := by
  rw [below, List.flatMap_subtype]
  · rw [List.unattach_attach]
  · intro i hi
    rfl

theorem mem_children_iff (ho : o.ParentsFirst) : i ∈ o.children n ↔ o.parent? i = some n := by
  simp only [children, List.mem_filter, List.mem_range, Bool.and_eq_true, decide_eq_true_eq,
    beq_iff_eq]
  exact ⟨fun h => h.2.2, fun h => ⟨length_of_parent? h, ho i n h, h⟩⟩

/-- What is below a section is what it covers. -/
theorem mem_below_iff (ho : o.ParentsFirst) : m ∈ o.below n ↔ o.Covers n m := by
  induction hroom : o.length - n using Nat.strongRecOn generalizing n with
  | ind room ih =>
    subst hroom
    have hchild : ∀ c ∈ o.children n, (m ∈ o.below c ↔ o.Covers c m) := by
      intro c hc
      have := mem_children hc
      exact ih (o.length - c) (by omega) rfl
    rw [below_eq, List.mem_cons, List.mem_flatMap]
    constructor
    · rintro (rfl | ⟨c, hc, h⟩)
      · exact .refl o m
      · have hup : o.Covers n c := .of_parent ((mem_children_iff ho).mp hc) (.refl o n)
        exact hup.trans ((hchild c hc).mp h)
    · intro h
      rcases Relation.ReflTransGen.cases_tail h with rfl | ⟨c, hc, hp⟩
      · exact Or.inl rfl
      · have hmem := (mem_children_iff ho).mpr hp
        exact Or.inr ⟨c, hmem, (hchild c hmem).mpr hc⟩

/-- If every section covers an unbroken stretch, what is below one comes in the order of the numbers. -/
theorem pairwise_below (ho : o.ParentsFirst)
    (hunbroken : ∀ n i m, o.Covers n m → n ≤ i → i ≤ m → o.Covers n i) (n : Nat) :
    (o.below n).Pairwise (· < ·) := by
  induction hroom : o.length - n using Nat.strongRecOn generalizing n with
  | ind room ih =>
    subst hroom
    rw [below_eq, List.pairwise_cons, List.pairwise_flatMap]
    refine ⟨?_, ?_, ?_⟩
    · intro i hi
      obtain ⟨c, hc, hi⟩ := List.mem_flatMap.mp hi
      have := mem_children hc
      have := ho.le_of_covers ((mem_below_iff ho).mp hi)
      omega
    · intro c hc
      have := mem_children hc
      exact ih (o.length - c) (by omega) c rfl
    · have hordered : (o.children n).Pairwise (· < ·) := List.pairwise_lt_range.filter _
      refine hordered.imp_of_mem ?_
      intro c c' hc hc' hlt i hi j hj
      have hci := (mem_below_iff ho).mp hi
      have hcj := ho.le_of_covers ((mem_below_iff ho).mp hj)
      -- otherwise the first child would cover the second one, and so their parent
      by_contra hle
      have hcover : o.Covers c c' := hunbroken c c' i hci (by omega) (by omega)
      rcases hcover.eq_or_parent with heq | ⟨p, hp, hcover⟩
      · omega
      · rw [(mem_children_iff ho).mp hc', Option.some.injEq] at hp
        subst hp
        have := ho.le_of_covers hcover
        have := mem_children hc
        omega

end Literate.Outline
