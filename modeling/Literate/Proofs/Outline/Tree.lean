import Literate.Proofs.Outline.Ancestry
import Mathlib.Data.List.Chain

/-!
# The tree that headings build

An outline takes in one heading after the other and keeps only the stack of the sections that are open. The
tree that comes of it is known from the levels alone. The section around a heading is the latest earlier
one of a smaller level (`Surrounds`); a section covers a later one exactly if all that come between are
deeper than it (`mem_enclosing_iff`), so it covers an unbroken stretch, and the tree lists the sections in
the order of the headings (`Nests.preorder_eq`). The open sections are the way from the root to the last
heading, and the titles on such a way are the path of a section (`Lineage`).

`enterAll_builds` puts this together for every sequence of headings, those that are refused included.
-/

namespace Literate

namespace Outline

variable {levels : List Int} {a n p : Nat}

/-! ## The section around a heading -/

/-- Whether section `p` is the one around section `n`: the latest earlier one of a smaller level. The root
has level 0, so it is around a heading of a level from 1 on if no earlier heading has a smaller level. -/
structure Surrounds (levels : List Int) (p n : Nat) : Prop where
  earlier : p < n
  smaller : levelIn levels p < levelIn levels n
  latest : ∀ i, p < i → i < n → levelIn levels n ≤ levelIn levels i

theorem levelIn_latestBelow_lt {level : Int} (h : 1 ≤ level) (n : Nat) :
    levelIn levels (latestBelow levels level n) < level := by
  induction n with
  | zero =>
    rw [latestBelow, levelIn]
    omega
  | succ n ih =>
    rw [latestBelow]
    split
    · assumption
    · exact ih

theorem le_levelIn_of_latestBelow_lt {level : Int} {i : Nat}
    (hi : latestBelow levels level n < i) (hle : i ≤ n) : level ≤ levelIn levels i := by
  induction n with
  | zero => omega
  | succ n ih =>
    rw [latestBelow] at hi
    split at hi
    · omega
    · rename_i hlevel
      rcases Nat.lt_or_ge n i with hlt | hge
      · obtain rfl : i = n + 1 := by omega
        exact Int.not_lt.mp hlevel
      · exact ih hi hge

theorem one_le_levelIn (hlevels : ∀ l ∈ levels, 1 ≤ l) (hn : n < levels.length) :
    1 ≤ levelIn levels (n + 1) := by
  rw [levelIn, List.getD_eq_getElem?_getD, List.getElem?_eq_getElem hn, Option.getD_some]
  exact hlevels _ (List.getElem_mem hn)

theorem around_surrounds (hlevels : ∀ l ∈ levels, 1 ≤ l) (hn : n < levels.length) :
    Surrounds levels (around levels n) (n + 1) where
  earlier := Nat.lt_succ_of_le (around_le levels n)
  smaller := levelIn_latestBelow_lt (one_le_levelIn hlevels hn) n
  latest _ hi hin := le_levelIn_of_latestBelow_lt hi (Nat.le_of_lt_succ hin)

/-- A section covers a later one if all up to it are deeper. -/
theorem mem_enclosing_iff (hlevels : ∀ l ∈ levels, 1 ≤ l) (hn : n ≤ levels.length) :
    a ∈ enclosing levels n ↔
      a ≤ n ∧ ∀ i, a < i → i ≤ n → levelIn levels a < levelIn levels i := by
  induction n using Nat.strongRecOn with
  | ind n ih =>
    cases n with
    | zero =>
      rw [enclosing, List.mem_singleton]
      exact ⟨fun h => ⟨Nat.le_of_eq h, fun i hi hle => by omega⟩, fun h => Nat.le_zero.mp h.1⟩
    | succ n =>
      have hle := around_le levels n
      have hsurrounds := around_surrounds hlevels hn
      rw [enclosing, List.mem_cons, ih _ (by omega) (by omega)]
      constructor
      · rintro (rfl | ⟨ha, hdeeper⟩)
        · exact ⟨Nat.le_refl _, fun i hi hle => by omega⟩
        · refine ⟨by omega, ?_⟩
          have hpar : levelIn levels a ≤ levelIn levels (around levels n) := by
            rcases Nat.eq_or_lt_of_le ha with rfl | hlt
            · exact Int.le_refl _
            · exact Int.le_of_lt (hdeeper _ hlt (Nat.le_refl _))
          have hsmaller := hsurrounds.smaller
          intro i hi hin
          rcases Nat.lt_or_ge (around levels n) i with hlt | hge
          · -- behind the section around it nothing is less deep than the section itself
            rcases Nat.eq_or_lt_of_le hin with rfl | hin
            · omega
            · have := hsurrounds.latest i hlt hin
              omega
          · exact hdeeper i hi hge
      · rintro ⟨ha, hdeeper⟩
        rcases Nat.eq_or_lt_of_le ha with rfl | hlt
        · exact Or.inl rfl
        · have hself := hdeeper (n + 1) hlt (Nat.le_refl _)
          have hbefore : a ≤ around levels n := by
            by_contra hbehind
            have := hsurrounds.latest a (by omega) hlt
            omega
          exact Or.inr ⟨hbefore, fun i hi hin => hdeeper i hi (by omega)⟩

/-- What encloses a section ends in the root, and only there. -/
theorem exists_enclosing_concat (levels : List Int) (n : Nat) :
    ∃ inner, enclosing levels n = inner ++ [0] ∧ ∀ i ∈ inner, 0 < i := by
  induction n using Nat.strongRecOn with
  | ind n ih =>
    cases n with
    | zero => exact ⟨[], by rw [enclosing]; rfl, nofun⟩
    | succ n =>
      have hle := around_le levels n
      obtain ⟨inner, hinner, hpos⟩ := ih (around levels n) (by omega)
      refine ⟨(n + 1) :: inner, by rw [enclosing, hinner, List.cons_append], ?_⟩
      intro i hi
      rcases List.mem_cons.mp hi with rfl | hi
      · exact Nat.succ_pos n
      · exact hpos i hi

/-! ## The outline -/

/-- Only the sections of headings have a parent. -/
theorem Nests.exists_of_parent? {b : OpenOutline} (h : Nests b levels)
    (hp : b.outline.parent? n = some p) :
    ∃ i, n = i + 1 ∧ i < levels.length ∧ p = around levels i := by
  have hn := length_of_parent? hp
  rw [h.length] at hn
  cases n with
  | zero =>
    rw [h.root] at hp
    cases hp
  | succ i =>
    have hi : i < levels.length := Nat.lt_of_succ_lt_succ hn
    rw [h.parent i hi, Option.some.injEq] at hp
    exact ⟨i, rfl, hi, hp.symm⟩

theorem Nests.parentsFirst {b : OpenOutline} (h : Nests b levels) : b.outline.ParentsFirst := by
  intro n p hp
  obtain ⟨i, rfl, -, rfl⟩ := h.exists_of_parent? hp
  exact Nat.lt_succ_of_le (around_le levels i)

theorem Nests.covers_iff {b : OpenOutline} (h : Nests b levels) (hlevels : ∀ l ∈ levels, 1 ≤ l)
    (hn : n ≤ levels.length) :
    b.outline.Covers a n ↔ a ≤ n ∧ ∀ i, a < i → i ≤ n → levelIn levels a < levelIn levels i := by
  rw [← mem_chain_iff h.parentsFirst, h.chain_eq hn, mem_enclosing_iff hlevels hn]

/-- A section covers an unbroken stretch. -/
theorem Nests.covers_unbroken {b : OpenOutline} (h : Nests b levels) (hlevels : ∀ l ∈ levels, 1 ≤ l)
    (a i n : Nat) (hcovers : b.outline.Covers a n) (hai : a ≤ i) (hin : i ≤ n) :
    b.outline.Covers a i := by
  have hlength := h.length
  rcases Nat.lt_or_ge a b.outline.length with ha | ha
  · have hn := hcovers.lt_length ha
    have hdeeper := ((h.covers_iff hlevels (by omega)).mp hcovers).2
    exact (h.covers_iff hlevels (by omega)).mpr ⟨hai, fun k hk hki => hdeeper k hk (by omega)⟩
  · -- a section that does not exist covers itself only
    rcases hcovers.eq_or_parent with rfl | ⟨p, hp, -⟩
    · obtain rfl : i = a := by omega
      exact .refl _ i
    · have := length_of_parent? hp
      omega

theorem Nests.covers_root {b : OpenOutline} (h : Nests b levels) (hlevels : ∀ l ∈ levels, 1 ≤ l)
    (hn : n ≤ levels.length) : b.outline.Covers 0 n := by
  refine (h.covers_iff hlevels hn).mpr ⟨Nat.zero_le n, ?_⟩
  intro i hi hin
  cases i with
  | zero => exact absurd hi (Nat.lt_irrefl 0)
  | succ i => exact one_le_levelIn hlevels (by omega)

/-- The tree lists the sections in the order in which they were opened. -/
theorem Nests.preorder_eq {b : OpenOutline} (h : Nests b levels) (hlevels : ∀ l ∈ levels, 1 ≤ l) :
    b.outline.preorder = List.range b.outline.length := by
  have hlength := h.length
  have hordered := pairwise_below h.parentsFirst (h.covers_unbroken hlevels) 0
  refine hordered.eq_of_mem_iff List.pairwise_lt_range ?_
  intro i
  rw [mem_below_iff h.parentsFirst, List.mem_range]
  constructor
  · intro hcovers
    exact hcovers.lt_length (by omega)
  · intro hi
    exact h.covers_root hlevels (by omega)

/-- The way from the root to a section: each section is the parent of the next one. -/
structure Lineage (o : Outline) (n : Nat) (line : List Nat) : Prop where
  root : line.head? = some 0
  last : line.getLast? = some n
  linked : line.IsChain fun p i => o.parent? i = some p

theorem Nests.lineage {b : OpenOutline} (h : Nests b levels) (hn : n ≤ levels.length) :
    Lineage b.outline n (enclosing levels n).reverse := by
  obtain ⟨inner, hinner, -⟩ := exists_enclosing_concat levels n
  obtain ⟨outer, houter⟩ := enclosing_eq_cons levels n
  refine ⟨by simp [hinner], by simp [houter], ?_⟩
  rw [List.isChain_reverse]
  clear hinner houter
  induction n using Nat.strongRecOn with
  | ind n ih =>
    cases n with
    | zero =>
      rw [enclosing]
      exact .singleton 0
    | succ n =>
      have hle := around_le levels n
      rw [enclosing]
      refine (ih _ (by omega) (by omega)).cons ?_
      intro p hp
      obtain ⟨rest, hrest⟩ := enclosing_eq_cons levels (around levels n)
      rw [hrest, List.head?_cons, Option.mem_some_iff] at hp
      rw [h.parent n hn, hp]

/-- Levels increase on the way from the root. -/
theorem Nests.deepening {b : OpenOutline} (h : Nests b levels) (hlevels : ∀ l ∈ levels, 1 ≤ l)
    {line : List Nat} (hline : Lineage b.outline n line) :
    (line.map (OpenOutline.levelOf b.outline)).Pairwise (· < ·) := by
  rw [← List.isChain_iff_pairwise, List.isChain_map]
  refine hline.linked.imp ?_
  intro p n hp
  obtain ⟨i, rfl, hi, rfl⟩ := h.exists_of_parent? hp
  have hle := around_le levels i
  rw [h.level _ (by omega), h.level _ (by omega)]
  exact (around_surrounds hlevels hi).smaller

/-- The title of a section; one without a title has an empty one. -/
def titleOf (o : Outline) (n : Nat) : String := (o[n]?.bind (·.title)).getD ""

/-- A section on the way to another one gives its title to the path, but for the root. -/
theorem Nests.title_eq {b : OpenOutline} (h : Nests b levels) {i : Nat} (hi : i ≤ levels.length) :
    (b.outline[i]?.bind fun s => if s.parent.isSome then some (s.title.getD "") else none) =
      if i = 0 then none else some (b.outline.titleOf i) := by
  cases i with
  | zero =>
    have hroot := h.root
    rw [parent?] at hroot
    cases hs : b.outline[0]? with
    | none => rfl
    | some s =>
      rw [hs, Option.bind_some] at hroot
      simp [hroot]
  | succ i =>
    obtain ⟨s, hs, hp⟩ := Option.bind_eq_some_iff.mp (h.parent i hi)
    simp [hs, hp, titleOf]

/-- The path of a section has the titles on the way to it, the root left out. -/
theorem Nests.path_eq {b : OpenOutline} (h : Nests b levels) (hn : n ≤ levels.length) :
    b.outline.path n = (enclosing levels n).reverse.tail.map b.outline.titleOf := by
  obtain ⟨inner, hinner, hpos⟩ := exists_enclosing_concat levels n
  have htitle : ∀ i ∈ enclosing levels n,
      (b.outline[i]?.bind fun s => if s.parent.isSome then some (s.title.getD "") else none) =
        if i = 0 then none else some (b.outline.titleOf i) := by
    intro i hi
    exact h.title_eq (Nat.le_trans (le_of_mem_enclosing hi) hn)
  have hinner' : inner.filterMap (fun i => if i = 0 then none else some (b.outline.titleOf i)) =
      inner.map b.outline.titleOf := by
    rw [← List.filterMap_eq_map]
    apply List.filterMap_congr
    intro i hi
    exact if_neg (Nat.ne_of_gt (hpos i hi))
  rw [path, h.chain_eq hn, List.filterMap_congr htitle, hinner, List.filterMap_append, hinner']
  simp

end Outline

/-! ## Taking in headings -/

/-- A heading, as an outline takes it in. -/
structure Heading where
  level : Int
  title : Option String

namespace OpenOutline

/-- Nothing is open but the root, whatever it is. -/
def rootedAt (top : Section) : OpenOutline := ⟨[top], [0]⟩

/-- The outline with the section of a heading opened. A heading that is refused leaves it as it was. -/
def next (b : OpenOutline) (h : Heading) : OpenOutline :=
  match b.enter h.level h.title with
  | .ok b' => b'
  | .error _ => b

/-- The outline with the sections of some headings opened, one after the other. -/
def enterAll (b : OpenOutline) (headings : List Heading) : OpenOutline := headings.foldl next b

/-- What an outline under construction is once it has taken in some headings. -/
structure BuiltFrom (top : Section) (headings : List Heading) (b : OpenOutline) : Prop where
  length : b.outline.length = headings.length + 1
  root : b.outline[0]? = some top
  /-- Heading `i` has section `i + 1`, below the one around it. -/
  heading : ∀ i h, headings[i]? = some h →
    ∃ p, Outline.Surrounds (headings.map (·.level)) p (i + 1) ∧
      b.outline[i + 1]? = some (.opened h.level h.title (some p))
  opened : Outline.Lineage b.outline headings.length b.opened.reverse
  deepening : (b.opened.reverse.map (levelOf b.outline)).Pairwise (· < ·)
  current : b.current? = some headings.length
  preorder : b.outline.preorder = List.range (headings.length + 1)
  path : ∀ n, n ≤ headings.length → ∃ line, Outline.Lineage b.outline n line ∧
    b.outline.path n = line.tail.map b.outline.titleOf

/-- An outline under construction with the sections of the headings that it has taken in. -/
structure Holds (top : Section) (headings : List Heading) (b : OpenOutline) : Prop
    extends Outline.Nests b (headings.map (·.level)) where
  root_eq : b.outline[0]? = some top
  section_eq : ∀ i h, headings[i]? = some h → b.outline[i + 1]? =
    some (.opened h.level h.title (some (Outline.around (headings.map (·.level)) i)))

variable {top : Section} {headings : List Heading} {b : OpenOutline}

theorem holds_rootedAt (hlevel : top.level = 0) (hparent : top.parent = none) :
    Holds top [] (rootedAt top) where
  toNests := Outline.nests_alone hlevel hparent
  root_eq := rfl
  section_eq := nofun

/-- One more heading adds its section and changes no other one. -/
theorem Holds.enter (hb : Holds top headings b) {h : Heading} (hl : 1 ≤ h.level) :
    ∃ b', b.enter h.level h.title = .ok b' ∧ Holds top (headings ++ [h]) b' := by
  obtain ⟨b', henter, hnests, houtline⟩ := hb.toNests.enter hl h.title
  have hlength : b.outline.length = headings.length + 1 := by simpa using hb.length
  have hsame : ∀ i, i < b.outline.length → b'.outline[i]? = b.outline[i]? := by
    intro i hi
    rw [houtline, addBelow, List.getElem?_append_left hi]
  rw [← List.map_singleton, ← List.map_append] at hnests houtline
  refine ⟨b', henter, hnests, by rw [hsame 0 (by omega), hb.root_eq], ?_⟩
  intro i g hg
  rcases Nat.lt_or_ge i headings.length with hi | hi
  · rw [List.getElem?_append_left hi] at hg
    rw [hsame (i + 1) (by omega), hb.section_eq i g hg, List.map_append,
      Outline.around_append _ (by simpa using hi)]
  · have hlast : i = headings.length := by
      have := (List.getElem?_eq_some_iff.mp hg).1
      rw [List.length_append, List.length_singleton] at this
      omega
    subst hlast
    rw [List.getElem?_concat_length, Option.some.injEq] at hg
    subst hg
    rw [houtline, ← hlength, Outline.getElem?_addBelow_length, List.length_map]

theorem enter_refused (b : OpenOutline) {h : Heading} (hl : h.level < 1) :
    b.enter h.level h.title = .error (.level (.because "heading level must be positive"
      [("level", toString h.level), ("title", h.title.getD "None")])) :=
  if_pos hl

/-- Taking in headings leaves those that are refused out. -/
theorem Holds.enterAll (hb : Holds top headings b) (calls : List Heading) :
    Holds top (headings ++ calls.filter (1 ≤ ·.level)) (b.enterAll calls) := by
  induction calls generalizing headings b with
  | nil => simpa [OpenOutline.enterAll] using hb
  | cons h calls ih =>
    rw [OpenOutline.enterAll, List.foldl_cons, ← OpenOutline.enterAll]
    by_cases hl : 1 ≤ h.level
    · obtain ⟨b', henter, hb'⟩ := hb.enter hl
      have hnext : b.next h = b' := by rw [next, henter]
      rw [hnext, List.filter_cons_of_pos (by simpa using hl)]
      simpa using ih hb'
    · have hnext : b.next h = b := by rw [next, enter_refused b (by omega)]
      rw [hnext, List.filter_cons_of_neg (by simpa using hl)]
      exact ih hb

theorem Holds.builtFrom (hb : Holds top headings b) (hlevels : ∀ h ∈ headings, 1 ≤ h.level) :
    BuiltFrom top headings b := by
  have hlength : (headings.map (·.level)).length = headings.length := List.length_map _
  have hpos : ∀ l ∈ headings.map (·.level), 1 ≤ l := by
    simpa using hlevels
  have hopened : Outline.Lineage b.outline headings.length b.opened.reverse := by
    have := hb.toNests.lineage (Nat.le_refl _)
    rwa [← hb.opened, hlength] at this
  refine ⟨by rw [hb.length, hlength], hb.root_eq, ?_, hopened, hb.toNests.deepening hpos hopened,
    by rw [hb.toNests.current?, hlength], by rw [hb.toNests.preorder_eq hpos, hb.length, hlength], ?_⟩
  · intro i h hh
    have hi := (List.getElem?_eq_some_iff.mp hh).1
    exact ⟨_, Outline.around_surrounds hpos (by omega), hb.section_eq i h hh⟩
  · intro n hn
    exact ⟨_, hb.toNests.lineage (by omega), hb.toNests.path_eq (by omega)⟩

/-- An outline that has taken in any headings is the tree of those that it did not refuse, and it refuses
those that have no level of a heading. -/
theorem enterAll_builds (top : Section) (calls : List Heading) (hlevel : top.level = 0)
    (hparent : top.parent = none) :
    let b := (rootedAt top).enterAll calls
    BuiltFrom top (calls.filter (1 ≤ ·.level)) b ∧
      (∀ h : Heading, h.level < 1 → b.next h = b ∧
        b.enter h.level h.title = .error (.level (.because "heading level must be positive"
          [("level", toString h.level), ("title", h.title.getD "None")]))) ∧
      ∀ h : Heading, 1 ≤ h.level → b.enter h.level h.title = .ok (b.next h) := by
  intro b
  have hb : Holds top (calls.filter (1 ≤ ·.level)) b :=
    (holds_rootedAt hlevel hparent).enterAll calls
  refine ⟨hb.builtFrom (by simp), ?_, ?_⟩
  · intro h hl
    have hrefused := enter_refused b hl
    exact ⟨by rw [next, hrefused], hrefused⟩
  · intro h hl
    obtain ⟨b', henter, -⟩ := hb.enter hl
    rw [next, henter]

/-- A level is skipped, one is no level of a heading, and then a section of the first level follows. -/
def uneven : List Heading :=
  [⟨2, some "Preface"⟩, ⟨4, some "Thanks"⟩, ⟨0, some "Nothing"⟩, ⟨3, none⟩, ⟨1, some "Guide"⟩]

theorem enterAll_builds_uneven :
    let top : Section := { Section.opened 0 (some "Book") none with shared := [(.ignore, .flag true)] }
    top.level = 0 ∧ top.parent = none ∧
      BuiltFrom top [⟨2, some "Preface"⟩, ⟨4, some "Thanks"⟩, ⟨3, none⟩, ⟨1, some "Guide"⟩]
        ((rootedAt top).enterAll uneven) := by
  intro top
  exact ⟨rfl, rfl, (enterAll_builds top uneven rfl rfl).1⟩

end OpenOutline

end Literate
