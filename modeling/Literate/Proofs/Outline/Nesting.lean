import Literate.Outline.Basic

/-!
# How headings nest

The sections of a document are known from the levels of its headings alone. Section 0 is the root, and
section `n + 1` is that of heading `n`. The section around a heading is the one of the latest earlier
heading of a smaller level (`latestBelow`), and going on from there leads to the root
(`enclosing`).

An outline under construction keeps a stack of open sections instead. `Nests` ties it to the
levels: the stack is what encloses the last section, so closing sections off the stack finds the same
section that the search through all earlier headings does (`dropWhile_enclosing`).
-/

namespace Literate.Outline

/-- The section of the latest of the first `n` headings that has a smaller level; the root if
there is none. -/
def latestBelow (levels : List Int) (level : Int) : Nat → Nat
  | 0 => 0
  | n + 1 => if levels.getD n 0 < level then n + 1 else latestBelow levels level n

theorem latestBelow_le (levels : List Int) (level : Int) (n : Nat) :
    latestBelow levels level n ≤ n := by
  induction n with
  | zero => exact Nat.le_refl _
  | succ n ih =>
    rw [latestBelow]
    split
    · exact Nat.le_refl _
    · exact Nat.le_succ_of_le ih

/-- The section around the one of heading `n`. -/
def around (levels : List Int) (n : Nat) : Nat := latestBelow levels (levels.getD n 0) n

theorem around_le (levels : List Int) (n : Nat) : around levels n ≤ n := latestBelow_le ..

/-- A section and those around it, inside out. -/
def enclosing (levels : List Int) : Nat → List Nat
  | 0 => [0]
  | n + 1 => (n + 1) :: enclosing levels (around levels n)
termination_by n => n
decreasing_by
  have := around_le levels n
  omega

/-- The level of a section. -/
def levelIn (levels : List Int) : Nat → Int
  | 0 => 0
  | n + 1 => levels.getD n 0

/-! ## Later headings do not matter -/

theorem getD_append_of_lt {levels more : List Int} {n : Nat} (h : n < levels.length) :
    (levels ++ more).getD n 0 = levels.getD n 0 := by
  simp [List.getD_eq_getElem?_getD, List.getElem?_append_left h]

theorem latestBelow_append {levels : List Int} (more : List Int) (level : Int) {n : Nat}
    (h : n ≤ levels.length) :
    latestBelow (levels ++ more) level n = latestBelow levels level n := by
  induction n with
  | zero => rfl
  | succ n ih => rw [latestBelow, latestBelow, getD_append_of_lt h, ih (Nat.le_of_lt h)]

theorem around_append {levels : List Int} (more : List Int) {n : Nat} (h : n < levels.length) :
    around (levels ++ more) n = around levels n := by
  rw [around, around, getD_append_of_lt h, latestBelow_append more _ (Nat.le_of_lt h)]

theorem enclosing_append {levels : List Int} (more : List Int) {n : Nat}
    (h : n ≤ levels.length) : enclosing (levels ++ more) n = enclosing levels n := by
  induction n using Nat.strongRecOn with
  | ind n ih =>
    cases n with
    | zero => rw [enclosing, enclosing]
    | succ n =>
      have hle := around_le levels n
      rw [enclosing, enclosing, around_append more h, ih _ (by omega) (by omega)]

theorem levelIn_append {levels : List Int} (more : List Int) {n : Nat}
    (h : n ≤ levels.length) : levelIn (levels ++ more) n = levelIn levels n := by
  cases n with
  | zero => rfl
  | succ n => exact getD_append_of_lt h

/-! ## The sections around a section -/

theorem self_mem_enclosing (levels : List Int) (n : Nat) : n ∈ enclosing levels n := by
  cases n <;> simp [enclosing]

theorem le_of_mem_enclosing {levels : List Int} {n a : Nat} (h : a ∈ enclosing levels n) :
    a ≤ n := by
  induction n using Nat.strongRecOn with
  | ind n ih =>
    cases n with
    | zero =>
      rw [enclosing, List.mem_singleton] at h
      exact Nat.le_of_eq h
    | succ n =>
      rw [enclosing, List.mem_cons] at h
      have hle := around_le levels n
      rcases h with rfl | h
      · exact Nat.le_refl _
      · have := ih _ (by omega) h
        omega

/-- Each section in the sequence encloses all those before it. -/
theorem pairwise_enclosing (levels : List Int) (n : Nat) :
    (enclosing levels n).Pairwise fun a b => b ∈ enclosing levels a := by
  induction n using Nat.strongRecOn with
  | ind n ih =>
    cases n with
    | zero =>
      rw [enclosing]
      exact List.pairwise_singleton _ _
    | succ n =>
      have hle := around_le levels n
      rw [enclosing]
      refine List.pairwise_cons.mpr ⟨?_, ih _ (by omega)⟩
      intro b hb
      rw [enclosing]
      exact List.mem_cons_of_mem _ hb

/-! ## Closing sections -/

/-- Between a heading and the section around it there is nothing to be found for a level that is
not deeper. -/
theorem latestBelow_latestBelow {levels : List Int} {level deeper : Int} (h : level ≤ deeper)
    (n : Nat) :
    latestBelow levels level (latestBelow levels deeper n) = latestBelow levels level n := by
  induction n with
  | zero => rfl
  | succ n ih =>
    by_cases hdeep : levels.getD n 0 < deeper
    · rw [show latestBelow levels deeper (n + 1) = n + 1 from if_pos hdeep]
    · rw [show latestBelow levels deeper (n + 1) = latestBelow levels deeper n from
        if_neg hdeep, ih, latestBelow, if_neg (by omega)]

/-- Closing the sections of a level or a deeper one leaves the latest section of a smaller level and
those around it. -/
theorem dropWhile_enclosing {levels : List Int} {level : Int} (h : 1 ≤ level) (n : Nat) :
    ((enclosing levels n).dropWhile fun a => level ≤ levelIn levels a) =
      enclosing levels (latestBelow levels level n) := by
  induction n using Nat.strongRecOn with
  | ind n ih =>
    cases n with
    | zero =>
      have hroot : ¬ level ≤ 0 := by omega
      simp [enclosing, latestBelow, levelIn, hroot]
    | succ n =>
      have hle := around_le levels n
      rw [enclosing, latestBelow]
      by_cases hlev : level ≤ levels.getD n 0
      · -- the section is closed, and so is all between it and the one around it
        rw [List.dropWhile_cons_of_pos (by simpa [levelIn] using hlev), if_neg (by omega),
          ih _ (by omega), around, latestBelow_latestBelow hlev]
      · rw [List.dropWhile_cons_of_neg (by simpa [levelIn] using hlev), if_pos (by omega),
          enclosing]

/-! ## Outlines under construction -/

/-- An outline under construction for headings of the given levels. -/
structure Nests (b : OpenOutline) (levels : List Int) : Prop where
  length : b.outline.length = levels.length + 1
  level : ∀ n, n ≤ levels.length → OpenOutline.levelOf b.outline n = levelIn levels n
  root : b.outline.parent? 0 = none
  parent : ∀ n, n < levels.length → b.outline.parent? (n + 1) = some (around levels n)
  opened : b.opened = enclosing levels levels.length

theorem nests_alone {top : Section} (hlevel : top.level = 0) (hparent : top.parent = none) :
    Nests ⟨[top], [0]⟩ [] where
  length := rfl
  level := by
    intro n hn
    obtain rfl : n = 0 := by simpa using hn
    exact hlevel
  root := hparent
  parent := fun n hn => absurd hn (Nat.not_lt_zero n)
  opened := by rw [List.length_nil, enclosing]

theorem nests_start (title : Option String) : Nests (.start 0 title) [] := nests_alone rfl rfl

/-- The innermost open section is the last one. -/
theorem Nests.current? {b : OpenOutline} {levels : List Int} (h : Nests b levels) :
    b.current? = some levels.length := by
  rw [OpenOutline.current?, h.opened]
  cases levels.length <;> simp [enclosing]

/-- The chain of a section is what encloses it. -/
theorem Nests.chain_eq {b : OpenOutline} {levels : List Int} (h : Nests b levels) {n : Nat}
    (hn : n ≤ levels.length) : b.outline.chain n = enclosing levels n := by
  induction n using Nat.strongRecOn with
  | ind n ih =>
    rw [chain]
    cases n with
    | zero => rw [h.root, enclosing]
    | succ n =>
      have hle := around_le levels n
      rw [h.parent n hn, enclosing]
      simp only [if_pos (Nat.lt_succ_of_le hle)]
      rw [ih _ (by omega) (by omega)]

theorem parent?_addBelow {o : Outline} {p n : Nat} {level : Int} {title : Option String}
    (h : n < o.length) : (OpenOutline.addBelow o p level title).parent? n = o.parent? n := by
  rw [parent?, parent?, OpenOutline.addBelow, List.getElem?_append_left h]

theorem levelOf_addBelow {o : Outline} {p n : Nat} {level : Int} {title : Option String}
    (h : n < o.length) :
    OpenOutline.levelOf (OpenOutline.addBelow o p level title) n = OpenOutline.levelOf o n := by
  rw [OpenOutline.levelOf, OpenOutline.levelOf, OpenOutline.addBelow,
    List.getElem?_append_left h]

theorem dropWhile_congr_of_mem {p q : Nat → Bool} {l : List Nat} (h : ∀ a ∈ l, p a = q a) :
    l.dropWhile p = l.dropWhile q := by
  induction l with
  | nil => rfl
  | cons a l ih =>
    rw [List.dropWhile_cons, List.dropWhile_cons, h a (by simp),
      ih fun b hb => h b (by simp [hb])]

theorem enclosing_eq_cons (levels : List Int) (n : Nat) :
    ∃ outer, enclosing levels n = n :: outer := by
  cases n with
  | zero => exact ⟨[], by rw [enclosing]⟩
  | succ n => exact ⟨_, by rw [enclosing]⟩

theorem around_length (levels : List Int) (level : Int) :
    around (levels ++ [level]) levels.length = latestBelow levels level levels.length := by
  have hlast : (levels ++ [level]).getD levels.length 0 = level := by simp
  rw [around, hlast, latestBelow_append _ _ (Nat.le_refl _)]

/-- What is left open when a section of this level is about to open. -/
theorem Nests.closeTo {b : OpenOutline} {levels : List Int} (h : Nests b levels) {level : Int}
    (hl : 1 ≤ level) :
    (b.closeTo level).opened = enclosing levels (latestBelow levels level levels.length) := by
  rw [← dropWhile_enclosing hl, OpenOutline.closeTo, h.opened]
  apply dropWhile_congr_of_mem
  intro a ha
  rw [h.level a (le_of_mem_enclosing ha)]

theorem getElem?_addBelow_length (o : Outline) (p : Nat) (level : Int) (title : Option String) :
    (OpenOutline.addBelow o p level title)[o.length]? = some (.opened level title (some p)) := by
  simp [OpenOutline.addBelow]

/-- One more section, below the one around its heading. -/
theorem Nests.addBelow {b : OpenOutline} {levels : List Int} (h : Nests b levels) (level : Int)
    (title : Option String) :
    Nests ⟨OpenOutline.addBelow b.outline (around (levels ++ [level]) levels.length) level title,
      b.outline.length :: enclosing levels (around (levels ++ [level]) levels.length)⟩
      (levels ++ [level]) where
  length := by simp [OpenOutline.addBelow, h.length]
  level := by
    intro n hn
    rw [List.length_append, List.length_singleton] at hn
    rcases Nat.lt_or_ge levels.length n with hlt | hle
    · obtain rfl : n = levels.length + 1 := by omega
      have hlast : (levels ++ [level]).getD levels.length 0 = level := by simp
      rw [← h.length, OpenOutline.levelOf, getElem?_addBelow_length, h.length, levelIn, hlast]
      rfl
    · rw [levelOf_addBelow (by rw [h.length]; omega), h.level n hle, levelIn_append _ hle]
  root := by rw [parent?_addBelow (by rw [h.length]; omega), h.root]
  parent := by
    intro n hn
    rw [List.length_append, List.length_singleton] at hn
    rcases Nat.lt_or_ge n levels.length with hlt | hge
    · rw [parent?_addBelow (by rw [h.length]; omega), h.parent n hlt, around_append _ hlt]
    · obtain rfl : n = levels.length := by omega
      rw [← h.length, parent?, getElem?_addBelow_length]
      rfl
  opened := by
    have hle := around_le (levels ++ [level]) levels.length
    rw [List.length_append, List.length_singleton, enclosing, enclosing_append _ hle, h.length]

/-- Opening the section of a heading puts it into the section around it and changes none of the
others. -/
theorem Nests.enter {b : OpenOutline} {levels : List Int} (h : Nests b levels) {level : Int}
    (hl : 1 ≤ level) (title : Option String) :
    ∃ b', b.enter level title = .ok b' ∧ Nests b' (levels ++ [level]) ∧
      b'.outline = OpenOutline.addBelow b.outline
        (around (levels ++ [level]) levels.length) level title := by
  have hopened := h.closeTo hl
  rw [← around_length] at hopened
  obtain ⟨outer, houter⟩ := enclosing_eq_cons levels (around (levels ++ [level]) levels.length)
  refine ⟨_, ?_, h.addBelow level title, rfl⟩
  rw [OpenOutline.enter, if_neg (by omega)]
  simp only [hopened, houter]
  rfl

end Literate.Outline
