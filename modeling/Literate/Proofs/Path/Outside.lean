import Literate.Proofs.Path.Spelling

/-!
# Which destinations leave a root

Where a text leads is told by its names once all that cancels is left out (`Normal`). A destination stays
within a root if the names on the way to the root stand in front of those on the way to the destination. For
a relative one this needs a look at its own names only: what it climbs out of, it has to enter again
(`outside_iff`).
-/

namespace Literate.Path

variable {cwd loc : Location} {text : String} {names : List String} {k : Nat}

/-- Whether a text comes to `k` times `..` and some proper names. -/
def Comes (text : String) (k : Nat) (names : List String) : Prop :=
  ∃ pieces, Spells pieces text ∧ Reduces pieces k names

/-- Whether a location has the names that a text comes to, behind those of the working directory if the text
is relative. At the top directory `..` leads nowhere. -/
def Normal (cwd : Location) (text : String) (loc : Location) : Prop :=
  ∃ pieces k, Spells pieces text ∧
    (Absolute text → Reduces pieces k loc) ∧ (¬ Absolute text → Reduces (cwd ++ pieces) k loc)

theorem exists_comes (text : String) : ∃ k names, Comes text k names := by
  obtain ⟨pieces, hpieces⟩ := exists_spells text
  obtain ⟨k, names, hnames⟩ := exists_reduces pieces
  exact ⟨k, names, pieces, hpieces, hnames⟩

theorem exists_normal (cwd : Location) (text : String) : ∃ loc, Normal cwd text loc := by
  obtain ⟨pieces, hpieces⟩ := exists_spells text
  by_cases habs : Absolute text
  · obtain ⟨k, loc, hloc⟩ := exists_reduces pieces
    exact ⟨loc, pieces, k, hpieces, fun _ => hloc, fun h => absurd habs h⟩
  · obtain ⟨k, loc, hloc⟩ := exists_reduces (cwd ++ pieces)
    exact ⟨loc, pieces, k, hpieces, fun h => absurd h habs, fun _ => hloc⟩

/-! ## Where texts lead -/

theorem locate_of_absolute {p : Path} (h : p.anchor ≠ .relative) (cwd : Location) :
    p.locate cwd = p.names.foldl follow [] := by
  rw [locate]
  split
  · contradiction
  · rfl

theorem locate_of_relative {p : Path} (h : p.anchor = .relative) (cwd : Location) :
    p.locate cwd = p.names.foldl follow cwd := by
  rw [locate, h]

/-- The path of a text leads to the location that has the text's names. -/
theorem Normal.locate_eq (hcwd : ∀ name ∈ cwd, Proper name) (h : Normal cwd text loc) :
    (ofString text).locate cwd = loc := by
  obtain ⟨pieces, k, hpieces, habs, hrel⟩ := h
  by_cases htext : Absolute text
  · have hanchor : (ofString text).anchor ≠ .relative := fun h =>
      anchor_eq_relative_iff.mp h htext
    rw [locate_of_absolute hanchor, hpieces.names_eq]
    exact (habs htext).reach_top
  · -- the working directory is what its own names lead to
    have hwhole := (hrel htext).reach_top
    rw [reach_append, reach_names hcwd, List.nil_append] at hwhole
    rw [locate_of_relative (anchor_eq_relative_iff.mpr htext), hpieces.names_eq]
    exact hwhole

theorem join_of_absolute {q : Path} (h : q.anchor ≠ .relative) (p : Path) : p.join q = q := by
  rw [join]
  split
  · contradiction
  · rfl

/-- A relative path leads on from where the path before it leads. -/
theorem locate_join {q : Path} (h : q.anchor = .relative) (p : Path) (cwd : Location) :
    (p.join q).locate cwd = q.names.foldl follow (p.locate cwd) := by
  rw [join, h]
  exact List.foldl_append

theorem Comes.locate_join (h : Comes text k names) (htext : ¬ Absolute text) (p : Path)
    (cwd : Location) : (p.join (ofString text)).locate cwd =
      (p.locate cwd).take ((p.locate cwd).length - k) ++ names := by
  obtain ⟨pieces, hpieces, hnames⟩ := h
  rw [Path.locate_join (anchor_eq_relative_iff.mpr htext), hpieces.names_eq]
  exact hnames.reach_eq (p.locate cwd)

theorem outside_eq_false_iff {p : Path} {destination : String} :
    p.outside cwd destination = false ↔
      p.locate cwd <+: (p.join (ofString destination)).locate cwd := by
  rw [outside, Bool.not_eq_false', List.isPrefixOf_iff_prefix]

/-- A list is in front of what is put behind a part of it if the other part is. -/
theorem prefix_take_append_iff (loc names : Location) (k : Nat) :
    loc <+: loc.take (loc.length - k) ++ names ↔
      loc.drop (loc.length - min k loc.length) <+: names := by
  have hmin : loc.length - min k loc.length = loc.length - k := by omega
  rw [hmin]
  conv_lhs => lhs; rw [← List.take_append_drop (loc.length - k) loc]
  exact List.prefix_append_right_inj _

/-- A relative destination stays within the root if its names enter again what it climbs out of. -/
theorem Comes.stays_iff {root destination : String} (h : Comes destination k names)
    (hcwd : ∀ name ∈ cwd, Proper name) (hroot : Normal cwd root loc) (hdest : ¬ Absolute destination) :
    (ofString root).outside cwd destination = false ↔
      loc.drop (loc.length - min k loc.length) <+: names := by
  rw [outside_eq_false_iff, h.locate_join hdest, hroot.locate_eq hcwd]
  exact prefix_take_append_iff loc names k

/-- An absolute destination stays within the root if the root's names stand in front of its own. -/
theorem Normal.stays_iff {root destination : String} {loc' : Location}
    (h : Normal cwd destination loc') (hcwd : ∀ name ∈ cwd, Proper name)
    (hroot : Normal cwd root loc) (hdest : Absolute destination) :
    (ofString root).outside cwd destination = false ↔ loc <+: loc' := by
  have hanchor : (ofString destination).anchor ≠ .relative := fun h =>
    anchor_eq_relative_iff.mp h hdest
  rw [outside_eq_false_iff, join_of_absolute hanchor, hroot.locate_eq hcwd, h.locate_eq hcwd]

/-- A name with more behind it is another name. -/
theorem not_prefix_of_longer {name more : String} (h : more ≠ "") (rest : List String) :
    ¬ [name] <+: (name ++ more) :: rest := by
  intro hprefix
  have hchars := congrArg String.toList (List.cons_prefix_cons.mp hprefix).1
  rw [String.toList_append, List.self_eq_append_right] at hchars
  exact h (String.toList_eq_nil_iff.mp hchars)

/-- A relative destination stays within the root exactly if it enters again what it climbs out of, and an
absolute one exactly if the root's names stand in front of its own. So what is called like the root and some
more is not within it. -/
theorem outside_iff (cwd : Location) (root destination : String) (loc : Location)
    (hcwd : ∀ name ∈ cwd, Proper name) (hroot : Normal cwd root loc) :
    (¬ Absolute destination → (∃ k names, Comes destination k names) ∧
      (∀ k names, Comes destination k names →
        ((ofString root).outside cwd destination = false ↔
          loc.drop (loc.length - min k loc.length) <+: names)) ∧
      ∀ names, Comes destination 0 names → (ofString root).outside cwd destination = false) ∧
    (Absolute destination → (∃ loc', Normal cwd destination loc') ∧
      ∀ loc', Normal cwd destination loc' →
        ((ofString root).outside cwd destination = false ↔ loc <+: loc')) ∧
    ∀ parent name more rest, loc = parent ++ [name] → more ≠ "" →
      (¬ Absolute destination ∧ Comes destination 1 ((name ++ more) :: rest) ∨
        Absolute destination ∧ Normal cwd destination (parent ++ (name ++ more) :: rest)) →
      (ofString root).outside cwd destination = true := by
  have hbelow : ¬ Absolute destination → ∀ names, Comes destination 0 names →
      (ofString root).outside cwd destination = false := by
    intro hdest names hnames
    rw [hnames.stays_iff hcwd hroot hdest, Nat.zero_min, Nat.sub_zero, List.drop_length]
    exact List.nil_prefix
  refine ⟨fun h =>
      ⟨exists_comes destination, fun _ _ hnames => hnames.stays_iff hcwd hroot h, hbelow h⟩,
    fun h => ⟨exists_normal cwd destination, fun _ hloc => hloc.stays_iff hcwd hroot h⟩, ?_⟩
  rintro parent name more rest rfl hmore hdest
  rw [← Bool.not_eq_false]
  intro hinside
  rcases hdest with ⟨hdest, hnames⟩ | ⟨hdest, hnames⟩
  · have hentered := (hnames.stays_iff hcwd hroot hdest).mp hinside
    rw [List.length_append, List.length_singleton, Nat.min_eq_left (by omega), Nat.add_sub_cancel,
      List.drop_left] at hentered
    exact not_prefix_of_longer hmore rest hentered
  · have hentered := (hnames.stays_iff hcwd hroot hdest).mp hinside
    exact not_prefix_of_longer hmore rest ((List.prefix_append_right_inj parent).mp hentered)

/-- A destination that leaves the root and enters it again, and one next to the root. -/
theorem outside_iff_reentered :
    let cwd := ["srv", "site"]
    let root := "pages/../out"
    (∀ name ∈ cwd, Proper name) ∧ Normal cwd root ["srv", "site", "out"] ∧
      (ofString root).outside cwd "../out/./a" = false ∧
      (ofString root).outside cwd "../output/a" = true := by
  intro cwd root
  have hcwd : ∀ name ∈ cwd, Proper name := by decide
  have hroot : Normal cwd root ["srv", "site", "out"] := by
    refine ⟨["pages", "..", "out"], 0, ⟨by decide, by decide⟩, fun h => absurd h (by decide), ?_⟩
    intro _
    exact ⟨.single (.back ["srv", "site"] ["out"] (by decide)), by decide⟩
  refine ⟨hcwd, hroot, ?_, ?_⟩
  · have hcomes : Comes "../out/./a" 1 ["out", "a"] :=
      ⟨["..", "out", ".", "a"], ⟨by decide, by decide⟩,
        .single (.still ["..", "out"] ["a"] (Or.inr rfl)), by decide⟩
    obtain ⟨-, h, -⟩ := (outside_iff cwd root "../out/./a" _ hcwd hroot).1 (by decide)
    exact (h 1 _ hcomes).mpr (by decide)
  · have hcomes : Comes "../output/a" 1 ["output", "a"] :=
      ⟨["..", "output", "a"], ⟨by decide, by decide⟩, .refl, by decide⟩
    obtain ⟨-, -, h⟩ := outside_iff cwd root "../output/a" _ hcwd hroot
    exact h ["srv", "site"] "out" "put" ["a"] rfl (by decide) (Or.inl ⟨by decide, hcomes⟩)

end Literate.Path
