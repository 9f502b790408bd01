import Literate.Disk.Basic

/-!
# Looking up paths

Without links a path that can be looked up leads where its names alone say (`find_locate`): the
disk only decides whether it can be looked up. What it takes besides permissions is that every
place which the names lead through is there (`Reaches`).

Making directories only adds to a disk, and only directories (`makeDirectories_gains`), so what could
be looked up before still can, and leads to the same (`Within.find`). The converse needs the places to
have been there already (`walk_of_within`): `a/..` leads nowhere until `a` is made.
-/

namespace Literate.Disk

variable {d d' d'' : Disk} {loc loc' : Location} {name : String} {names : List String} {p : Path}
  {umask : Nat}

/-! ## Where names lead -/

theorem follow_eq (h : d.follow loc name = .ok loc') : loc' = Path.follow loc name := by
  unfold follow at h
  split at h
  · cases h
  · cases h
  · split at h
    · cases h
    · split at h
      · rename_i hup
        cases h
        rw [Path.follow, if_pos hup]
      · rename_i hup
        split at h
        · cases h
        · split at h
          · cases h
            rw [Path.follow, if_neg hup]
          · cases h

theorem walk_eq (h : d.walk loc names = .ok loc') : loc' = names.foldl Path.follow loc := by
  induction names generalizing loc with
  | nil =>
    cases h
    rfl
  | cons name names ih =>
    rw [walk] at h
    split at h
    · cases h
    · rename_i next hnext
      rw [List.foldl_cons, ← follow_eq hnext]
      exact ih h

/-- A path that can be looked up leads where its names say. -/
theorem find_locate (h : d.find p = .ok loc) : loc = p.locate d.cwd := by
  unfold find at h
  split at h
  · cases h
  · exact walk_eq h

theorem ownName?_eq_some {name : String} (h : ownName? p = some name) :
    p.names = p.parent.names ++ [name] ∧ p.name = name ∧ name ≠ ".." := by
  unfold ownName? at h
  split at h
  · cases h
  · rename_i last hlast
    split at h
    · cases h
    · rename_i hup
      cases h
      refine ⟨?_, ?_, hup⟩
      · obtain ⟨before, hnames⟩ := List.getLast?_eq_some_iff.mp hlast
        rw [Path.parent, hnames, List.dropLast_concat]
      · rw [Path.name, List.getLastD_eq_getLast?, hlast]
        rfl

theorem locate_append {name : String} (cwd : Location) (hnames : p.names = p.parent.names ++ [name])
    (hup : name ≠ "..") : p.locate cwd = p.parent.locate cwd ++ [name] := by
  rw [Path.locate, hnames, List.foldl_append]
  exact if_neg hup

theorem walk_append (names names' : List String) :
    d.walk loc (names ++ names') = (d.walk loc names).bind (d.walk · names') := by
  induction names generalizing loc with
  | nil => rfl
  | cons name names ih =>
    rw [List.cons_append, walk, walk]
    split
    · rfl
    · exact ih

theorem walk_singleton (name : String) : d.walk loc [name] = d.follow loc name := by
  rw [walk]
  cases d.follow loc name <;> rfl

/-- Whether every place that the names lead through from a location is there, the first and the last
one included. -/
def Reaches (d : Disk) (loc : Location) (names : List String) : Prop :=
  ∀ before, before <+: names → (d.get? (before.foldl Path.follow loc)).isSome = true

theorem Reaches.tail (h : d.Reaches loc (name :: names)) :
    d.Reaches (Path.follow loc name) names := by
  intro before hbefore
  exact h (name :: before) (List.cons_prefix_cons.mpr ⟨rfl, hbefore⟩)

theorem isSome_of_follow (h : d.follow loc name = .ok loc') : (d.get? loc).isSome = true := by
  rw [follow] at h
  cases hget : d.get? loc with
  | none =>
    rw [hget] at h
    cases h
  | some node => rfl

/-- Names are looked up in places that are there. -/
theorem reaches_of_walk (h : d.walk loc (names ++ [name]) = .ok loc') : d.Reaches loc names := by
  intro before hbefore
  induction before generalizing loc names with
  | nil =>
    obtain ⟨first, later, hnames⟩ : ∃ first later, names ++ [name] = first :: later :=
      List.exists_cons_of_ne_nil (List.append_ne_nil_of_right_ne_nil names (by simp))
    rw [hnames, walk] at h
    split at h
    · cases h
    · rename_i next hnext
      exact isSome_of_follow hnext
  | cons first before ih =>
    obtain ⟨later, rfl⟩ := hbefore
    rw [List.cons_append, List.cons_append, walk] at h
    split at h
    · cases h
    · rename_i next hnext
      rw [List.foldl_cons, ← follow_eq hnext]
      exact ih h (List.prefix_append before later)

/-! ## Disks that hold more -/

/-- Whether all that is on a disk is on the other one as well, unchanged. -/
structure Within (d d' : Disk) : Prop where
  cwd : d'.cwd = d.cwd
  get? : ∀ loc node, d.get? loc = some node → d'.get? loc = some node

theorem Within.refl (d : Disk) : d.Within d := ⟨rfl, fun _ _ h => h⟩

theorem Within.trans (h : d.Within d') (h' : d'.Within d'') : d.Within d'' where
  cwd := h'.cwd.trans h.cwd
  get? loc node hget := h'.get? loc node (h.get? loc node hget)

theorem get?_put_self (d : Disk) (node : Node) (h : loc ≠ []) :
    (d.put loc node).get? loc = some node := by
  rw [get?, if_neg h]
  exact Entries.lookup_put_self loc node d.nodes

/-- Something new takes nothing away. -/
theorem within_put (node : Node) (h : d.get? loc = none) : d.Within (d.put loc node) where
  cwd := rfl
  get? loc' node' hget := by
    have hne : loc' ≠ loc := by
      rintro rfl
      rw [h] at hget
      cases hget
    rw [get?] at hget ⊢
    split
    · rename_i htop
      rwa [if_pos htop] at hget
    · rename_i htop
      rw [if_neg htop] at hget
      exact (Entries.lookup_put_of_ne hne node d.nodes).trans hget

theorem get?_put_of_ne (d : Disk) (node : Node) (h : loc' ≠ loc) :
    (d.put loc node).get? loc' = d.get? loc' := by
  rw [get?, get?]
  split
  · rfl
  · exact Entries.lookup_put_of_ne h node d.nodes

/-- Whether a disk holds what another one does, unchanged, and besides that nothing but
directories. -/
structure GainsDirectories (d d' : Disk) : Prop extends d.Within d' where
  new : ∀ loc node, d'.get? loc = some node → d.get? loc = none → node.isDirectory = true

theorem GainsDirectories.refl (d : Disk) : d.GainsDirectories d where
  toWithin := .refl d
  new loc node hnode hnone := by
    rw [hnone] at hnode
    cases hnode

theorem GainsDirectories.trans (h : d.GainsDirectories d') (h' : d'.GainsDirectories d'') :
    d.GainsDirectories d'' where
  toWithin := h.toWithin.trans h'.toWithin
  new loc node hnode hnone := by
    cases hget : d'.get? loc with
    | none => exact h'.new loc node hnode hget
    | some made =>
      have hsame := h'.get? loc made hget
      rw [hnode] at hsame
      cases hsame
      exact h.new loc node hget hnone

/-- A new directory is one more directory. -/
theorem gains_put (mode : Nat) (h : d.get? loc = none) :
    d.GainsDirectories (d.put loc (.directory mode)) where
  toWithin := within_put _ h
  new loc' node hnode hnone := by
    by_cases heq : loc' = loc
    · subst heq
      by_cases htop : loc' = []
      · rw [htop, get?, if_pos rfl] at h
        cases h
      · rw [get?_put_self d _ htop] at hnode
        cases hnode
        rfl
    · rw [get?_put_of_ne d _ heq, hnone] at hnode
      cases hnode

theorem makeDirectory_gains (h : d.makeDirectory p umask = .ok d') : d.GainsDirectories d' := by
  unfold makeDirectory at h
  split at h
  · split at h <;> cases h
  · split at h
    · cases h
    · rename_i loc hslot
      split at h
      · cases h
      · rename_i hnone
        split at h
        · cases h
          exact gains_put _ (by simpa using hnone)
        · cases h

theorem makeDirectories_gains (d : Disk) (anchor : Anchor) (names : List String) (umask : Nat) :
    d.GainsDirectories (d.makeDirectories anchor names umask).1 := by
  -- one case for each way in which the directories around it and then it itself are made
  fun_induction makeDirectories d anchor names umask with
  | case1 names p d' hmade => exact makeDirectory_gains hmade
  | case2 => exact .refl _
  | case3 names p =>
    rename_i hrec ih
    rw [hrec] at ih
    exact ih
  | case4 names p =>
    rename_i hrec d'' hmade ih
    rw [hrec] at ih
    exact ih.trans (makeDirectory_gains hmade)
  | case5 names p =>
    rename_i hrec e he ih
    rw [hrec] at ih
    exact ih
  | case6 => exact .refl _

/-! ## Looking up on both -/

/-- A name that leads on from a place still does if the disk holds more. -/
theorem Within.follow (h : d.Within d') (hfollow : d.follow loc name = .ok loc') :
    d'.follow loc name = .ok loc' := by
  unfold Disk.follow at hfollow ⊢
  cases hnode : d.get? loc with
  | none =>
    rw [hnode] at hfollow
    cases hfollow
  | some node =>
    rw [hnode] at hfollow
    rw [h.get? loc node hnode]
    cases node with
    | file content mode => cases hfollow
    | directory mode =>
      simp only at hfollow ⊢
      split at hfollow
      · cases hfollow
      · rename_i hsearch
        rw [if_neg hsearch]
        split at hfollow
        · rename_i hup
          rw [if_pos hup]
          exact hfollow
        · rename_i hup
          rw [if_neg hup]
          split at hfollow
          · cases hfollow
          · rename_i hlong
            rw [if_neg hlong]
            split at hfollow
            · rename_i hthere
              obtain ⟨node, hget⟩ := Option.isSome_iff_exists.mp hthere
              rw [h.get? _ node hget]
              exact hfollow
            · cases hfollow

theorem Within.walk (h : d.Within d') (hwalk : d.walk loc names = .ok loc') :
    d'.walk loc names = .ok loc' := by
  induction names generalizing loc with
  | nil => exact hwalk
  | cons name names ih =>
    rw [Disk.walk] at hwalk
    split at hwalk
    · cases hwalk
    · rename_i next hnext
      rw [Disk.walk, h.follow hnext]
      exact ih hwalk

theorem Within.find (h : d.Within d') (hfind : d.find p = .ok loc) : d'.find p = .ok loc := by
  unfold Disk.find at hfind ⊢
  split at hfind
  · cases hfind
  · rename_i hlength
    rw [if_neg hlength]
    have hstart : d'.startOf p = d.startOf p := by rw [startOf, startOf, h.cwd]
    rw [hstart]
    exact h.walk hfind

/-- A name that leads on from a place leads on from it in a smaller disk too, if both ends are
there. -/
theorem follow_of_within (h : d.Within d') (hfollow : d'.follow loc name = .ok loc')
    (hhere : (d.get? loc).isSome = true) (hthere : (d.get? loc').isSome = true) :
    d.follow loc name = .ok loc' := by
  obtain ⟨node, hnode⟩ := Option.isSome_iff_exists.mp hhere
  have hloc' := follow_eq hfollow
  rw [follow, h.get? loc node hnode] at hfollow
  rw [follow, hnode]
  cases node with
  | file content mode => cases hfollow
  | directory mode =>
    simp only at hfollow ⊢
    split at hfollow
    · cases hfollow
    · rename_i hsearch
      rw [if_neg hsearch]
      split at hfollow
      · rename_i hup
        rw [if_pos hup]
        exact hfollow
      · rename_i hup
        rw [if_neg hup]
        split at hfollow
        · cases hfollow
        · rename_i hlong
          rw [Path.follow, if_neg hup] at hloc'
          subst hloc'
          rw [if_neg hlong, if_pos hthere]

/-- Names that can be looked up could be before, as far as the places they lead through were
there. -/
theorem walk_of_within (h : d.Within d') (hwalk : d'.walk loc names = .ok loc')
    (hreaches : d.Reaches loc names) : d.walk loc names = .ok loc' := by
  induction names generalizing loc with
  | nil => exact hwalk
  | cons name names ih =>
    rw [walk] at hwalk
    split at hwalk
    · cases hwalk
    · rename_i next hnext
      have hhere : (d.get? loc).isSome = true := hreaches [] (List.nil_prefix)
      have htail : d.Reaches next names := by
        rw [follow_eq hnext]
        exact hreaches.tail
      have hthere : (d.get? next).isSome = true := htail [] (List.nil_prefix)
      rw [walk, follow_of_within h hnext hhere hthere]
      exact ih hwalk htail

end Literate.Disk
