import Literate.Proofs.Disk.Descent

/-!
# Disks only grow

Writing takes nothing away from a disk: directories stay as they are, and files stay files and keep
their permission bits, whatever their bytes become (`GrowsTo`). Nor does it add anything to a directory
in which names may not be made. So going down comes to the same on every disk that has grown out of
the one that it left: where it went on, all is there now, and where it ended, it still ends
(`descend_again`).
-/

namespace Literate.Disk

variable {d d' d'' grown : Disk} {loc next dir : Location} {name : String} {names : List String}
  {umask bits : Nat} {content : ByteArray} {mode : Nat} {node : Node} {e : Errno}
  {out : Option Location}

/-- Whether a disk can have become another one by writing to it. -/
structure GrowsTo (d d' : Disk) : Prop where
  cwd : d'.cwd = d.cwd
  directory : ∀ loc bits, d.get? loc = some (.directory bits) → d'.get? loc = some (.directory bits)
  file : ∀ loc content mode, d.get? loc = some (.file content mode) →
    ∃ content', d'.get? loc = some (.file content' mode)
  /-- Nothing is new in a directory in which names may not be made. -/
  closed : ∀ loc name, d.holdsDirectory loc = true → d.mayChange loc = false →
    d.get? (loc ++ [name]) = none → d'.get? (loc ++ [name]) = none

namespace GrowsTo

theorem refl (d : Disk) : d.GrowsTo d where
  cwd := rfl
  directory _ _ h := h
  file _ content _ h := ⟨content, h⟩
  closed _ _ _ _ h := h

theorem get?_directory (h : d.GrowsTo d') (hdir : d.holdsDirectory loc = true) :
    d'.get? loc = d.get? loc := by
  obtain ⟨bits, hget⟩ := holdsDirectory_iff.mp hdir
  rw [hget, h.directory loc bits hget]

theorem holdsDirectory (h : d.GrowsTo d') (hdir : d.holdsDirectory loc = true) :
    d'.holdsDirectory loc = true := by
  rw [Disk.holdsDirectory, h.get?_directory hdir]
  exact hdir

/-- What may be done in a directory does not change. -/
theorem mayChange (h : d.GrowsTo d') (hdir : d.holdsDirectory loc = true) :
    d'.mayChange loc = d.mayChange loc := by
  rw [Disk.mayChange, Disk.mayChange, h.get?_directory hdir]

theorem trans (h : d.GrowsTo d') (h' : d'.GrowsTo d'') : d.GrowsTo d'' where
  cwd := h'.cwd.trans h.cwd
  directory loc bits hget := h'.directory loc bits (h.directory loc bits hget)
  file loc content mode hget := by
    obtain ⟨content', hget'⟩ := h.file loc content mode hget
    exact h'.file loc content' mode hget'
  closed loc name hdir hchange hnone :=
    h'.closed loc name (h.holdsDirectory hdir) ((h.mayChange hdir).trans hchange)
      (h.closed loc name hdir hchange hnone)

theorem isSome (h : d.GrowsTo d') (hget : (d.get? loc).isSome = true) :
    (d'.get? loc).isSome = true := by
  obtain ⟨node, hnode⟩ := Option.isSome_iff_exists.mp hget
  cases node with
  | directory bits => rw [h.directory loc bits hnode, Option.isSome_some]
  | file content mode =>
    obtain ⟨content', hfile⟩ := h.file loc content mode hnode
    rw [hfile, Option.isSome_some]

theorem settled (h : d.GrowsTo d') (hsettled : d.Settled loc) : d'.Settled loc := by
  intro around haround
  obtain ⟨bits, hdir⟩ := hsettled around haround
  exact ⟨bits, h.directory around bits hdir⟩

theorem settled_cwd (h : d.GrowsTo d') (hcwd : d.Settled d.cwd) : d'.Settled d'.cwd := by
  rw [h.cwd]
  exact h.settled hcwd

theorem startOf (h : d.GrowsTo d') (p : Path) : d'.startOf p = d.startOf p := by
  rw [Disk.startOf, Disk.startOf, h.cwd]

end GrowsTo

/-- Something is put in a directory that lets it, where nothing is or where a file is that it takes
the place of. -/
theorem growsTo_put (hchange : d.mayChange dir = true)
    (hkept : ∀ old, d.get? (dir ++ [name]) = some old →
      ∃ content content' mode, old = .file content mode ∧ node = .file content' mode) :
    d.GrowsTo (d.put (dir ++ [name]) node) := by
  have hself := get?_put_self d node
    (List.append_ne_nil_of_right_ne_nil dir (List.cons_ne_nil name []))
  refine ⟨rfl, ?_, ?_, ?_⟩
  · intro loc bits hget
    rw [get?_put_of_ne d node ?_]
    · exact hget
    · rintro rfl
      obtain ⟨_, _, _, heq, -⟩ := hkept _ hget
      cases heq
  · intro loc content mode hget
    by_cases hloc : loc = dir ++ [name]
    · subst hloc
      obtain ⟨_, content', _, heq, rfl⟩ := hkept _ hget
      cases heq
      exact ⟨content', hself⟩
    · exact ⟨content, by rw [get?_put_of_ne d node hloc, hget]⟩
  · intro loc name' _ hclosed hnone
    rw [get?_put_of_ne d node ?_]
    · exact hnone
    · intro heq
      -- what is put here is in a directory in which names may be made
      obtain ⟨rfl, -⟩ := List.append_inj' heq rfl
      rw [hchange] at hclosed
      cases hclosed

/-! ## One name again -/

/-- A name that leads somewhere from a directory still leads there. -/
theorem GrowsTo.follow (h : d.GrowsTo d') (hfollow : d.follow loc name = .ok next) :
    d'.follow loc name = .ok next := by
  obtain ⟨bits, hdir⟩ := holdsDirectory_iff.mp (holdsDirectory_of_follow hfollow)
  rw [Disk.follow, hdir] at hfollow
  rw [Disk.follow, h.directory loc bits hdir]
  by_cases hthere : (d.get? (loc ++ [name])).isSome = true
  · simp only [hthere, h.isSome hthere] at hfollow ⊢
    exact hfollow
  · simp only [if_neg hthere] at hfollow ⊢
    split_ifs at hfollow ⊢
    exact hfollow

/-- A name that leads nowhere from a directory, and not because nothing has it, still leads nowhere. -/
theorem GrowsTo.follow_error (h : d.GrowsTo d') (hdir : d.holdsDirectory loc = true)
    (hfollow : d.follow loc name = .error e) (he : e ≠ .notFound) :
    d'.follow loc name = .error e := by
  obtain ⟨bits, hget⟩ := holdsDirectory_iff.mp hdir
  rw [Disk.follow, hget] at hfollow
  rw [Disk.follow, h.directory loc bits hget]
  simp only at hfollow ⊢
  split_ifs at hfollow ⊢ <;> cases hfollow <;> first | rfl | exact absurd rfl he

/-- A way on that is there, or for which a directory can be made. -/
theorem enter_growsTo (hdir : d.holdsDirectory loc = true)
    (henter : d.enter umask loc name = some (d', next)) : d.GrowsTo d' := by
  obtain ⟨bits, hget⟩ := holdsDirectory_iff.mp hdir
  rw [enter] at henter
  split at henter
  · split at henter
    · cases henter
      exact .refl d
    · cases henter
  · rename_i hfollow
    split at henter
    · rename_i hchange
      cases henter
      refine growsTo_put hchange ?_
      intro old hold
      rw [(follow_notFound hget hfollow).2.2.2] at hold
      cases hold
    · cases henter
  · cases henter

/-- Where a way on went, it is there now. -/
theorem enter_again (h : d.Settled loc) (henter : d.enter umask loc name = some (d', next))
    (hgrows : d'.GrowsTo grown) : grown.enter umask loc name = some (grown, next) := by
  obtain ⟨hnext, hfollow, -⟩ := enter_eq_some h henter
  have hdir : d'.holdsDirectory next = true := holdsDirectory_iff.mpr hnext.directory
  rw [enter, hgrows.follow hfollow]
  simp only [hgrows.holdsDirectory hdir, if_true]

/-- Where no way went on, none does: neither has a file given way to a directory, nor can a directory
be made where it could not. -/
theorem enter_none_again (h : d.Settled loc) (henter : d.enter umask loc name = none)
    (hgrows : d.GrowsTo grown) : grown.enter umask loc name = none := by
  have hdir : d.holdsDirectory loc = true := holdsDirectory_iff.mpr h.directory
  rw [enter] at henter
  cases hfollow : d.follow loc name with
  | ok next =>
    rw [hfollow] at henter
    -- what is in the way is a file, and a file stays one
    have hfile : ∃ content mode, d.get? next = some (.file content mode) := by
      refine (h.follow hfollow).resolve_left fun hnext => ?_
      simp [holdsDirectory_iff.mpr hnext.directory] at henter
    obtain ⟨content, mode, hfile⟩ := hfile
    obtain ⟨content', hfile'⟩ := hgrows.file next content mode hfile
    rw [enter, hgrows.follow hfollow]
    simp [Disk.holdsDirectory, hfile', Node.isDirectory]
  | error e =>
    by_cases he : e = .notFound
    · subst he
      obtain ⟨bits, hget⟩ := h.directory
      obtain ⟨hup, hlong, hsearch, hnone⟩ := follow_notFound hget hfollow
      -- a directory could not be made here, so nothing else has come here since
      rw [hfollow] at henter
      have hchange : d.mayChange loc = false := by simpa using henter
      have hnone' := hgrows.closed loc name hdir hchange hnone
      have hfollow' : grown.follow loc name = .error .notFound := by
        rw [Disk.follow, hgrows.directory loc bits hget]
        simp [hup, hlong, hsearch, hnone']
      rw [enter, hfollow']
      simp [hgrows.mayChange hdir, hchange]
    · rw [enter, hgrows.follow_error hdir hfollow he]
      cases e with
      | notFound => exact absurd rfl he
      | denied | busy | «exists» | notDirectory | isDirectory | nameTooLong => rfl

/-! ## All names again -/

theorem descend_growsTo (h : d.Settled loc) (hdescend : d.descend umask loc names = (d', out)) :
    d.GrowsTo d' := by
  induction names generalizing d loc with
  | nil =>
    cases hdescend
    exact .refl _
  | cons name names ih =>
    rw [descend] at hdescend
    split at hdescend
    · cases hdescend
      exact .refl _
    · rename_i made next henter
      have hmade := enter_growsTo (holdsDirectory_iff.mpr h.directory) henter
      exact hmade.trans (ih (enter_eq_some h henter).1 hdescend)

/-- On a disk that has grown out of the one that going down left, going down makes nothing and comes
to the same. -/
theorem descend_again (h : d.Settled loc) (hdescend : d.descend umask loc names = (d', out))
    (hgrows : d'.GrowsTo grown) : grown.descend umask loc names = (grown, out) := by
  induction names generalizing d loc with
  | nil =>
    cases hdescend
    rfl
  | cons name names ih =>
    rw [descend] at hdescend
    rw [descend]
    split at hdescend
    · rename_i henter
      cases hdescend
      rw [enter_none_again h henter hgrows]
    · rename_i made next henter
      -- the disk has grown out of the one behind this name too
      have hnext := (enter_eq_some h henter).1
      have hmade := (descend_growsTo hnext hdescend).trans hgrows
      rw [enter_again h henter hmade]
      exact ih hnext hdescend

end Literate.Disk
