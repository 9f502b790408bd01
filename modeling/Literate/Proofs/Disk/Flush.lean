import Literate.Writer
import Literate.Proofs.Disk.Temporary

/-!
# What a destination holds after writing

A destination that is written holds its operations replayed on what was read of it, at the
location that its path names (`flushTo_writes`). What is read is what that location held, unless
the path cannot be looked up yet.

So writing does what it is for (`Replayed`) except in one case, `flush_replayed_iff`: all
operations append, the file is there with something in it, and the path leads through a directory
that is missing, as `out/../notes` does before `out` is made. The directory is made only after the
old bytes were looked for, so these are lost.
-/

namespace Literate

namespace Operation

/-- Operations that only append leave the old bytes in front. -/
theorem replay_appends {ops : List Operation} (h : anyOverwrite ops = false) (bytes : ByteArray) :
    replay bytes ops = bytes ++ replay .empty ops := by
  induction ops generalizing bytes with
  | nil => exact ByteArray.append_empty.symm
  | cons op ops ih =>
    rw [anyOverwrite, List.any_cons, Bool.or_eq_false_iff] at h
    have hmode : op.mode = .append := by
      cases hm : op.mode with
      | append => rfl
      | overwrite => simp [hm] at h
    simp only [replay_cons, apply, hmode, ByteArray.empty_append]
    rw [ih h.2, ih h.2 op.content, ByteArray.append_assoc]

theorem replay_inj {ops : List Operation} (h : anyOverwrite ops = false)
    {bytes bytes' : ByteArray} (heq : replay bytes ops = replay bytes' ops) : bytes = bytes' := by
  rw [replay_appends h bytes, replay_appends h bytes'] at heq
  exact (ByteArray.append_left_inj _).mp heq

end Operation

namespace Disk

variable {d d' : Disk} {p : Path} {loc : Location} {ops : List Operation} {name : String}
  {s : Surroundings}

/-- What the file at a location holds: nothing, if no file is there. -/
def contentAt (d : Disk) (loc : Location) : ByteArray :=
  match d.get? loc with
  | some (.file content _) => content
  | _ => .empty

/-- Whether the second disk holds at a location what the operations make of what the first one holds
there, and whether `n` is its length. -/
structure Replayed (before after : Disk) (loc : Location) (ops : List Operation) (n : Nat) :
    Prop where
  file : ∃ mode, after.get? loc =
    some (.file (Operation.replay (before.contentAt loc) ops) mode)
  length : n = (Operation.replay (before.contentAt loc) ops).size

/-! ## The file is put where the path leads -/

/-- Whether a path is one of a name in a directory that is there and can be searched. Nothing need
have that name. -/
structure HasPlace (d : Disk) (p : Path) (name : String) : Prop where
  names : p.names = p.parent.names ++ [name]
  not_up : name ≠ ".."
  short : tooLong name = false
  parent : d.find p.parent = .ok (p.parent.locate d.cwd)
  directory : ∃ bits, d.get? (p.parent.locate d.cwd) = some (.directory bits) ∧
    (Node.directory bits).grants .search = true

theorem HasPlace.locate_eq (h : d.HasPlace p name) :
    p.locate d.cwd = p.parent.locate d.cwd ++ [name] := locate_append d.cwd h.names h.not_up

theorem HasPlace.locate_ne_nil (h : d.HasPlace p name) : p.locate d.cwd ≠ [] := by
  rw [h.locate_eq]
  exact List.append_ne_nil_of_right_ne_nil _ (List.cons_ne_nil name [])

/-- What is there under a path that has a place is what is at its location. -/
theorem HasPlace.stat (h : d.HasPlace p name) (hlength : p.text.utf8ByteSize ≤ maxPath) :
    d.stat p = match d.get? (p.locate d.cwd) with
      | none => .error .notFound
      | some node => .ok node := by
  have hparent : d.walk (d.startOf p) p.parent.names = .ok (p.parent.locate d.cwd) := by
    have hfind := h.parent
    unfold Disk.find at hfind
    split at hfind
    · cases hfind
    · exact hfind
  have hfollow : d.follow (p.parent.locate d.cwd) name =
      if (d.get? (p.locate d.cwd)).isSome then .ok (p.locate d.cwd) else .error .notFound := by
    obtain ⟨bits, hget, hsearch⟩ := h.directory
    rw [follow, hget, h.locate_eq]
    simp only [hsearch, Bool.not_true, Bool.false_eq_true, if_false, if_neg h.not_up, h.short]
  have hfind : d.find p =
      if (d.get? (p.locate d.cwd)).isSome then .ok (p.locate d.cwd) else .error .notFound := by
    rw [Disk.find, if_neg (by omega), h.names, walk_append, hparent]
    exact (walk_singleton name).trans hfollow
  rw [Disk.stat, hfind]
  cases hnode : d.get? (p.locate d.cwd) with
  | none => rfl
  | some node => simp [hnode]

/-- What it takes to put a file in place, and what comes of it. -/
structure PutInPlace (d d' : Disk) (p : Path) (content : ByteArray) (mode : Nat) (name : String) :
    Prop extends HasPlace d p name where
  not_directory : ∀ bits, d.get? (p.locate d.cwd) ≠ some (.directory bits)
  put_eq : d' = d.put (p.locate d.cwd) (.file content mode)

theorem replace_eq_ok {content : ByteArray} {mode : Nat} (h : d.replace p content mode = .ok d') :
    ∃ name, PutInPlace d d' p content mode name := by
  unfold replace at h
  split at h
  · cases h
  · rename_i dir hdirectory
    obtain ⟨hdir, hsearch⟩ := openDirectory_eq_ok hdirectory
    obtain rfl := find_locate hdir
    split at h
    · cases h
    · rename_i hroom
      split at h
      · split at h
        · cases h
        · rename_i name hname
          obtain ⟨hnames, hlast, hup⟩ := ownName?_eq_some hname
          have hshort : tooLong name = false := by
            rw [hlast] at hroom
            simp only [tooLong, decide_eq_false_iff_not]
            omega
          have hplace : d.HasPlace p name := ⟨hnames, hup, hshort, hdir, hsearch⟩
          rw [← hplace.locate_eq] at h
          split at h
          · cases h
          · rename_i hnot
            cases h
            exact ⟨name, hplace, hnot, rfl⟩
      · cases h

/-- A path whose bits can be told is short enough to be looked up. -/
theorem length_le_of_targetMode {umask mode : Nat} (h : d.targetMode p umask = .ok mode) :
    p.text.utf8ByteSize ≤ maxPath := by
  rcases Nat.lt_or_ge maxPath p.text.utf8ByteSize with hlong | hshort
  · have hstat : d.stat p = .error .nameTooLong := by rw [stat, find, if_pos hlong]
    rw [targetMode, hstat] at h
    cases h
  · exact hshort

/-- A destination that is written holds the operations replayed on what was read of it, with the
permission bits that were told once its directory was there. -/
theorem flushTo_writes {n : Nat} (h : d.flushTo p ops s = (d', .ok n)) :
    ∃ old made mode name, d.existing p ops = .ok old ∧ n = (Operation.replay old ops).size ∧
      d.GainsDirectories made ∧ made.targetMode p s.umask = .ok mode ∧
      PutInPlace made d' p (Operation.replay old ops) mode name := by
  unfold flushTo at h
  split at h
  · cases h
  · rename_i old hold
    simp only at h
    split at h
    · cases h
    · rename_i made hmade
      have hgains := makeDirectories_gains d p.parent.anchor p.parent.names s.umask
      rw [hmade] at hgains
      split at h
      · cases h
      · rename_i mode hmode
        split at h
        · cases h
        · rename_i d'' hreplace
          cases h
          obtain ⟨name, hput⟩ := replace_eq_ok (replaceThrough_ok hreplace)
          exact ⟨old, made, mode, name, hold, rfl, hgains, hmode, hput⟩

/-! ## What is read -/

theorem stat_eq_ok {node : Node} (h : d.stat p = .ok node) :
    d.find p = .ok (p.locate d.cwd) ∧ d.get? (p.locate d.cwd) = some node := by
  unfold stat at h
  split at h
  · cases h
  · rename_i loc hfind
    obtain rfl := find_locate hfind
    refine ⟨hfind, ?_⟩
    split at h
    · cases h
    · rename_i node' hget
      cases h
      exact hget

/-- What is read for operations that append is what the location holds, if the path can be looked
up, and else nothing. -/
theorem existing_eq_ok {old : ByteArray} (h : d.existing p ops = .ok old)
    (hops : Operation.anyOverwrite ops = false) :
    (∃ node, d.stat p = .ok node) ∧ old = d.contentAt (p.locate d.cwd) ∨
      (∀ node, d.stat p ≠ .ok node) ∧ old = .empty := by
  rw [existing, hops, existsAt] at h
  cases hstat : d.stat p with
  | ok node =>
    simp only [hstat, read, Bool.false_eq_true, if_false] at h
    refine Or.inl ⟨⟨node, rfl⟩, ?_⟩
    cases node with
    | directory mode => cases h
    | file content mode =>
      simp only at h
      split at h
      · cases h
        rw [contentAt, (stat_eq_ok hstat).2]
      · cases h
  | error e =>
    refine Or.inr ⟨nofun, ?_⟩
    rw [hstat] at h
    cases e <;> simp at h <;> exact h.symm

/-- A path that can be looked up leads through places that are there. -/
theorem reaches_of_stat {node : Node} (h : d.stat p = .ok node)
    (hnames : p.names = p.parent.names ++ [name]) : d.Reaches (d.startOf p) p.parent.names := by
  have hfind := (stat_eq_ok h).1
  unfold find at hfind
  split at hfind
  · cases hfind
  · rw [hnames] at hfind
    exact reaches_of_walk hfind

/-- A place that a path has once there are more directories was there before if the places on the
way were. -/
theorem hasPlace_of_reaches {made : Disk} (hwithin : d.Within made) (hplace : made.HasPlace p name)
    (hreaches : d.Reaches (d.startOf p) p.parent.names) : d.HasPlace p name := by
  have hstart : made.startOf p = d.startOf p := by rw [startOf, startOf, hwithin.cwd]
  have hfind := hplace.parent
  obtain ⟨bits, hget, hsearch⟩ := hplace.directory
  rw [hwithin.cwd] at hfind hget
  refine ⟨hplace.names, hplace.not_up, hplace.short, ?_, bits, ?_, hsearch⟩
  · unfold find at hfind ⊢
    split at hfind
    · cases hfind
    · rename_i hlength
      rw [if_neg hlength]
      exact walk_of_within hwithin (hstart ▸ hfind) hreaches
  · obtain ⟨dir, hdir⟩ := Option.isSome_iff_exists.mp (hreaches _ (List.prefix_refl _))
    have hdir : d.get? (p.parent.locate d.cwd) = some dir := hdir
    rw [hdir, ← hwithin.get? _ dir hdir, hget]

/-! ## Writing a destination -/

/-- It makes no difference that the operations are replayed on what was read exactly if one of them
overwrites, or nothing was there to lose, or every directory that the path leads through was there. -/
theorem replay_existing_iff {made : Disk} {old : ByteArray}
    (hold : d.existing p ops = .ok old) (hwithin : d.Within made)
    (hplace : made.HasPlace p name) (hlength : p.text.utf8ByteSize ≤ maxPath) :
    Operation.replay (d.contentAt (p.locate d.cwd)) ops = Operation.replay old ops ↔
      Operation.anyOverwrite ops = true ∨
        d.contentAt (p.locate d.cwd) = .empty ∨ d.Reaches (d.startOf p) p.parent.names := by
  by_cases hops : Operation.anyOverwrite ops = true
  · exact iff_of_true (Operation.replay_eq_of_any hops _ _) (Or.inl hops)
  · rw [Bool.not_eq_true] at hops
    rcases existing_eq_ok hold hops with ⟨⟨node, hstat⟩, rfl⟩ | ⟨hstat, rfl⟩
    · exact iff_of_true rfl (Or.inr (Or.inr (reaches_of_stat hstat hplace.names)))
    · constructor
      · intro hsame
        exact Or.inr (Or.inl (Operation.replay_inj hops hsame))
      · rintro (hany | hempty | hreaches)
        · rw [hops] at hany
          cases hany
        · rw [hempty]
        · -- what was there could have been looked up, so nothing was
          have hwas := (hasPlace_of_reaches hwithin hplace hreaches).stat hlength
          cases hget : d.get? (p.locate d.cwd) with
          | none => rw [contentAt, hget]
          | some node =>
            rw [hget] at hwas
            exact absurd hwas (hstat node)

theorem flushTo_replayed_iff {n : Nat} (h : d.flushTo p ops s = (d', .ok n)) :
    Replayed d d' (p.locate d.cwd) ops n ↔
      Operation.anyOverwrite ops = true ∨
        d.contentAt (p.locate d.cwd) = .empty ∨ d.Reaches (d.startOf p) p.parent.names := by
  obtain ⟨old, made, mode, name, hold, hn, hgains, hmode, hput⟩ := flushTo_writes h
  have hfile : d'.get? (p.locate d.cwd) = some (.file (Operation.replay old ops) mode) := by
    rw [hput.put_eq, ← hgains.cwd]
    exact get?_put_self made _ hput.locate_ne_nil
  rw [← replay_existing_iff hold hgains.toWithin hput.toHasPlace (length_le_of_targetMode hmode)]
  constructor
  · intro hreplayed
    obtain ⟨mode', hfile'⟩ := hreplayed.file
    rw [hfile, Option.some.injEq, Node.file.injEq] at hfile'
    exact hfile'.1.symm
  · intro hsame
    rw [← hsame] at hfile hn
    exact ⟨⟨mode, hfile⟩, hn⟩

/-- A destination that is written holds the operations replayed on what it held exactly if one of
them overwrites, or nothing was there to lose, or every directory that its path leads through was
there. -/
theorem flush_replayed_iff (d : Disk) (root : Path) (request : WriteRequest) (s : Surroundings)
    (h : (d.flush root request s).2.ok = true) :
    let p := root.join (.ofString request.destination)
    Replayed d (d.flush root request s).1 (p.locate d.cwd) request.operations
        (d.flush root request s).2.bytesWritten ↔
      Operation.anyOverwrite request.operations = true ∨
        d.contentAt (p.locate d.cwd) = .empty ∨ d.Reaches (d.startOf p) p.parent.names := by
  intro p
  rw [flush] at h ⊢
  cases hflush : d.flushTo p request.operations s with
  | mk d' result =>
    rw [hflush] at h
    cases result with
    | ok n => exact flushTo_replayed_iff hflush
    | error refused => cases h

/-- A directory with a log in it. -/
def logged : Disk :=
  ⟨["work"], [(["work"], .directory directoryMode),
    (["work", "log"], .file "old\n".toUTF8 fileMode)]⟩

/-- One more line for the log, reached in some way. -/
def lineFor (destination : String) : WriteRequest :=
  ⟨destination, [⟨"new\n".toUTF8, .append⟩]⟩

theorem flush_replayed_iff_logged :
    let d := logged
    let p := Path.here.join (.ofString "./log")
    let out := d.flush .here (lineFor "./log")
    out.2.ok = true ∧
      (Replayed d out.1 (p.locate d.cwd) (lineFor "./log").operations out.2.bytesWritten ↔
        Operation.anyOverwrite (lineFor "./log").operations = true ∨
          d.contentAt (p.locate d.cwd) = .empty ∨ d.Reaches (d.startOf p) p.parent.names) := by
  have hok : (logged.flush .here (lineFor "./log")).2.ok = true := by decide +kernel
  exact ⟨hok, flush_replayed_iff logged .here (lineFor "./log") .usual hok⟩

/-- Through a directory that is not there yet, a line is not added to the log but replaces it. -/
theorem flush_loses_old_bytes :
    let d := logged
    let p := Path.here.join (.ofString "out/../log")
    let out := d.flush .here (lineFor "out/../log")
    out.2.ok = true ∧ p.locate d.cwd = ["work", "log"] ∧ d.contentAt ["work", "log"] = "old\n".toUTF8 ∧
      out.1.contentAt ["work", "log"] = "new\n".toUTF8 ∧
      ¬ Replayed d out.1 (p.locate d.cwd) (lineFor "out/../log").operations
        out.2.bytesWritten := by
  have hlength : (logged.flush .here (lineFor "out/../log")).2.bytesWritten = 4 := by
    decide +kernel
  refine ⟨by decide +kernel, by decide +kernel, by decide +kernel, by decide +kernel, ?_⟩
  intro hreplayed
  have hfull : (Operation.replay (logged.contentAt ((Path.here.join
      (.ofString "out/../log")).locate logged.cwd)) (lineFor "out/../log").operations).size = 8 := by
    decide +kernel
  have hlost := hreplayed.length
  rw [hlength, hfull] at hlost
  exact absurd hlost (by decide)

end Disk

end Literate
