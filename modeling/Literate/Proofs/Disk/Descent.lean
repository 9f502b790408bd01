import Literate.Proofs.Disk.Lookup
import Mathlib.Data.List.Induction

/-!
# Making directories is going down

Making a directory and those around it that are missing tries the longest path first and falls back
on shorter ones. What comes of it is what going down name by name does (`descend`), making each
directory that is missing on the way: the disk is the same, and directories are made to the end
exactly if the way goes on to the end (`makeDirectories_descends`). This takes a start that stands on
directories (`Settled`), as working directories do.
-/

namespace Literate

/-- A path is no longer without its last name, but for the dot that stands for no names. -/
theorem Path.size_text_le (anchor : Anchor) (names : List String) (name : String) :
    (Path.mk anchor names).text.utf8ByteSize ≤
      max 1 (Path.mk anchor (names ++ [name])).text.utf8ByteSize := by
  have hnames : ("/".intercalate names).utf8ByteSize ≤
      ("/".intercalate (names ++ [name])).utf8ByteSize := by
    by_cases hnil : names = []
    · rw [hnil]
      exact Nat.zero_le _
    · rw [String.intercalate_append_of_ne_nil hnil (List.cons_ne_nil name [])]
      simp only [String.utf8ByteSize_append]
      omega
  cases anchor with
  | relative =>
    cases names with
    | nil => exact Nat.le_max_left 1 _
    | cons first names => exact Nat.le_trans hnames (Nat.le_max_right 1 _)
  | top | doubleTop =>
    refine Nat.le_trans ?_ (Nat.le_max_right 1 _)
    simp only [text, String.utf8ByteSize_append]
    omega

namespace Disk

/-- Whether a directory is at a location. -/
def holdsDirectory (d : Disk) (loc : Location) : Bool := (d.get? loc).any (·.isDirectory)

/-- One name further on from a directory. The directory that it leads to is made if nothing has
that name. -/
def enter (umask : Nat) (d : Disk) (loc : Location) (name : String) : Option (Disk × Location) :=
  match d.follow loc name with
  | .ok next => if d.holdsDirectory next then some (d, next) else none
  | .error .notFound =>
    if d.mayChange loc then
      some (d.put (loc ++ [name]) (.directory (directoryMode umask)), loc ++ [name])
    else none
  | .error _ => none

/-- Goes down from a directory name by name, and says where the names lead. What is made on the way
stays, also if the way ends. -/
def descend (umask : Nat) (d : Disk) (loc : Location) : List String → Disk × Option Location
  | [] => (d, some loc)
  | name :: names =>
    match d.enter umask loc name with
    | none => (d, none)
    | some (d, next) => descend umask d next names

/-- Whether a location and all that are around it are directories. -/
def Settled (d : Disk) (loc : Location) : Prop :=
  ∀ around, around <+: loc → ∃ bits, d.get? around = some (.directory bits)

variable {d d' : Disk} {loc next dir : Location} {name : String} {names : List String} {umask : Nat}
  {anchor : Anchor} {bits : Nat} {e : Errno} {out : Option Location}

theorem holdsDirectory_iff :
    d.holdsDirectory loc = true ↔ ∃ bits, d.get? loc = some (.directory bits) := by
  rw [holdsDirectory]
  cases d.get? loc with
  | none => simp
  | some node => cases node <;> simp [Node.isDirectory]

theorem settled_nil (d : Disk) : d.Settled [] := by
  intro around h
  rw [List.prefix_nil.mp h]
  exact ⟨_, rfl⟩

theorem Settled.directory (h : d.Settled loc) : ∃ bits, d.get? loc = some (.directory bits) :=
  h loc (List.prefix_refl loc)

theorem Settled.dropLast (h : d.Settled loc) : d.Settled loc.dropLast :=
  fun around haround => h around (haround.trans (List.dropLast_prefix loc))

theorem Settled.concat (h : d.Settled loc) (hdir : d.get? (loc ++ [name]) = some (.directory bits)) :
    d.Settled (loc ++ [name]) := by
  intro around haround
  rcases List.prefix_concat_iff.mp haround with rfl | haround
  · exact ⟨bits, hdir⟩
  · exact h around haround

theorem Settled.within (h : d.Settled loc) (hwithin : d.Within d') : d'.Settled loc := by
  intro around haround
  obtain ⟨bits, hdir⟩ := h around haround
  exact ⟨bits, hwithin.get? around _ hdir⟩

theorem settled_startOf (h : d.Settled d.cwd) (p : Path) : d.Settled (d.startOf p) := by
  rw [startOf]
  split
  · exact h
  · exact settled_nil d

/-! ## One name -/

/-- A name leads to a directory that stands on directories, or to a file. -/
theorem Settled.follow (h : d.Settled loc) (hfollow : d.follow loc name = .ok next) :
    d.Settled next ∨ ∃ content mode, d.get? next = some (.file content mode) := by
  obtain ⟨bits, hdir⟩ := h.directory
  rw [Disk.follow, hdir] at hfollow
  simp only at hfollow
  split at hfollow
  · cases hfollow
  · split at hfollow
    · cases hfollow
      exact Or.inl h.dropLast
    · split at hfollow
      · cases hfollow
      · split at hfollow
        · rename_i hsome
          cases hfollow
          obtain ⟨node, hnode⟩ := Option.isSome_iff_exists.mp hsome
          cases node with
          | file content mode => exact Or.inr ⟨content, mode, hnode⟩
          | directory bits => exact Or.inl (h.concat hnode)
        · cases hfollow

theorem Settled.follow_directory (h : d.Settled loc) (hfollow : d.follow loc name = .ok next)
    (hdir : d.holdsDirectory next = true) : d.Settled next := by
  refine (h.follow hfollow).resolve_right ?_
  rintro ⟨content, mode, hfile⟩
  rw [holdsDirectory, hfile] at hdir
  cases hdir

/-- Why a name leads from a directory to nothing. -/
theorem follow_notFound (hdir : d.get? loc = some (.directory bits))
    (h : d.follow loc name = .error .notFound) :
    name ≠ ".." ∧ tooLong name = false ∧ (Node.directory bits).grants .search = true ∧
      d.get? (loc ++ [name]) = none := by
  rw [Disk.follow, hdir] at h
  simp only at h
  split at h
  · cases h
  · rename_i hsearch
    split at h
    · cases h
    · rename_i hup
      split at h
      · cases h
      · rename_i hlong
        split at h
        · cases h
        · rename_i hnone
          exact ⟨hup, by simpa using hlong, by simpa using hsearch, by simpa using hnone⟩

/-- A way on makes at most the directory that it leads to. -/
theorem enter_eq_some (h : d.Settled loc) (henter : d.enter umask loc name = some (d', next)) :
    d'.Settled next ∧ d'.follow loc name = .ok next ∧ d.GainsDirectories d' := by
  obtain ⟨bits, hdir⟩ := h.directory
  rw [enter] at henter
  cases hfollow : d.follow loc name with
  | ok next' =>
    rw [hfollow] at henter
    simp only at henter
    split at henter
    · rename_i hholds
      cases henter
      exact ⟨h.follow_directory hfollow hholds, hfollow, .refl d⟩
    · cases henter
  | error e =>
    rw [hfollow] at henter
    cases e with
    | denied | busy | «exists» | notDirectory | isDirectory | nameTooLong => cases henter
    | notFound =>
      simp only at henter
      split at henter
      · cases henter
        obtain ⟨hup, hlong, hsearch, hnone⟩ := follow_notFound hdir hfollow
        have hgains := gains_put (directoryMode umask) hnone
        have hself := get?_put_self d (.directory (directoryMode umask))
          (List.append_ne_nil_of_right_ne_nil loc (List.cons_ne_nil name []))
        refine ⟨(h.within hgains.toWithin).concat hself, ?_, hgains⟩
        rw [Disk.follow, hgains.get? loc _ hdir]
        simp [hsearch, hup, hlong, hself]
      · cases henter

/-! ## All names -/

theorem descend_append (umask : Nat) (d : Disk) (loc : Location) (names names' : List String) :
    d.descend umask loc (names ++ names') =
      match d.descend umask loc names with
      | (d, none) => (d, none)
      | (d, some dir) => d.descend umask dir names' := by
  induction names generalizing d loc with
  | nil => rfl
  | cons name names ih =>
    rw [List.cons_append, descend, descend]
    split
    · rfl
    · exact ih _ _

theorem descend_singleton (umask : Nat) (d : Disk) (loc : Location) (name : String) :
    d.descend umask loc [name] =
      match d.enter umask loc name with
      | none => (d, none)
      | some (d, next) => (d, some next) := by
  rw [descend]
  split <;> simp_all [descend]

theorem descend_gains (h : d.Settled loc) (hdescend : d.descend umask loc names = (d', out)) :
    d.GainsDirectories d' := by
  induction names generalizing d loc with
  | nil =>
    cases hdescend
    exact .refl _
  | cons name names ih =>
    rw [descend] at hdescend
    split at hdescend
    · cases hdescend
      exact .refl _
    · rename_i made next henter
      obtain ⟨hsettled, -, hgains⟩ := enter_eq_some h henter
      exact hgains.trans (ih hsettled hdescend)

/-- On the disk that going down leaves, the names lead to where it came. -/
theorem descend_eq_some (h : d.Settled loc) (hdescend : d.descend umask loc names = (d', some dir)) :
    d'.Settled dir ∧ d'.walk loc names = .ok dir := by
  induction names generalizing d loc with
  | nil =>
    cases hdescend
    exact ⟨h, rfl⟩
  | cons name names ih =>
    rw [descend] at hdescend
    split at hdescend
    · cases hdescend
    · rename_i made next henter
      obtain ⟨hnext, hfollow, -⟩ := enter_eq_some h henter
      obtain ⟨hdir, hwalk⟩ := ih hnext hdescend
      refine ⟨hdir, ?_⟩
      rw [walk, (descend_gains hnext hdescend).toWithin.follow hfollow]
      exact hwalk

theorem holdsDirectory_of_follow (h : d.follow loc name = .ok next) :
    d.holdsDirectory loc = true := by
  rw [Disk.follow] at h
  split at h
  · cases h
  · cases h
  · rename_i bits hdir
    exact holdsDirectory_iff.mpr ⟨bits, hdir⟩

/-- Where names lead already, nothing is made, and the way ends at a directory or at a file. -/
theorem descend_of_walk_ok (umask : Nat) (h : d.Settled loc) (hwalk : d.walk loc names = .ok dir) :
    d.descend umask loc names = (d, some dir) ∨
      d.descend umask loc names = (d, none) ∧
        ∃ content mode, d.get? dir = some (.file content mode) := by
  induction names generalizing loc with
  | nil =>
    cases hwalk
    exact Or.inl rfl
  | cons name names ih =>
    rw [walk] at hwalk
    split at hwalk
    · cases hwalk
    · rename_i next hnext
      rw [descend, enter, hnext]
      simp only
      rcases h.follow hnext with hsettled | ⟨content, mode, hfile⟩
      · rw [if_pos (holdsDirectory_iff.mpr hsettled.directory)]
        exact ih hsettled hwalk
      · have hdir : ¬ d.holdsDirectory next = true := by
          rw [holdsDirectory, hfile]
          exact Bool.false_ne_true
        rw [if_neg hdir]
        -- no name leads on from a file, so this is the last one
        cases names with
        | nil =>
          cases hwalk
          exact Or.inr ⟨rfl, content, mode, hfile⟩
        | cons name' names =>
          rw [walk] at hwalk
          split at hwalk
          · cases hwalk
          · rename_i further hfurther
            exact absurd (holdsDirectory_of_follow hfurther) hdir

/-- Where names lead nowhere, and not because something is missing, nothing is made either. -/
theorem descend_of_walk_error (h : d.Settled loc) (hwalk : d.walk loc names = .error e)
    (he : e ≠ .notFound) : d.descend umask loc names = (d, none) := by
  induction names generalizing loc with
  | nil => cases hwalk
  | cons name names ih =>
    rw [walk] at hwalk
    split at hwalk
    · rename_i e' hfollow
      cases hwalk
      rw [descend, enter, hfollow]
      cases e with
      | notFound => exact absurd rfl he
      | denied | busy | «exists» | notDirectory | isDirectory | nameTooLong => rfl
    · rename_i next hnext
      rw [descend, enter, hnext]
      simp only
      by_cases hdir : d.holdsDirectory next = true
      · rw [if_pos hdir]
        exact ih (h.follow_directory hnext hdir) hwalk
      · -- no name leads on from a file, so neither way goes on
        rw [if_neg hdir]

/-! ## Making one directory -/

theorem ownName?_concat (anchor : Anchor) (names : List String) (name : String) :
    ownName? ⟨anchor, names ++ [name]⟩ = if name = ".." then none else some name := by
  simp [ownName?]

theorem parent_concat (anchor : Anchor) (names : List String) (name : String) :
    (Path.mk anchor (names ++ [name])).parent = ⟨anchor, names⟩ := by
  simp [Path.parent]

section

variable (hlength : (Path.mk anchor (names ++ [name])).text.utf8ByteSize ≤ maxPath)
include hlength

theorem find_of_walk (hwalk : d.walk (d.startOf ⟨anchor, names⟩) names = .ok dir) :
    d.find ⟨anchor, names ++ [name]⟩ = d.follow dir name := by
  have hstart : d.startOf ⟨anchor, names ++ [name]⟩ = d.startOf ⟨anchor, names⟩ := rfl
  rw [find, if_neg (Nat.not_lt.mpr hlength), hstart, walk_append, hwalk]
  exact walk_singleton name

theorem find_of_walk_error (hwalk : d.walk (d.startOf ⟨anchor, names⟩) names = .error e) :
    d.find ⟨anchor, names ++ [name]⟩ = .error e := by
  have hstart : d.startOf ⟨anchor, names ++ [name]⟩ = d.startOf ⟨anchor, names⟩ := rfl
  rw [find, if_neg (Nat.not_lt.mpr hlength), hstart, walk_append, hwalk]
  rfl

/-- A directory is made where its name leads to nothing, if the one around it lets it. -/
theorem makeDirectory_of_walk (hwalk : d.walk (d.startOf ⟨anchor, names⟩) names = .ok dir)
    {node : Node} (hdir : d.get? dir = some node) :
    d.makeDirectory ⟨anchor, names ++ [name]⟩ umask =
      match d.follow dir name with
      | .ok _ => .error .exists
      | .error .notFound =>
        if d.mayChange dir then .ok (d.put (dir ++ [name]) (.directory (directoryMode umask)))
        else .error .denied
      | .error e => .error e := by
  have hstart : d.startOf ⟨anchor, names ++ [name]⟩ = d.startOf ⟨anchor, names⟩ := rfl
  rw [makeDirectory, ownName?_concat]
  by_cases hup : name = ".."
  · -- two dots name nothing that can be made: the path is only looked up
    subst hup
    simp only [find_of_walk hlength hwalk, Disk.follow, hdir, if_true]
    cases node with
    | file content mode => rfl
    | directory bits => by_cases hsearch : (Node.directory bits).grants .search <;> simp [hsearch]
  · rw [if_neg hup]
    simp only [slot, if_neg (Nat.not_lt.mpr hlength), hstart, parent_concat, hwalk, hdir,
      Disk.follow, if_neg hup]
    cases node with
    | file content mode => rfl
    | directory bits =>
      by_cases hsearch : (Node.directory bits).grants .search
      · by_cases hlong : tooLong name
        · simp [hsearch, hlong]
        · by_cases hsome : (d.get? (dir ++ [name])).isSome <;> simp [hsearch, hlong, hsome]
      · simp [hsearch]

theorem makeDirectory_of_walk_error
    (hwalk : d.walk (d.startOf ⟨anchor, names⟩) names = .error e) :
    d.makeDirectory ⟨anchor, names ++ [name]⟩ umask = .error e := by
  have hstart : d.startOf ⟨anchor, names ++ [name]⟩ = d.startOf ⟨anchor, names⟩ := rfl
  rw [makeDirectory, ownName?_concat]
  by_cases hup : name = ".."
  · subst hup
    simp only [find_of_walk_error hlength hwalk, if_true]
  · rw [if_neg hup]
    simp only [slot, if_neg (Nat.not_lt.mpr hlength), hstart, parent_concat, hwalk]

theorem isDirectory_of_walk (hwalk : d.walk (d.startOf ⟨anchor, names⟩) names = .ok dir) :
    d.isDirectory ⟨anchor, names ++ [name]⟩ =
      match d.follow dir name with
      | .ok next => d.holdsDirectory next
      | .error _ => false := by
  rw [Disk.isDirectory, stat, find_of_walk hlength hwalk]
  cases d.follow dir name with
  | error e => rfl
  | ok next =>
    simp only [holdsDirectory]
    cases d.get? next <;> rfl

theorem isDirectory_of_walk_error
    (hwalk : d.walk (d.startOf ⟨anchor, names⟩) names = .error e) :
    d.isDirectory ⟨anchor, names ++ [name]⟩ = false := by
  rw [Disk.isDirectory, stat, find_of_walk_error hlength hwalk]

end

/-! ## Making all directories -/

/-- What becomes of making directories, told from where going down for them comes. -/
def Descends (out : Disk × Option Location) (made : Disk × Option Refused) : Prop :=
  made.1 = out.1 ∧ (made.2 = none ↔ out.2.isSome)

/-- Once the directories around it are there, a directory is made by entering it. -/
theorem enter_makeDirectory (umask : Nat)
    (hlength : (Path.mk anchor (names ++ [name])).text.utf8ByteSize ≤ maxPath)
    (hdir : d.Settled dir) (hwalk : d.walk (d.startOf ⟨anchor, names⟩) names = .ok dir) :
    match d.makeDirectory ⟨anchor, names ++ [name]⟩ umask with
    | .ok made => d.enter umask dir name = some (made, dir ++ [name])
    | .error e => e ≠ .notFound ∧ d.enter umask dir name =
        if d.isDirectory ⟨anchor, names ++ [name]⟩ then some (d, Path.follow dir name)
        else none := by
  obtain ⟨bits, hnode⟩ := hdir.directory
  rw [makeDirectory_of_walk hlength hwalk hnode, isDirectory_of_walk hlength hwalk, enter]
  cases hfollow : d.follow dir name with
  | ok next =>
    rw [← follow_eq hfollow]
    exact ⟨by decide, rfl⟩
  | error e =>
    cases e with
    | denied | busy | «exists» | notDirectory | isDirectory | nameTooLong => exact ⟨by decide, rfl⟩
    | notFound =>
      by_cases hchange : d.mayChange dir = true <;> simp [hchange]

/-- A path of which the directories around it are there becomes a directory exactly if it can be
entered. -/
theorem makeDirectories_enter (umask : Nat)
    (hlength : (Path.mk anchor (names ++ [name])).text.utf8ByteSize ≤ maxPath)
    (hdir : d.Settled dir) (hwalk : d.walk (d.startOf ⟨anchor, names⟩) names = .ok dir) :
    Descends (d.descend umask dir [name])
      (match d.makeDirectory ⟨anchor, names ++ [name]⟩ umask with
      | .ok d => (d, none)
      | .error e => (d, if e ≠ .notFound && d.isDirectory ⟨anchor, names ++ [name]⟩ then none
          else some ⟨e, ⟨anchor, names ++ [name]⟩⟩)) := by
  have henter := enter_makeDirectory umask hlength hdir hwalk
  rw [descend_singleton]
  cases hmake : d.makeDirectory ⟨anchor, names ++ [name]⟩ umask with
  | ok made =>
    rw [hmake] at henter
    rw [henter]
    exact ⟨rfl, by simp⟩
  | error e =>
    rw [hmake] at henter
    obtain ⟨he, henter⟩ := henter
    rw [henter]
    by_cases hthere : d.isDirectory ⟨anchor, names ++ [name]⟩ = true <;>
      simp [Descends, hthere, he]

theorem makeDirectories_of_error (hmake : d.makeDirectory ⟨anchor, names⟩ umask = .error e)
    (he : e ≠ .notFound) :
    d.makeDirectories anchor names umask =
      (d, if d.isDirectory ⟨anchor, names⟩ then none else some ⟨e, ⟨anchor, names⟩⟩) := by
  rw [makeDirectories, hmake]
  cases e with
  | notFound => exact absurd rfl he
  | denied | busy | «exists» | notDirectory | isDirectory | nameTooLong => rfl

/-- Where all names but the last one lead to something, that one decides. -/
theorem makeDirectories_of_walk
    (hlength : (Path.mk anchor (names ++ [name])).text.utf8ByteSize ≤ maxPath)
    (h : d.Settled (d.startOf ⟨anchor, names⟩))
    (hwalk : d.walk (d.startOf ⟨anchor, names⟩) names = .ok dir) :
    Descends (d.descend umask (d.startOf ⟨anchor, names⟩) (names ++ [name]))
      (d.makeDirectories anchor (names ++ [name]) umask) := by
  rw [descend_append]
  rcases descend_of_walk_ok umask h hwalk with
    hdescend | ⟨hdescend, content, mode, hfile⟩
  · have hdir := (descend_eq_some h hdescend).1
    have henter := makeDirectories_enter umask hlength hdir hwalk
    have hrefused := enter_makeDirectory umask hlength hdir hwalk
    rw [hdescend]
    cases hmake : d.makeDirectory ⟨anchor, names ++ [name]⟩ umask with
    | ok made =>
      rw [hmake] at henter
      rw [makeDirectories, hmake]
      exact henter
    | error e =>
      rw [hmake] at hrefused henter
      rw [makeDirectories_of_error hmake hrefused.1]
      simpa [hrefused.1] using henter
  · have hfollow : d.follow dir name = .error .notDirectory := by rw [Disk.follow, hfile]
    have hmake : d.makeDirectory ⟨anchor, names ++ [name]⟩ umask = .error .notDirectory := by
      rw [makeDirectory_of_walk hlength hwalk hfile, hfollow]
    rw [hdescend, makeDirectories_of_error hmake (by decide), isDirectory_of_walk hlength hwalk, hfollow]
    simp [Descends]

/-- Where something is missing among the names before the last one, they are made first. -/
theorem makeDirectories_of_missing
    (hlength : (Path.mk anchor (names ++ [name])).text.utf8ByteSize ≤ maxPath)
    (h : d.Settled (d.startOf ⟨anchor, names⟩))
    (hwalk : d.walk (d.startOf ⟨anchor, names⟩) names = .error .notFound)
    (hmade : Descends (d.descend umask (d.startOf ⟨anchor, names⟩) names)
      (d.makeDirectories anchor names umask)) :
    Descends (d.descend umask (d.startOf ⟨anchor, names⟩) (names ++ [name]))
      (d.makeDirectories anchor (names ++ [name]) umask) := by
  rw [descend_append, makeDirectories, makeDirectory_of_walk_error hlength hwalk]
  simp only [List.append_ne_nil_of_right_ne_nil names (List.cons_ne_nil name []), if_false,
    List.dropLast_concat]
  cases hmake : d.makeDirectories anchor names umask with
  | mk made refused =>
    cases hdescend : d.descend umask (d.startOf ⟨anchor, names⟩) names with
    | mk d' out =>
      rw [hmake, hdescend] at hmade
      obtain ⟨rfl, hsame⟩ := hmade
      cases out with
      | none =>
        cases refused with
        | none => simp at hsame
        | some refused => simp [Descends]
      | some dir =>
        -- the names before lead somewhere now, and the last one is tried again
        obtain rfl : refused = none := hsame.mpr rfl
        obtain ⟨hdir, hwalk'⟩ := descend_eq_some h hdescend
        have hstart : made.startOf ⟨anchor, names⟩ = d.startOf ⟨anchor, names⟩ := by
          rw [startOf, startOf, (descend_gains h hdescend).cwd]
        exact makeDirectories_enter umask hlength hdir (hstart ▸ hwalk')

/-- A directory and those around it that are missing are made by going down, and it is there in the
end exactly if the way goes on to the end. -/
theorem makeDirectories_descends (h : d.Settled (d.startOf ⟨anchor, names⟩))
    (hlength : (Path.mk anchor names).text.utf8ByteSize ≤ maxPath) :
    Descends (d.descend umask (d.startOf ⟨anchor, names⟩) names)
      (d.makeDirectories anchor names umask) := by
  -- from the last name on, as the longest path is tried first
  induction names using List.reverseRecOn with
  | nil =>
    have hfind : d.find ⟨anchor, []⟩ = .ok (d.startOf ⟨anchor, []⟩) := by
      rw [find, if_neg (Nat.not_lt.mpr hlength)]
      rfl
    have hmake : d.makeDirectory ⟨anchor, []⟩ umask = .error .exists := by
      rw [makeDirectory, hfind]
      rfl
    obtain ⟨bits, hdir⟩ := h.directory
    have hthere : d.isDirectory ⟨anchor, []⟩ = true := by
      rw [Disk.isDirectory, stat, hfind]
      simp [hdir, Node.isDirectory]
    rw [makeDirectories_of_error hmake (by decide), descend]
    simp [Descends, hthere]
  | append_singleton names name ih =>
    have hshort : (Path.mk anchor names).text.utf8ByteSize ≤ maxPath :=
      Nat.le_trans (Path.size_text_le anchor names name) (Nat.max_le.mpr ⟨by decide, hlength⟩)
    have hstart : d.startOf ⟨anchor, names ++ [name]⟩ = d.startOf ⟨anchor, names⟩ := rfl
    rw [hstart] at h ⊢
    cases hwalk : d.walk (d.startOf ⟨anchor, names⟩) names with
    | ok dir => exact makeDirectories_of_walk hlength h hwalk
    | error e =>
      by_cases he : e = .notFound
      · subst he
        exact makeDirectories_of_missing hlength h hwalk (ih h hshort)
      · have hmake : d.makeDirectory ⟨anchor, names ++ [name]⟩ umask = .error e :=
          makeDirectory_of_walk_error hlength hwalk
        rw [descend_append, descend_of_walk_error h hwalk he, makeDirectories_of_error hmake he,
          isDirectory_of_walk_error hlength hwalk]
        simp [Descends]

end Disk

end Literate
