import Literate.Proofs.Disk.Footprint
import Literate.Proofs.Disk.Growth

/-!
# Writing again

What overwrites is written without looking at what was there. It takes going down to the directory of
the file and putting the file there (`flushTo_overwrites`), and both come to the same again, as disks
only grow.

For a list of destinations it is not enough that each one comes to the same on the disk that it left:
in between the others are written, and they may share its file or its directories, stand in its way, or
make room for it. While all are written again, every location holds what they left there in the end or
what it held at this point before (`Between`). When all are through, these are the same, so nothing has
changed (`writeAll_again`).
-/

namespace Literate.Disk

variable {d d' after grown made : Disk} {p : Path} {loc dir : Location} {bytes : ByteArray}
  {name : String} {umask mode : Nat} {ops : List Operation} {s s' : Surroundings}
  {written : Option Nat}

/-- Where in a directory the file of a path can be put in place. -/
def fileSlot? (d : Disk) (p : Path) (dir : Location) : Option Location :=
  match ownName? p with
  | none => none
  | some name =>
    if p.text.utf8ByteSize ≤ maxPath ∧ p.name.utf8ByteSize + temporaryExtra ≤ maxName ∧
        (d.get? dir).any (·.grants .search) = true ∧ d.mayChange dir = true ∧
        d.holdsDirectory (dir ++ [name]) = false then
      some (dir ++ [name])
    else none

/-- The permission bits of the file at a location or, if it is new, those that it gets. -/
def fileBits (d : Disk) (loc : Location) (umask : Nat) : Nat :=
  ((d.fileAt? loc).map (·.2)).getD (fileMode umask)

/-- Puts the file of a path in a directory, whatever was there, and says how many bytes it has, if
that can be. -/
def place (d : Disk) (p : Path) (dir : Location) (bytes : ByteArray) (umask : Nat) :
    Disk × Option Nat :=
  match d.fileSlot? p dir with
  | none => (d, none)
  | some loc => (d.put loc (.file bytes (d.fileBits loc umask)), some bytes.size)

/-- Puts a file where a path leads, in a directory that is made if it is missing. -/
def overwrite (d : Disk) (p : Path) (bytes : ByteArray) (umask : Nat) : Disk × Option Nat :=
  if maxPath < p.parent.text.utf8ByteSize then (d, none)
  else
    match d.descend umask (d.startOf p) p.parent.names with
    | (d, none) => (d, none)
    | (d, some dir) => d.place p dir bytes umask

/-! ## What overwrites is put in place -/

theorem fileSlot?_eq_some (h : d.fileSlot? p dir = some loc) :
    ∃ name, ownName? p = some name ∧ loc = dir ++ [name] ∧ p.text.utf8ByteSize ≤ maxPath ∧
      p.name.utf8ByteSize + temporaryExtra ≤ maxName ∧
      (d.get? dir).any (·.grants .search) = true ∧ d.mayChange dir = true ∧
      d.holdsDirectory loc = false := by
  rw [fileSlot?] at h
  split at h
  · cases h
  · rename_i name hname
    split at h
    · rename_i hslot
      cases h
      exact ⟨name, hname, rfl, hslot⟩
    · cases h

/-- In a directory that is there a file is put in place exactly if there is a slot for it. -/
theorem replace_eq (bytes : ByteArray) (mode : Nat) (hlength : p.text.utf8ByteSize ≤ maxPath)
    (hfind : d.find p.parent = .ok dir) (hdir : d.holdsDirectory dir = true) :
    (d.replace p bytes mode).toOption =
      (d.fileSlot? p dir).map fun loc => d.put loc (.file bytes mode) := by
  obtain ⟨bits, hget⟩ := holdsDirectory_iff.mp hdir
  rw [replace, openDirectory, hfind, fileSlot?]
  simp only [hget, Option.any_some, hlength, true_and]
  by_cases hsearch : (Node.directory bits).grants .search = true
  · by_cases hroom : p.name.utf8ByteSize + temporaryExtra ≤ maxName
    · by_cases hchange : d.mayChange dir = true
      · simp only [hsearch, hroom, hchange, Nat.not_lt.mpr hroom, if_true, if_false, true_and]
        cases ownName? p with
        | none => rfl
        | some name =>
          rcases hnode : d.get? (dir ++ [name]) with _ | _ | _ <;>
            simp [holdsDirectory, hnode, Node.isDirectory, Except.toOption]
      · cases ownName? p <;> simp [hsearch, hchange, Nat.not_lt.mpr hroom, Except.toOption]
    · cases ownName? p <;> simp [hsearch, hroom, Nat.lt_of_not_le hroom, Except.toOption]
  · cases ownName? p <;> simp [hsearch, Except.toOption]

theorem makeDirectories_tooLong (d : Disk) (umask : Nat) {anchor : Anchor} {names : List String}
    (hlong : maxPath < (Path.mk anchor names).text.utf8ByteSize) :
    ∃ refused, d.makeDirectories anchor names umask = (d, some refused) := by
  have hfind : d.find ⟨anchor, names⟩ = .error .nameTooLong := by rw [find, if_pos hlong]
  have hmake : d.makeDirectory ⟨anchor, names⟩ umask = .error .nameTooLong := by
    rw [makeDirectory, hfind]
    cases ownName? ⟨anchor, names⟩ with
    | none => rfl
    | some name => simp only [slot, if_pos hlong]
  rw [makeDirectories_of_error hmake (by decide), Disk.isDirectory, stat, hfind]
  exact ⟨_, rfl⟩

/-- Permission bits can be told of a path for which there is a slot. -/
theorem targetMode_eq (umask : Nat) (hfind : d.find p.parent = .ok dir) (hdir : d.holdsDirectory dir = true)
    (hslot : d.fileSlot? p dir = some loc) :
    d.targetMode p umask = .ok (d.fileBits loc umask) := by
  obtain ⟨name, hname, rfl, hlength, hroom, hsearch, -, hnot⟩ := fileSlot?_eq_some hslot
  obtain ⟨hnames, hlast, hup⟩ := ownName?_eq_some hname
  obtain ⟨bits, hget⟩ := holdsDirectory_iff.mp hdir
  obtain rfl := find_locate hfind
  have hshort : tooLong name = false := by
    rw [hlast] at hroom
    simp only [tooLong, decide_eq_false_iff_not]
    omega
  rw [hget, Option.any_some] at hsearch
  have hplace : d.HasPlace p name := ⟨hnames, hup, hshort, hfind, bits, hget, hsearch⟩
  rw [targetMode, hplace.stat hlength, hplace.locate_eq, fileBits, fileAt?]
  rw [Disk.holdsDirectory] at hnot
  rcases hnode : d.get? (p.parent.locate d.cwd ++ [name]) with _ | ⟨content, mode⟩ | bits
  · rfl
  · rfl
  · rw [hnode] at hnot
    cases hnot

/-- Once its directory is there, a destination of which an operation overwrites is put in it. -/
theorem flushTo_places (hs : FreshNames s) (hops : Operation.anyOverwrite ops = true)
    (hmake : d.makeDirectories p.parent.anchor p.parent.names s.umask = (made, none))
    (hfind : made.find p.parent = .ok dir) (hdir : made.holdsDirectory dir = true) :
    ((d.flushTo p ops s).1, (d.flushTo p ops s).2.toOption) =
      made.place p dir (Operation.replay .empty ops) s.umask := by
  have hexisting : d.existing p ops = .ok .empty := by rw [existing, if_pos hops]
  rw [place, flushTo, hexisting]
  simp only [hmake]
  cases hslot : made.fileSlot? p dir with
  | none =>
    cases hmode : made.targetMode p s.umask with
    | error e => rfl
    | ok mode =>
      have hreplace := replace_eq (Operation.replay .empty ops) mode
        (length_le_of_targetMode hmode) hfind hdir
      rw [hslot] at hreplace
      simp only [replaceThrough_eq hs]
      cases hout : made.replace p (Operation.replay .empty ops) mode with
      | error e => rfl
      | ok d' =>
        rw [hout] at hreplace
        cases hreplace
  | some loc =>
    have hmode := targetMode_eq s.umask hfind hdir hslot
    have hreplace := replace_eq (Operation.replay .empty ops) (made.fileBits loc s.umask)
      (length_le_of_targetMode hmode) hfind hdir
    rw [hslot] at hreplace
    simp only [hmode, replaceThrough_eq hs]
    cases hout : made.replace p (Operation.replay .empty ops) (made.fileBits loc s.umask) with
    | error e =>
      rw [hout] at hreplace
      cases hreplace
    | ok d' =>
      rw [hout] at hreplace
      cases hreplace
      rfl

theorem flushTo_of_refused {refused : Refused} (hops : Operation.anyOverwrite ops = true)
    (hmake : d.makeDirectories p.parent.anchor p.parent.names s.umask = (made, some refused)) :
    ((d.flushTo p ops s).1, (d.flushTo p ops s).2.toOption) = (made, none) := by
  have hexisting : d.existing p ops = .ok .empty := by rw [existing, if_pos hops]
  rw [flushTo, hexisting]
  simp only [hmake, Except.toOption]

/-- A destination of which an operation overwrites is written as if its file held nothing. -/
theorem flushTo_overwrites (hs : FreshNames s) (h : d.Settled d.cwd)
    (hops : Operation.anyOverwrite ops = true) :
    ((d.flushTo p ops s).1, (d.flushTo p ops s).2.toOption) =
      d.overwrite p (Operation.replay .empty ops) s.umask := by
  rw [overwrite]
  by_cases hlong : maxPath < p.parent.text.utf8ByteSize
  · rw [if_pos hlong]
    obtain ⟨refused, hmake⟩ := makeDirectories_tooLong d s.umask hlong
    exact flushTo_of_refused hops hmake
  · have hsettled : d.Settled (d.startOf p) := settled_startOf h p
    have hdescends : Descends (d.descend s.umask (d.startOf p) p.parent.names)
        (d.makeDirectories p.parent.anchor p.parent.names s.umask) :=
      makeDirectories_descends hsettled (Nat.not_lt.mp hlong)
    rw [if_neg hlong]
    cases hmake : d.makeDirectories p.parent.anchor p.parent.names s.umask with
    | mk made refused =>
      cases hdescend : d.descend s.umask (d.startOf p) p.parent.names with
      | mk d' out =>
        rw [hmake, hdescend] at hdescends
        obtain ⟨hsame, hrefused⟩ := hdescends
        simp only at hsame hrefused
        subst hsame
        cases out with
        | none =>
          cases refused with
          | none => simp at hrefused
          | some refused => exact flushTo_of_refused hops hmake
        | some dir =>
          obtain rfl : refused = none := hrefused.mpr rfl
          obtain ⟨hdir, hwalk⟩ := descend_eq_some hsettled hdescend
          have hfind : made.find p.parent = .ok dir := by
            rw [find, if_neg hlong, (descend_growsTo hsettled hdescend).startOf]
            exact hwalk
          exact flushTo_places hs hops hmake hfind (holdsDirectory_iff.mpr hdir.directory)

/-! ## One destination again -/

/-- A file that is put where there is a slot is something that a disk grows by. -/
theorem growsTo_put_file (hchange : d.mayChange dir = true)
    (hfile : ∀ old, d.get? (dir ++ [name]) = some old → ∃ content, old = .file content mode) :
    d.GrowsTo (d.put (dir ++ [name]) (.file bytes mode)) := by
  refine growsTo_put hchange ?_
  intro old hold
  obtain ⟨content, rfl⟩ := hfile old hold
  exact ⟨content, bytes, mode, rfl, rfl⟩

theorem place_growsTo (hplace : d.place p dir bytes umask = (d', written)) : d.GrowsTo d' := by
  rw [place] at hplace
  split at hplace
  · cases hplace
    exact .refl _
  · rename_i loc hslot
    cases hplace
    obtain ⟨name, -, rfl, -, -, -, hchange, hnot⟩ := fileSlot?_eq_some hslot
    refine growsTo_put_file hchange ?_
    intro old hold
    rw [holdsDirectory, hold] at hnot
    cases old with
    | directory bits => cases hnot
    | file content mode => exact ⟨content, by rw [fileBits, fileAt?, hold]; rfl⟩

theorem overwrite_growsTo (h : d.Settled d.cwd)
    (hwrite : d.overwrite p bytes umask = (d', written)) : d.GrowsTo d' := by
  have hsettled := settled_startOf h p
  rw [overwrite] at hwrite
  split at hwrite
  · cases hwrite
    exact .refl _
  · split at hwrite
    · rename_i hdescend
      cases hwrite
      exact descend_growsTo hsettled hdescend
    · rename_i made dir hdescend
      exact (descend_growsTo hsettled hdescend).trans (place_growsTo hwrite)

/-- Whether a disk, on which writing is repeated up to some point, holds at every location what was
there after all was written or what was there at this point the first time. -/
structure Between (d after grown : Disk) : Prop where
  grows : after.GrowsTo grown
  either : ∀ loc, grown.get? loc = after.get? loc ∨ grown.get? loc = d.get? loc

theorem Between.refl (d after : Disk) : Between d after after where
  grows := .refl after
  either _ := Or.inl rfl

/-- Directories that were made are there when writing is repeated. -/
theorem Between.gains (h : Between d after grown) (hgains : d.GainsDirectories d')
    (hafter : d'.GrowsTo after) : Between d' after grown where
  grows := h.grows
  either loc := by
    refine (h.either loc).imp_right fun hsame => ?_
    cases hget : d.get? loc with
    | some node => rw [hsame, hget, hgains.get? loc node hget]
    | none =>
      -- what was made here would be there by now
      rw [hsame, hget]
      cases hget' : d'.get? loc with
      | none => rfl
      | some node =>
        have hthere := (hafter.trans h.grows).isSome (Option.isSome_of_eq_some hget')
        rw [hsame, hget] at hthere
        cases hthere

/-- A file is put in place of itself, whatever it holds by then. -/
theorem Between.put (h : Between d after grown) (hdir : d.holdsDirectory dir = true)
    (hchange : d.mayChange dir = true)
    (hmade : d.GrowsTo (d.put (dir ++ [name]) (.file bytes mode)))
    (hafter : (d.put (dir ++ [name]) (.file bytes mode)).GrowsTo after) :
    Between (d.put (dir ++ [name]) (.file bytes mode)) after
      (grown.put (dir ++ [name]) (.file bytes mode)) := by
  have hloc : dir ++ [name] ≠ [] :=
    List.append_ne_nil_of_right_ne_nil dir (List.cons_ne_nil name [])
  have hgrown := hafter.trans h.grows
  refine ⟨h.grows.trans (growsTo_put_file ?_ ?_), ?_⟩
  · rw [(hmade.trans hgrown).mayChange hdir, hchange]
  · -- the file that was put here has kept its bits
    intro old hold
    obtain ⟨content, hfile⟩ := hgrown.file _ bytes mode (get?_put_self d _ hloc)
    rw [hold] at hfile
    exact ⟨content, Option.some.inj hfile⟩
  · intro loc
    by_cases heq : loc = dir ++ [name]
    · subst heq
      exact Or.inr (by rw [get?_put_self grown _ hloc, get?_put_self d _ hloc])
    · rw [get?_put_of_ne grown _ heq, get?_put_of_ne d _ heq]
      exact h.either loc

theorem fileSlot?_none_again (hslot : d.fileSlot? p dir = none) (hdir : d.holdsDirectory dir = true)
    (hgrows : d.GrowsTo grown) : grown.fileSlot? p dir = none := by
  rw [fileSlot?] at hslot ⊢
  split
  · rfl
  · rename_i name hname
    simp only [hname] at hslot
    rw [if_neg]
    rintro ⟨hlength, hroom, hsearch, hchange, hnot⟩
    rw [hgrows.get?_directory hdir] at hsearch
    rw [hgrows.mayChange hdir] at hchange
    have hnot : d.holdsDirectory (dir ++ [name]) = false := by
      rw [← Bool.not_eq_true] at hnot ⊢
      exact fun hthere => hnot (hgrows.holdsDirectory hthere)
    simp [hlength, hroom, hsearch, hchange, hnot] at hslot

theorem fileSlot?_again (hslot : d.fileSlot? p dir = some loc) (hdir : d.holdsDirectory dir = true)
    (hgrows : d.GrowsTo grown) (hnot : grown.holdsDirectory loc = false) :
    grown.fileSlot? p dir = some loc := by
  obtain ⟨name, hname, rfl, hlength, hroom, hsearch, hchange, -⟩ := fileSlot?_eq_some hslot
  rw [← hgrows.get?_directory hdir] at hsearch
  rw [← hgrows.mayChange hdir] at hchange
  simp [fileSlot?, hname, hlength, hroom, hsearch, hchange, hnot]

theorem place_again (hdir : d.holdsDirectory dir = true)
    (hplace : d.place p dir bytes umask = (d', written)) (hafter : d'.GrowsTo after)
    (h : Between d after grown) :
    ∃ grown', grown.place p dir bytes umask = (grown', written) ∧ Between d' after grown' := by
  have hmade := place_growsTo hplace
  have hgrown := hafter.trans h.grows
  rw [place] at hplace
  split at hplace
  · rename_i hslot
    cases hplace
    refine ⟨grown, ?_, h⟩
    rw [place, fileSlot?_none_again hslot hdir hgrown]
  · rename_i loc hslot
    cases hplace
    obtain ⟨name, -, rfl, -, -, -, hchange, -⟩ := fileSlot?_eq_some hslot
    have hself := get?_put_self d (.file bytes (d.fileBits (dir ++ [name]) umask))
      (List.append_ne_nil_of_right_ne_nil dir (List.cons_ne_nil name []))
    -- by now the file is there, and it has the bits that it got the first time
    obtain ⟨content, hfile⟩ := hgrown.file _ _ _ hself
    have hslot' := fileSlot?_again hslot hdir (hmade.trans hgrown) (by
      rw [holdsDirectory, hfile]
      rfl)
    have hbits : grown.fileBits (dir ++ [name]) umask = d.fileBits (dir ++ [name]) umask := by
      rw [fileBits, fileAt?, hfile]
      rfl
    refine ⟨_, ?_, h.put hdir hchange hmade hafter⟩
    simp only [place, hslot', hbits]

/-- What was put in place, or could not be, is or cannot be again. -/
theorem overwrite_again (hcwd : d.Settled d.cwd)
    (hwrite : d.overwrite p bytes umask = (d', written)) (hafter : d'.GrowsTo after)
    (h : Between d after grown) :
    ∃ grown', grown.overwrite p bytes umask = (grown', written) ∧ Between d' after grown' := by
  have hsettled := settled_startOf hcwd p
  have hgrows := ((overwrite_growsTo hcwd hwrite).trans hafter).trans h.grows
  rw [overwrite] at hwrite ⊢
  split at hwrite
  · rename_i hlong
    cases hwrite
    exact ⟨grown, if_pos hlong, h⟩
  · rename_i hlong
    rw [if_neg hlong, hgrows.startOf]
    split at hwrite
    · rename_i hdescend
      cases hwrite
      rw [descend_again hsettled hdescend (hafter.trans h.grows)]
      exact ⟨grown, rfl, h.gains (descend_gains hsettled hdescend) hafter⟩
    · rename_i made dir hdescend
      have hgains := descend_gains hsettled hdescend
      have hdir := holdsDirectory_iff.mpr (descend_eq_some hsettled hdescend).1.directory
      have hmade := (place_growsTo hwrite).trans hafter
      rw [descend_again hsettled hdescend (hmade.trans h.grows)]
      exact place_again hdir hwrite hafter (h.gains hgains hmade)

/-! ## All destinations again -/

/-- What a result says, but for the reason of a failure. -/
def verdict (r : WriteResult) : String × Path × Bool × Nat :=
  (r.destination, r.path, r.ok, r.bytesWritten)

/-- What a result says of a file that was put in place, or was not. -/
def verdictOf (destination : String) (p : Path) (written : Option Nat) :
    String × Path × Bool × Nat := (destination, p, written.isSome, written.getD 0)

/-- A destination of which an operation overwrites is written, and its result says so. -/
theorem flush_overwrites (hs : FreshNames s) (h : d.Settled d.cwd) (root : Path)
    {request : WriteRequest} (hops : Operation.anyOverwrite request.operations = true) :
    let p := root.join (.ofString request.destination)
    let out := d.overwrite p (Operation.replay .empty request.operations) s.umask
    (d.flush root request s).1 = out.1 ∧
      verdict (d.flush root request s).2 = verdictOf request.destination p out.2 := by
  intro p out
  have hout : ((d.flushTo p request.operations s).1,
      (d.flushTo p request.operations s).2.toOption) = out := flushTo_overwrites hs h hops
  rw [flush, ← hout]
  rcases d.flushTo p request.operations s with ⟨d', refused | n⟩ <;> exact ⟨rfl, rfl⟩

theorem flush_growsTo (hs : FreshNames s) (h : d.Settled d.cwd) (root : Path)
    {request : WriteRequest} (hops : Operation.anyOverwrite request.operations = true) :
    d.GrowsTo (d.flush root request s).1 :=
  overwrite_growsTo h (Prod.ext (flush_overwrites hs h root hops).1.symm rfl)

/-- Whether one outcome leaves the same disk as another one and says the same, but for the reasons of
failures. -/
structure Repeats (first second : WriteOutcome) : Prop where
  cwd : second.disk.cwd = first.disk.cwd
  disk : ∀ loc, second.disk.get? loc = first.disk.get? loc
  verdicts : second.results.map verdict = first.results.map verdict
  unnameable : second.unnameable = first.unnameable

section

variable {root : Path} {requests : List WriteRequest}

theorem writeAll_growsTo (hs : FreshNames s) (h : d.Settled d.cwd) (root : Path)
    (hops : ∀ r ∈ requests, Operation.anyOverwrite r.operations = true) :
    d.GrowsTo (d.writeAll root requests s).disk := by
  induction requests generalizing d with
  | nil => exact .refl d
  | cons request requests ih =>
    have hfirst := flush_growsTo hs h root (hops request List.mem_cons_self)
    have hrest : ∀ r ∈ requests, Operation.anyOverwrite r.operations = true :=
      fun r hr => hops r (List.mem_cons_of_mem request hr)
    rw [writeAll]
    split
    · exact .refl d
    · exact hfirst.trans (ih (hfirst.settled_cwd h) hrest)

/-- Repeating what is left to write, on a disk that has come as far, comes to the same. -/
theorem writeAll_between (hs : FreshNames s) (hs' : FreshNames s') (humask : s'.umask = s.umask)
    (h : d.Settled d.cwd) (hops : ∀ r ∈ requests, Operation.anyOverwrite r.operations = true)
    (hbetween : Between d (d.writeAll root requests s).disk grown) :
    Repeats (d.writeAll root requests s) (grown.writeAll root requests s') := by
  induction requests generalizing d grown with
  | nil =>
    -- at the end of the first run both sides of the invariant are the same disk
    exact ⟨hbetween.grows.cwd, fun loc => (hbetween.either loc).elim id id, rfl, rfl⟩
  | cons request requests ih =>
    have hop := hops request List.mem_cons_self
    have hrest : ∀ r ∈ requests, Operation.anyOverwrite r.operations = true :=
      fun r hr => hops r (List.mem_cons_of_mem request hr)
    by_cases hnul : (root.hasNul || (Path.ofString request.destination).hasNul) = true
    · simp only [writeAll, if_pos hnul] at hbetween ⊢
      exact ⟨hbetween.grows.cwd, fun loc => (hbetween.either loc).elim id id, rfl, rfl⟩
    · simp only [writeAll, if_neg hnul] at hbetween ⊢
      have hfirst := flush_growsTo hs h root hop
      have hsettled := hfirst.settled_cwd h
      -- what is left of the first run only adds to what this destination did
      have hafter := writeAll_growsTo hs hsettled root hrest
      have hgrown := ((hfirst.trans hafter).trans hbetween.grows).settled_cwd h
      obtain ⟨hdisk, hverdict⟩ := flush_overwrites hs h root hop
      obtain ⟨hdisk', hverdict'⟩ := flush_overwrites hs' hgrown root hop
      obtain ⟨grown', hagain, hbetween'⟩ :=
        overwrite_again h (Prod.ext hdisk.symm rfl) hafter hbetween
      rw [humask, hagain] at hdisk' hverdict'
      rw [hdisk']
      obtain ⟨hcwd, hsame, hverdicts, hunnameable⟩ := ih hsettled hrest hbetween'
      refine ⟨hcwd, hsame, ?_, hunnameable⟩
      rw [List.map_cons, List.map_cons, hverdict, hverdict', hverdicts]

/-- If each destination has an operation that overwrites, writing them a second time changes nothing
and says the same of each. This holds whatever is there besides the working directory, however the
destinations share files or stand in each other's way, and whichever names the files have that are not
finished. -/
theorem writeAll_again (s s' : Surroundings) (d : Disk) (root : Path)
    (requests : List WriteRequest) (hs : FreshNames s) (hs' : FreshNames s')
    (humask : s'.umask = s.umask) (h : d.Settled d.cwd)
    (hops : ∀ r ∈ requests, Operation.anyOverwrite r.operations = true) :
    let first := d.writeAll root requests s
    Repeats first (first.disk.writeAll root requests s') :=
  writeAll_between hs hs' humask h hops (.refl d _)

/-- One file by two names, what would lie below it, and a directory that is made on the way to the
other name and keeps a file from its place. -/
theorem writeAll_again_logged :
    let fresh (destination : String) : WriteRequest :=
      ⟨destination, [⟨"old\n".toUTF8, .append⟩, ⟨destination.toUTF8, .overwrite⟩]⟩
    let requests := [fresh "log", fresh "log/today", fresh "out/../log", fresh "out"]
    let first := logged.writeAll .here requests .usual
    FreshNames .usual ∧ logged.Settled logged.cwd ∧
      (∀ r ∈ requests, Operation.anyOverwrite r.operations = true) ∧
      first.results.map (·.ok) = [true, false, true, false] ∧
      Repeats first (first.disk.writeAll .here requests .usual) := by
  intro fresh requests first
  have hsettled : logged.Settled logged.cwd := (settled_nil logged).concat rfl
  have hops : ∀ r ∈ requests, Operation.anyOverwrite r.operations = true := by decide +kernel
  exact ⟨freshNames_usual, hsettled, hops, by decide +kernel,
    writeAll_again .usual .usual logged .here requests freshNames_usual freshNames_usual rfl hsettled
      hops⟩

end

end Literate.Disk
