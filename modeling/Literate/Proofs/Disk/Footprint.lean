import Literate.Proofs.Disk.Flush
import Literate.Proofs.Path.Spelling

/-!
# What writing leaves alone

A destination that is written changes one file: the one that its path leads to, which keeps its
permission bits if it was there. One that fails changes none. Either way the only other traces are
directories. All destinations are tried, each on the disk that the ones before it left, so this holds
for a list of them whatever they have in common (`writeAll_attempts`).
-/

namespace Literate.Disk

variable {d d' : Disk} {p : Path} {loc target : Location} {ops : List Operation}
  {s : Surroundings}

/-- The file at a location, if one is there: its bytes and permission bits. -/
def fileAt? (d : Disk) (loc : Location) : Option (ByteArray × Nat) :=
  match d.get? loc with
  | some (.file content mode) => some (content, mode)
  | _ => none

/-- Whether a disk is another one with a file put at a location and perhaps more directories. -/
structure PutsFile (d d' : Disk) (target : Location) (umask : Nat) : Prop where
  cwd : d'.cwd = d.cwd
  kept : ∀ loc node, loc ≠ target → d.get? loc = some node → d'.get? loc = some node
  new : ∀ loc node, loc ≠ target → d'.get? loc = some node → d.get? loc = none →
    node.isDirectory = true
  no_directory : ∀ bits, d.get? target ≠ some (.directory bits)
  /-- The file keeps its permission bits, a new one gets those of a new file. -/
  file : ∃ content, d'.fileAt? target =
    some (content, ((d.fileAt? target).map (·.2)).getD (fileMode umask))

/-! ## Files that stay as they were -/

theorem fileAt?_eq_of_get? (hkept : ∀ node, d.get? loc = some node → d'.get? loc = some node)
    (hnew : ∀ node, d'.get? loc = some node → d.get? loc = none → node.isDirectory = true) :
    d'.fileAt? loc = d.fileAt? loc := by
  cases hget : d.get? loc with
  | some node => rw [fileAt?, fileAt?, hget, hkept node hget]
  | none =>
    cases hget' : d'.get? loc with
    | none => rw [fileAt?, fileAt?, hget, hget']
    | some node =>
      cases node with
      | file content mode => cases hnew _ hget' hget
      | directory mode => rw [fileAt?, fileAt?, hget, hget']

/-- Directories that are made leave every file as it was, and make none. -/
theorem GainsDirectories.fileAt? (h : d.GainsDirectories d') (loc : Location) :
    d'.fileAt? loc = d.fileAt? loc := fileAt?_eq_of_get? (h.get? loc) (h.new loc)

/-- A file that is put somewhere leaves every other file as it was. -/
theorem PutsFile.fileAt? {umask : Nat} (h : d.PutsFile d' target umask) (hne : loc ≠ target) :
    d'.fileAt? loc = d.fileAt? loc :=
  fileAt?_eq_of_get? (fun node => h.kept loc node hne) (fun node => h.new loc node hne)

/-! ## One destination -/

/-- A destination that fails leaves nothing but directories. -/
theorem flushTo_error {refused : Refused} (h : d.flushTo p ops s = (d', .error refused)) :
    d.GainsDirectories d' := by
  unfold flushTo at h
  split at h
  · cases h
    exact .refl d
  · simp only at h
    have hgains := makeDirectories_gains d p.parent.anchor p.parent.names s.umask
    split at h
    · rename_i made refused' hmade
      cases h
      rw [hmade] at hgains
      exact hgains
    · rename_i made hmade
      rw [hmade] at hgains
      split at h
      · cases h
        exact hgains
      · split at h
        · rename_i made' e hreplace
          cases h
          rw [replaceThrough_error hreplace]
          exact hgains
        · cases h

/-- The permission bits that a file is put in place with are those that it has, if it is there. -/
theorem HasPlace.targetMode {name : String} {umask mode : Nat} (h : d.HasPlace p name)
    (hmode : d.targetMode p umask = .ok mode)
    (hnot : ∀ bits, d.get? (p.locate d.cwd) ≠ some (.directory bits)) :
    mode = ((d.fileAt? (p.locate d.cwd)).map (·.2)).getD (fileMode umask) := by
  have hstat := h.stat (length_le_of_targetMode hmode)
  rw [Disk.targetMode, hstat] at hmode
  rw [Disk.fileAt?]
  cases hget : d.get? (p.locate d.cwd) with
  | none =>
    rw [hget] at hmode
    cases hmode
    rfl
  | some node =>
    rw [hget] at hmode
    cases node with
    | file content bits =>
      cases hmode
      rfl
    | directory bits => exact absurd hget (hnot bits)

/-- A destination that is written is put where its path leads. -/
theorem flushTo_ok {n : Nat} (h : d.flushTo p ops s = (d', .ok n)) :
    d.PutsFile d' (p.locate d.cwd) s.umask := by
  obtain ⟨old, made, mode, name, -, -, hgains, hmode, hput⟩ := flushTo_writes h
  have hbits := hput.targetMode hmode hput.not_directory
  obtain ⟨hplace, hnot, rfl⟩ := hput
  rw [hgains.fileAt?] at hbits
  have hself := get?_put_self made (.file (Operation.replay old ops) mode) hplace.locate_ne_nil
  rw [hgains.cwd] at hbits hnot hself ⊢
  refine ⟨hgains.cwd, ?_, ?_, ?_, ?_⟩
  · intro loc node hne hget
    rw [get?_put_of_ne made _ hne]
    exact hgains.get? loc node hget
  · intro loc node hne hget
    rw [get?_put_of_ne made _ hne] at hget
    exact hgains.new loc node hget
  · intro bits hget
    exact hnot bits (hgains.get? _ _ hget)
  · exact ⟨Operation.replay old ops, by rw [Disk.fileAt?, hself, hbits]⟩

/-- What trying to write one destination does. -/
structure Attempt (s : Surroundings) (root : Path) (d : Disk) (request : WriteRequest)
    (result : WriteResult) (d' : Disk) : Prop where
  tried : d.flush root request s = (d', result)
  destination : result.destination = request.destination
  /-- Nothing is new but directories, so no file that was not finished is left. -/
  failed : result.ok = false →
    d.GainsDirectories d' ∧ ∀ loc, d'.fileAt? loc = d.fileAt? loc
  /-- The file that the destination's path leads to is put in place. -/
  succeeded : result.ok = true →
    let target := (root.join (.ofString request.destination)).locate d.cwd
    d.PutsFile d' target s.umask ∧ ∀ loc, loc ≠ target → d'.fileAt? loc = d.fileAt? loc

theorem flush_attempt (d : Disk) (root : Path) (request : WriteRequest) (s : Surroundings) :
    Attempt s root d request (d.flush root request s).2 (d.flush root request s).1 := by
  cases hflush : d.flushTo (root.join (.ofString request.destination)) request.operations s with
  | mk d' outcome =>
    cases outcome with
    | ok n =>
      have hputs := flushTo_ok hflush
      simp only [flush, hflush]
      refine ⟨by rw [flush, hflush], rfl, ?_, ?_⟩
      · intro h
        cases h
      · intro _
        exact ⟨hputs, fun _ => hputs.fileAt?⟩
    | error refused =>
      have hgains := flushTo_error hflush
      simp only [flush, hflush]
      refine ⟨by rw [flush, hflush], rfl, ?_, ?_⟩
      · intro _
        exact ⟨hgains, hgains.fileAt?⟩
      · intro h
        cases h

/-! ## A list of destinations -/

/-- What trying to write destinations does: every one is tried, on the disk that the ones before it
left. -/
inductive Attempts (s : Surroundings) (root : Path) :
    Disk → List WriteRequest → List WriteResult → Disk → Prop where
  | nil (d : Disk) : Attempts s root d [] [] d
  | cons {d d' d'' : Disk} {request : WriteRequest} {result : WriteResult}
    {requests : List WriteRequest} {results : List WriteResult}
    (first : Attempt s root d request result d')
    (rest : Attempts s root d' requests results d'') :
    Attempts s root d (request :: requests) (result :: results) d''

/-- Destinations that files can have are all tried. -/
theorem writeAll_tries (s : Surroundings) (d : Disk) {root : Path} {requests : List WriteRequest}
    (hroot : root.hasNul = false)
    (hnames : ∀ r ∈ requests, (Path.ofString r.destination).hasNul = false) :
    let outcome := d.writeAll root requests s
    outcome.unnameable = false ∧ Attempts s root d requests outcome.results outcome.disk := by
  induction requests generalizing d with
  | nil => exact ⟨rfl, .nil d⟩
  | cons request requests ih =>
    obtain ⟨hrest, hattempts⟩ := ih (d.flush root request s).1
      fun r hr => hnames r (List.mem_cons_of_mem request hr)
    have hname := hnames request List.mem_cons_self
    simp only [writeAll, hroot, hname, Bool.or_self, Bool.false_eq_true, if_false]
    exact ⟨hrest, .cons (flush_attempt d root request s) hattempts⟩

/-! ## What attempts leave alone -/

section

variable {root : Path} {request : WriteRequest} {requests : List WriteRequest}
  {result : WriteResult} {results : List WriteResult}

theorem Attempt.cwd (h : Attempt s root d request result d') : d'.cwd = d.cwd := by
  cases hok : result.ok with
  | false => exact (h.failed hok).1.cwd
  | true => exact (h.succeeded hok).1.cwd

/-- A directory stays one: no file takes its place. -/
theorem Attempt.get?_directory {bits : Nat} (h : Attempt s root d request result d')
    (hdir : d.get? loc = some (.directory bits)) : d'.get? loc = some (.directory bits) := by
  cases hok : result.ok with
  | false => exact (h.failed hok).1.get? loc _ hdir
  | true =>
    have hputs := (h.succeeded hok).1
    refine hputs.kept loc _ ?_ hdir
    rintro rfl
    exact hputs.no_directory bits hdir

theorem Attempt.fileAt?_of_ne (h : Attempt s root d request result d')
    (hne : loc ≠ (root.join (.ofString request.destination)).locate d.cwd) :
    d'.fileAt? loc = d.fileAt? loc := by
  cases hok : result.ok with
  | false => exact (h.failed hok).2 loc
  | true => exact (h.succeeded hok).2 loc hne

theorem Attempts.destinations (h : Attempts s root d requests results d') :
    results.map (·.destination) = requests.map (·.destination) := by
  induction h with
  | nil => rfl
  | cons first rest ih => rw [List.map_cons, List.map_cons, first.destination, ih]

theorem Attempts.eq_of_nil (h : Attempts s root d requests [] d') : d' = d := by
  cases h
  rfl

theorem Attempts.get?_directory {bits : Nat} (h : Attempts s root d requests results d')
    (hdir : d.get? loc = some (.directory bits)) : d'.get? loc = some (.directory bits) := by
  induction h with
  | nil => exact hdir
  | cons first rest ih => exact ih (first.get?_directory hdir)

/-- A file that no destination leads to stays as it was, however the attempts end. -/
theorem Attempts.fileAt?_of_ne (h : Attempts s root d requests results d')
    (hne : ∀ r ∈ requests, loc ≠ (root.join (.ofString r.destination)).locate d.cwd) :
    d'.fileAt? loc = d.fileAt? loc := by
  induction h with
  | nil => rfl
  | cons first rest ih =>
    have hrest := ih fun r hr => by
      rw [first.cwd]
      exact hne r (List.mem_cons_of_mem _ hr)
    rw [hrest, first.fileAt?_of_ne (hne _ List.mem_cons_self)]

end

/-! ## All of them -/

/-- All destinations are tried and each has a result, in their order. One that fails changes no file
and leaves no other, and one that is written changes no file but its own, which keeps its permission
bits. -/
theorem writeAll_attempts (s : Surroundings) (d : Disk) (root : Path) (requests : List WriteRequest)
    (hroot : root.hasNul = false) (hnames : ∀ r ∈ requests, '\x00' ∉ r.destination.toList) :
    let outcome := d.writeAll root requests s
    outcome.unnameable = false ∧ Attempts s root d requests outcome.results outcome.disk :=
  writeAll_tries s d hroot fun r hr => Path.hasNul_ofString_eq_false_iff.mpr (hnames r hr)

/-- Below a file nothing can be written, and the file is not lost by trying. -/
theorem writeAll_attempts_logged :
    let requests := [lineFor "log/today", lineFor "log"]
    let outcome := logged.writeAll .here requests .usual
    Path.here.hasNul = false ∧ (∀ r ∈ requests, '\x00' ∉ r.destination.toList) ∧
      outcome.results.map (·.ok) = [false, true] ∧ outcome.unnameable = false ∧
      Attempts .usual .here logged requests outcome.results outcome.disk := by
  intro requests outcome
  have hroot : Path.here.hasNul = false := rfl
  have hnames : ∀ r ∈ requests, '\x00' ∉ r.destination.toList := by decide
  exact ⟨hroot, hnames, by decide +kernel,
    writeAll_attempts .usual logged .here requests hroot hnames⟩

end Literate.Disk
