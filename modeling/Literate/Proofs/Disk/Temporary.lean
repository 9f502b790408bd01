import Literate.Disk.Temporary
import Literate.Proofs.Disk.Lookup
import Mathlib.Data.List.Nodup

/-!
# A file is put in place at once

Putting a file in place goes through a file with another name. Nothing of that is left: if it succeeds,
the disk is the one with the new file in place (`replaceThrough_ok`), and if it fails, the disk is what
it was (`replaceThrough_error`). So the steps come to one, `replace`, whatever the temporary name is;
that they fail only where it does takes a name that nothing has (`replaceThrough_eq`), and there is
always one (`freshNames_usual`).
-/

namespace Literate

namespace Entries

variable {κ ν : Type} [BEq κ] [LawfulBEq κ] {key k : κ} {m : Entries κ ν}

theorem put_put (key : κ) (value value' : ν) (m : Entries κ ν) :
    put key value' (put key value m) = put key value' m := by
  induction m with
  | nil => simp [put]
  | cons e rest ih =>
    by_cases h : key = e.1
    · simp [put, h]
    · simp [put, beq_false_of_ne h, ih]

theorem filter_put_self (key : κ) (value : ν) (m : Entries κ ν) :
    ((put key value m).filter fun e => !(e.1 == key)) = m.filter fun e => !(e.1 == key) := by
  induction m with
  | nil => simp [put]
  | cons e rest ih =>
    by_cases h : key = e.1
    · simp [put, h]
    · simp [put, beq_false_of_ne h, ih, List.filter_cons]

theorem filter_put_of_ne (h : k ≠ key) (value : ν) (m : Entries κ ν) :
    ((put k value m).filter fun e => !(e.1 == key)) =
      put k value (m.filter fun e => !(e.1 == key)) := by
  induction m with
  | nil => simp [put, h]
  | cons e rest ih =>
    obtain ⟨k', v⟩ := e
    by_cases hk : k = k'
    · subst hk
      simp [put, h]
    · by_cases hkey : k' = key
      · subst hkey
        simp [put, h, ih]
      · simp [put, hk, hkey, ih]

theorem filter_of_lookup (h : m.lookup key = none) :
    (m.filter fun e => !(e.1 == key)) = m := by
  rw [List.filter_eq_self]
  rintro ⟨k, v⟩ hmem
  have hne : key ≠ k := by simpa using List.lookup_eq_none_iff.mp h (k, v) hmem
  simpa using hne.symm

end Entries

namespace Disk

variable {d d' : Disk} {p : Path} {loc dir : Location} {content : ByteArray} {mode : Nat}
  {s : Surroundings}

/-- Puts a file in place of the one that a path leads to, in one step. The directory must be there,
and it must have room for the longer name that the file has before. -/
def replace (d : Disk) (p : Path) (content : ByteArray) (mode : Nat) : Except Errno Disk :=
  match d.openDirectory p.parent with
  | .error e => .error e
  | .ok dir =>
    if maxName < p.name.utf8ByteSize + temporaryExtra then .error .nameTooLong
    else if d.mayChange dir then
      match ownName? p with
      | none => .error .busy
      | some name =>
        match d.get? (dir ++ [name]) with
        | some (.directory _) => .error .isDirectory
        | _ => .ok (d.put (dir ++ [name]) (.file content mode))
    else .error .denied

theorem openDirectory_eq_ok (h : d.openDirectory p = .ok loc) :
    d.find p = .ok loc ∧
      ∃ bits, d.get? loc = some (.directory bits) ∧ (Node.directory bits).grants .search = true := by
  unfold openDirectory at h
  split at h
  · cases h
  · rename_i found hfind
    split at h
    · cases h
    · cases h
    · rename_i bits hget
      split at h
      · rename_i hsearch
        cases h
        exact ⟨hfind, bits, hget, hsearch⟩
      · cases h

/-! ## A file that comes and goes -/

theorem put_put (d : Disk) (loc : Location) (node node' : Node) :
    (d.put loc node).put loc node' = d.put loc node' := by
  rw [put, put, put, Entries.put_put]

theorem ne_nil_of_get? (h : d.get? loc = none) : loc ≠ [] := by
  rintro rfl
  rw [get?, if_pos rfl] at h
  cases h

/-- Nothing is left of what is taken away again. -/
theorem erase_put (node : Node) (h : d.get? loc = none) : (d.put loc node).erase loc = d := by
  have hlookup := h
  rw [get?, if_neg (ne_nil_of_get? h)] at hlookup
  rw [erase, put, Entries.filter_put_self, Entries.filter_of_lookup hlookup]

theorem erase_put_of_ne {loc' : Location} (h : loc' ≠ loc) (d : Disk) (node : Node) :
    (d.put loc' node).erase loc = (d.erase loc).put loc' node := by
  rw [erase, put, put, erase, Entries.filter_put_of_ne h]

theorem permit_fill_put (h : loc ≠ []) (d : Disk) (content : ByteArray) (bits mode : Nat) :
    ((d.put loc (.file .empty bits)).fill loc content).permit loc mode =
      d.put loc (.file content mode) := by
  rw [fill, get?_put_self d _ h]
  simp only [put_put]
  rw [permit, get?_put_self d _ h]
  simp only [put_put]

theorem temporaryName_ne (name suffix : String) : name ≠ temporaryName name suffix := by
  intro h
  have hlength := congrArg String.length h
  simp only [temporaryName, String.length_append] at hlength
  have hdot : ".".length = 1 := rfl
  omega

/-! ## The steps come to one -/

/-- What it takes to make the temporary file, and where it is then. -/
structure Temporary (d made : Disk) (p : Path) (s : Surroundings) (loc dir : Location) : Prop where
  directory : d.openDirectory p.parent = .ok dir
  room : p.name.utf8ByteSize + temporaryExtra ≤ maxName
  mayChange : d.mayChange dir = true
  loc_eq : loc = dir ++ [temporaryName p.name (s.suffix d dir p.name)]
  free : d.get? loc = none
  made_eq : made = d.put loc (.file .empty temporaryMode)

theorem makeTemporary_eq_ok {made : Disk} (h : d.makeTemporary p s = .ok (made, loc)) :
    ∃ dir, Temporary d made p s loc dir := by
  unfold makeTemporary at h
  split at h
  · cases h
  · rename_i dir hdirectory
    split at h
    · cases h
    · rename_i hroom
      simp only at h
      split at h
      · cases h
      · rename_i hfree
        split at h
        · rename_i hchange
          cases h
          exact ⟨dir, hdirectory, by omega, hchange, rfl, by simpa using hfree, rfl⟩
        · cases h

/-- The finished file takes the name of the path, and no other file is left. -/
theorem Temporary.rename {made : Disk} (h : Temporary d made p s loc dir) (content : ByteArray)
    (mode : Nat) :
    ((made.fill loc content).permit loc mode).rename loc p = d.replace p content mode := by
  have hfull : (made.fill loc content).permit loc mode = d.put loc (.file content mode) := by
    rw [h.made_eq, permit_fill_put (ne_nil_of_get? h.free)]
  have hwithin : d.Within (d.put loc (.file content mode)) := within_put _ h.free
  obtain ⟨hfind, bits, hget, -⟩ := openDirectory_eq_ok h.directory
  have hchange : (d.put loc (.file content mode)).mayChange dir = true := by
    have hmay := h.mayChange
    rw [Disk.mayChange, hget] at hmay
    rw [Disk.mayChange, hwithin.get? dir _ hget]
    exact hmay
  rw [hfull, Disk.rename, Disk.replace]
  simp only [get?_put_self d _ (ne_nil_of_get? h.free), h.directory, hwithin.find hfind,
    h.mayChange, hchange, if_true, if_neg (Nat.not_lt.mpr h.room)]
  cases hname : ownName? p with
  | none => rfl
  | some name =>
    have hlast := (ownName?_eq_some hname).2.1
    have hloc : loc = dir ++ [temporaryName name (s.suffix d dir p.name)] := by
      rw [h.loc_eq, hlast]
    -- the file never has its own temporary name, so what is renamed is another file
    have hne : dir ++ [name] ≠ loc := by
      rw [hloc]
      intro heq
      exact temporaryName_ne name _ (List.cons.inj (List.append_cancel_left heq)).1
    have herase : ((d.put loc (.file content mode)).put (dir ++ [name])
        (.file content mode)).erase loc = d.put (dir ++ [name]) (.file content mode) := by
      rw [erase_put_of_ne hne, erase_put _ h.free]
    rcases hnode : d.get? (dir ++ [name]) with _ | _ | _ <;>
      simp only [get?_put_of_ne d _ hne, hnode, herase]

/-- A temporary file that is taken away again leaves nothing. -/
theorem Temporary.erase {made : Disk} (h : Temporary d made p s loc dir) (content : ByteArray)
    (mode : Nat) : ((made.fill loc content).permit loc mode).erase loc = d := by
  rw [h.made_eq, permit_fill_put (ne_nil_of_get? h.free), erase_put _ h.free]

/-- Once there is a temporary file, the steps do what one does. -/
theorem replaceThrough_of_makeTemporary {made : Disk} (h : d.makeTemporary p s = .ok (made, loc))
    (content : ByteArray) (mode : Nat) :
    d.replaceThrough p content mode s =
      match d.replace p content mode with
      | .error e => (d, .error e)
      | .ok d' => (d', .ok ()) := by
  obtain ⟨dir, htemporary⟩ := makeTemporary_eq_ok h
  cases hreplace : d.replace p content mode <;>
    simp only [replaceThrough, h, htemporary.rename, htemporary.erase, hreplace]

theorem replaceThrough_ok (h : d.replaceThrough p content mode s = (d', .ok ())) :
    d.replace p content mode = .ok d' := by
  cases hmake : d.makeTemporary p s with
  | error e => simp [replaceThrough, hmake] at h
  | ok made =>
    rw [replaceThrough_of_makeTemporary hmake] at h
    split at h
    · cases h
    · rename_i hreplace
      cases h
      exact hreplace

theorem replaceThrough_error {e : Errno} (h : d.replaceThrough p content mode s = (d', .error e)) :
    d' = d := by
  cases hmake : d.makeTemporary p s with
  | error e =>
    rw [replaceThrough, hmake] at h
    cases h
    rfl
  | ok made =>
    rw [replaceThrough_of_makeTemporary hmake] at h
    split at h <;> cases h
    rfl

/-! ## A name that nothing has -/

theorem suffixOf_inj {n n' : Nat} (h : suffixOf n = suffixOf n') : n = n' := by
  have hdigits := congrArg (fun suffix => Nat.ofDigitChars 10 suffix.toList 0) h
  simp only [suffixOf, Nat.repr_eq_ofList_toDigits, String.toList_ofList,
    Nat.ofDigitChars_toDigits (by decide) (Nat.le_refl 10)] at hdigits
  omega

theorem temporaryName_inj {name suffix suffix' : String}
    (h : temporaryName name suffix = temporaryName name suffix') : suffix = suffix' :=
  (String.append_right_inj _).mp h

theorem mem_keys_of_isSome (h : (d.get? loc).isSome = true) (hloc : loc ≠ []) :
    loc ∈ d.nodes.map (·.1) := by
  rw [get?, if_neg hloc] at h
  obtain ⟨node, hnode⟩ := Option.isSome_iff_exists.mp h
  obtain ⟨before, after, hnodes, -⟩ := List.lookup_eq_some_iff.mp hnode
  simp [hnodes]

/-- There are more suffixes to try than there is on the disk. -/
theorem get?_freeSuffix (d : Disk) (dir : Location) (name : String) :
    d.get? (dir ++ [temporaryName name (d.freeSuffix dir name)]) = none := by
  rw [freeSuffix]
  cases hfind : ((List.range (d.nodes.length + 1)).map suffixOf).find? fun suffix =>
      (d.get? (dir ++ [temporaryName name suffix])).isNone with
  | some suffix => simpa using List.find?_some hfind
  | none =>
    -- all of them would be taken, by more different locations than the disk has
    let locationOf (n : Nat) := dir ++ [temporaryName name (suffixOf n)]
    have hinj : Function.Injective locationOf := by
      intro n n' h
      exact suffixOf_inj (temporaryName_inj (List.cons.inj (List.append_cancel_left h)).1)
    have htaken : (List.range (d.nodes.length + 1)).map locationOf ⊆ d.nodes.map (·.1) := by
      intro loc hloc
      obtain ⟨n, hn, rfl⟩ := List.mem_map.mp hloc
      have hthere := List.find?_eq_none.mp hfind (suffixOf n) (List.mem_map_of_mem hn)
      exact mem_keys_of_isSome (by simpa [Option.isSome_iff_ne_none] using hthere)
        (by simp [locationOf])
    have hlength := (List.nodup_range.map hinj).length_le_of_subset htaken
    simp only [List.length_map, List.length_range] at hlength
    omega

/-- Whether the name of a file that is not finished is always one that nothing has. -/
def FreshNames (s : Surroundings) : Prop :=
  ∀ (d : Disk) (dir : Location) (name : String),
    d.get? (dir ++ [temporaryName name (s.suffix d dir name)]) = none

theorem freshNames_usual : FreshNames .usual := get?_freeSuffix

/-- What keeps the temporary file from being made keeps the file from being put in place. -/
theorem makeTemporary_error (hs : FreshNames s) {e : Errno} (h : d.makeTemporary p s = .error e)
    (content : ByteArray) (mode : Nat) : d.replace p content mode = .error e := by
  rw [makeTemporary] at h
  rw [replace]
  cases hdirectory : d.openDirectory p.parent with
  | error e' =>
    rw [hdirectory] at h
    cases h
    rfl
  | ok dir =>
    have hfree := hs d dir p.name
    simp only [hdirectory, hfree, Option.isSome_none, Bool.false_eq_true, if_false] at h ⊢
    split at h
    · rename_i hroom
      cases h
      rw [if_pos hroom]
    · rename_i hroom
      rw [if_neg hroom]
      split at h
      · cases h
      · rename_i hchange
        cases h
        rw [if_neg hchange]

/-- With a name that nothing has for the file that is not finished, the steps do what one does. -/
theorem replaceThrough_eq (hs : FreshNames s) (d : Disk) (p : Path) (content : ByteArray) (mode : Nat) :
    d.replaceThrough p content mode s =
      match d.replace p content mode with
      | .error e => (d, .error e)
      | .ok d' => (d', .ok ()) := by
  cases hmake : d.makeTemporary p s with
  | error e => rw [makeTemporary_error hs hmake, replaceThrough, hmake]
  | ok made => exact replaceThrough_of_makeTemporary hmake content mode

end Disk

end Literate
