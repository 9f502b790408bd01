import Literate.Proofs.Flavor.Placement

/-!
# The scan comes to an end

The scanner goes through a text in turns. At the start of a line a turn looks for a fence and a heading and may
leave the scanner where it stands; inside a line every turn takes something. So what a scanner has left, its
`room`, gets smaller with every turn, and a run of turns (`Run`) from the start of a text ends after at most two
turns for each character and one more (`Run.length_add_room_le`).

A scan is what such a run comes to (`exists_run`). A lenient reader is told of a malformed directive in each turn
that stands at one, and no other (`turn_faults`); any other reader goes on up to the first such turn
(`exists_run_until`).
-/

namespace Literate

open Directive (Marker Fault)

/-- Where the scanner stands, and whether a line starts there. -/
structure Scanner where
  atStart : Bool
  cursor : Cursor

namespace Scanner

/-- The scanner before a text. -/
def ofText (text : String) : Scanner := ⟨true, .ofText text.toList⟩

/-- The malformed directive that the scanner stands at: inside a line, behind an opener, what follows cannot be
read. -/
def rejects? (s : Scanner) : Option Fault :=
  if s.atStart || (Marker.at? s.cursor.rest).isNone then none
  else
    match Directive.readAt s.cursor with
    | .ok _ => none
    | .error fault => some fault

/-- A bound on the turns that are left: two for each character, and the test at the start of a line. -/
def room (s : Scanner) : Nat := 2 * s.cursor.rest.length + s.atStart.toNat

end Scanner

namespace Flavor

/-- One turn: what it comes to, and where the scanner stands then. At the end of the text there is none. -/
def turn (f : Flavor) (s : Scanner) : Option (List Step × Scanner) :=
  match s.atStart with
  | true =>
    match f.lineStart s.cursor with
    | .fence e n => some ([.event e], ⟨true, s.cursor.advance n⟩)
    | .text steps n => some (steps, ⟨false, s.cursor.advance n⟩)
  | false =>
    match inline s.cursor with
    | .done => none
    | .newline => some ([], ⟨true, s.cursor.advance 1⟩)
    | .char => some ([], ⟨false, s.cursor.advance 1⟩)
    | .directive d stop => some ([.event (.directive d s.cursor.position)], ⟨false, stop⟩)
    | .rejected fault n => some ([.rejected fault], ⟨false, s.cursor.advance n⟩)

/-- Some turns: where the scanner stood before each of them, what they come to, and where it stands then. -/
inductive Run (f : Flavor) : Scanner → List Scanner → List Step → Scanner → Prop where
  | stop (s : Scanner) : Run f s [] [] s
  | turn {s next last : Scanner} {steps later : List Step} {visited : List Scanner} :
      f.turn s = some (steps, next) → Run f next visited later last →
      Run f s (s :: visited) (steps ++ later) last

variable {f : Flavor} {s next last : Scanner} {steps later : List Step} {visited : List Scanner} {c : Cursor}
  {fault : Fault} {n : Nat}

/-! ## One turn -/

theorem scanFrom_turn (f : Flavor) (s : Scanner) :
    f.scanFrom s.atStart s.cursor =
      match f.turn s with
      | none => []
      | some (steps, next) => steps ++ f.scanFrom next.atStart next.cursor := by
  obtain ⟨atStart, c⟩ := s
  cases atStart with
  | true =>
    rw [scanFrom_start, turn]
    cases f.lineStart c <;> rfl
  | false =>
    rw [scanFrom_inside, turn]
    cases inline c <;> rfl

theorem heading?_le {cs title : List Char} {level : Nat} (h : heading? cs = some (level, title, n)) :
    n ≤ cs.length := by
  unfold heading? at h
  simp only at h
  split at h
  · cases h
  · cases h
    have hmarks := Directive.length_takeWhile_le (· == '#') cs
    have hblanks := Directive.length_takeWhile_le Text.isSpaceOrTab
      (cs.drop (cs.takeWhile (· == '#')).length)
    rw [List.length_drop] at hblanks
    omega

theorem headingSteps_le (c : Cursor) : (headingSteps c).2 ≤ c.rest.length := by
  unfold headingSteps
  split
  · rename_i h
    exact heading?_le h
  · exact Nat.zero_le _

/-- Less text leaves less room, whether a line starts or not. -/
theorem room_advance_lt {start start' : Bool} (hpos : 0 < n) (hle : n ≤ c.rest.length) :
    Scanner.room ⟨start, c.advance n⟩ < Scanner.room ⟨start', c⟩ := by
  have := start.toNat_le
  simp only [Scanner.room, Cursor.rest_advance, List.length_drop]
  omega

/-- A turn takes some of the text, the malformed directive that it passes over included, and leaves less room. Only
at the start of a line it may take nothing. -/
theorem turn_goes (h : f.turn s = some (steps, next)) :
    ∃ n ≤ s.cursor.rest.length, next.cursor = s.cursor.advance n ∧ next.room < s.room ∧
      (s.atStart = false → 0 < n) := by
  obtain ⟨atStart, c⟩ := s
  unfold turn at h
  cases atStart with
  | true =>
    simp only at h
    split at h
    · rename_i e n hline
      cases h
      obtain ⟨language, content, hfence, -⟩ := lineStart_fence_eq hline
      have hle := fenceLine_le hfence
      exact ⟨n, hle, rfl, room_advance_lt (fenceLine_length hfence).1 hle, nofun⟩
    · rename_i steps n hline
      cases h
      obtain ⟨rfl, -⟩ := lineStart_text_eq hline
      refine ⟨_, headingSteps_le c, rfl, ?_, nofun⟩
      simp only [Scanner.room, Cursor.rest_advance, List.length_drop, Bool.toNat_true, Bool.toNat_false]
      omega
  | false =>
    have hrest : 0 < c.rest.length := by
      refine rest_ne_nil_of_inline fun hdone => ?_
      rw [hdone] at h
      cases h
    simp only at h
    split at h
    · cases h
    · cases h
      exact ⟨1, hrest, rfl, room_advance_lt Nat.one_pos hrest, fun _ => Nat.one_pos⟩
    · cases h
      exact ⟨1, hrest, rfl, room_advance_lt Nat.one_pos hrest, fun _ => Nat.one_pos⟩
    · rename_i d stop hinline
      cases h
      obtain ⟨n, rfl, hpos, hle⟩ := Directive.readAt_eq (inline_directive hinline)
      exact ⟨n, hle, rfl, room_advance_lt hpos hle, fun _ => hpos⟩
    · rename_i fault n hinline
      cases h
      obtain ⟨-, rfl⟩ := inline_rejected hinline
      have hle := Directive.skipLength_le (List.length_pos_iff.mp hrest)
      exact ⟨_, hle, rfl, room_advance_lt Directive.skipLength_pos hle, fun _ => Directive.skipLength_pos⟩

/-- The scanner makes no turn at the end of the text only. -/
theorem rest_of_turn_none (h : f.turn s = none) : s.cursor.rest = [] := by
  obtain ⟨atStart, c⟩ := s
  unfold turn at h
  cases atStart with
  | true =>
    simp only at h
    split at h <;> cases h
  | false =>
    simp only at h
    split at h
    · rename_i hdone
      exact inline_done hdone
    all_goals cases h

/-- Inside a line the scanner stands at a malformed directive exactly if it passes one over. -/
theorem rejects?_inside (c : Cursor) : Scanner.rejects? ⟨false, c⟩ =
    match inline c with
    | .rejected fault _ => some fault
    | _ => none := by
  unfold Scanner.rejects? inline
  cases c.rest with
  | nil => simp [Marker.at?_nil]
  | cons x cs =>
    by_cases hx : x = '\n'
    · subst hx
      simp [at?_eq_none (x := '\n') (by decide)]
    · by_cases hopener : (Marker.at? (x :: cs)).isNone
      · simp [hx, hopener]
      · cases Directive.readAt c <;> simp [hx, hopener]

/-- A turn reports the malformed directive that the scanner stands at, and no other. -/
theorem turn_faults (h : f.turn s = some (steps, next)) :
    steps.filterMap Step.fault? = s.rejects?.toList := by
  obtain ⟨atStart, c⟩ := s
  unfold turn at h
  cases atStart with
  | true =>
    simp only at h
    split at h
    · cases h
      rfl
    · rename_i steps n hline
      cases h
      refine List.filterMap_eq_nil_iff.mpr fun step hstep => ?_
      cases step with
      | rejected fault => exact absurd hstep (rejected_not_mem_text hline)
      | event e | openFence line => rfl
  | false =>
    rw [rejects?_inside]
    simp only at h
    cases hinline : inline c with
    | done =>
      rw [hinline] at h
      cases h
    | newline | char | directive d stop | rejected fault n =>
      rw [hinline] at h
      cases h
      rfl

theorem scanFrom_rejects (h : s.rejects? = some fault) :
    ∃ later, f.scanFrom s.atStart s.cursor = .rejected fault :: later := by
  obtain ⟨atStart, c⟩ := s
  cases atStart with
  | true => cases h
  | false =>
    rw [rejects?_inside] at h
    split at h
    · rename_i fault' n hinline
      cases h
      rw [scanFrom_inside, hinline]
      exact ⟨_, rfl⟩
    · cases h

/-! ## Runs -/

/-- Every turn costs room. -/
theorem Run.length_add_room_le (h : Run f s visited steps last) :
    visited.length + last.room ≤ s.room := by
  induction h with
  | stop s => simp
  | turn hturn _ ih =>
    obtain ⟨n, -, -, hroom, -⟩ := turn_goes hturn
    rw [List.length_cons]
    omega

/-- A run stays in the text that is ahead of it. -/
theorem Run.ahead (h : Run f s visited steps last) :
    ∀ t ∈ last :: visited, ∃ n ≤ s.cursor.rest.length, t.cursor = s.cursor.advance n := by
  induction h with
  | stop s =>
    intro t ht
    obtain rfl := List.mem_singleton.mp ht
    exact ⟨0, Nat.zero_le _, (Cursor.advance_zero _).symm⟩
  | @turn s next last steps later visited hturn _ ih =>
    intro t ht
    obtain ⟨n, hn, hnext, -, -⟩ := turn_goes hturn
    by_cases hfirst : t = s
    · exact ⟨0, Nat.zero_le _, by rw [hfirst, Cursor.advance_zero]⟩
    · obtain ⟨k, hk, hcursor⟩ := ih t (by simpa [hfirst] using ht)
      rw [hnext, Cursor.rest_advance, List.length_drop] at hk
      exact ⟨n + k, by omega, by rw [hcursor, hnext, Cursor.advance_advance]⟩

/-- A run reports the malformed directives that it comes to, one for each turn that stands at one. -/
theorem Run.faults (h : Run f s visited steps last) :
    steps.filterMap Step.fault? = visited.filterMap Scanner.rejects? := by
  induction h with
  | stop s => rfl
  | @turn s next last steps later visited hturn _ ih =>
    rw [List.filterMap_append, turn_faults hturn, ih, List.filterMap_cons]
    cases s.rejects? <;> rfl

theorem atStart_of_rejects? (h : s.rejects?.isSome) : s.atStart = false := by
  obtain ⟨atStart, c⟩ := s
  cases atStart with
  | false => rfl
  | true => cases h

/-- No malformed directive is come to twice. -/
theorem Run.rejects_increasing (h : Run f s visited steps last) :
    (visited.filter (·.rejects?.isSome)).Pairwise fun t u => t.cursor.offset < u.cursor.offset := by
  induction h with
  | stop s => exact .nil
  | @turn s next last steps later visited hturn hrun ih =>
    rw [List.filter_cons]
    split
    · rename_i hrejects
      obtain ⟨n, -, hnext, -, hpos⟩ := turn_goes hturn
      have hpos := hpos (atStart_of_rejects? hrejects)
      refine List.pairwise_cons.mpr ⟨fun t ht => ?_, ih⟩
      obtain ⟨k, -, hcursor⟩ := hrun.ahead t (List.mem_cons_of_mem _ (List.mem_filter.mp ht).1)
      rw [hcursor, hnext]
      simp only [Cursor.advance]
      omega
    · exact ih

/-- From wherever the scanner stands, a run goes to the end of the text, and the scan is what it comes to. -/
theorem exists_run (f : Flavor) (s : Scanner) :
    ∃ visited last, Run f s visited (f.scanFrom s.atStart s.cursor) last ∧ f.turn last = none := by
  -- on the room, which every turn makes smaller; the text alone may stay as it is at the start of a line
  induction hroom : s.room using Nat.strong_induction_on generalizing s with
  | _ room ih =>
    cases hturn : f.turn s with
    | none =>
      refine ⟨[], s, ?_, hturn⟩
      rw [scanFrom_turn, hturn]
      exact .stop s
    | some r =>
      obtain ⟨steps, next⟩ := r
      obtain ⟨n, -, -, hless, -⟩ := turn_goes hturn
      obtain ⟨visited, last, hrun, hlast⟩ := ih next.room (hroom ▸ hless) next rfl
      refine ⟨s :: visited, last, ?_, hlast⟩
      rw [scanFrom_turn, hturn]
      exact .turn hturn hrun

/-- Up to the first malformed directive, or to the end of the text if there is none, a run reports nothing. -/
theorem exists_run_until (f : Flavor) (s : Scanner) :
    ∃ visited steps last, Run f s visited steps last ∧ (∀ fault, .rejected fault ∉ steps) ∧
      (f.turn last = none ∧ f.scanFrom s.atStart s.cursor = steps ∨
        ∃ fault later, last.rejects? = some fault ∧
          f.scanFrom s.atStart s.cursor = steps ++ .rejected fault :: later) := by
  induction hroom : s.room using Nat.strong_induction_on generalizing s with
  | _ room ih =>
    cases hrejects : s.rejects? with
    | some fault =>
      obtain ⟨later, hlater⟩ := scanFrom_rejects (f := f) hrejects
      exact ⟨[], [], s, .stop s, by simp, Or.inr ⟨fault, later, hrejects, hlater⟩⟩
    | none =>
      cases hturn : f.turn s with
      | none =>
        refine ⟨[], [], s, .stop s, by simp, Or.inl ⟨hturn, ?_⟩⟩
        rw [scanFrom_turn, hturn]
      | some r =>
        obtain ⟨steps, next⟩ := r
        obtain ⟨n, -, -, hless, -⟩ := turn_goes hturn
        obtain ⟨visited, later, last, hrun, hlater, hend⟩ := ih next.room (hroom ▸ hless) next rfl
        have hsteps : ∀ fault, .rejected fault ∉ steps := by
          intro fault hmem
          have hnone := turn_faults hturn
          rw [hrejects] at hnone
          exact absurd (List.filterMap_eq_nil_iff.mp hnone _ hmem) nofun
        refine ⟨s :: visited, steps ++ later, last, .turn hturn hrun, ?_, ?_⟩
        · intro fault hmem
          exact (List.mem_append.mp hmem).elim (hsteps fault) (hlater fault)
        · rw [scanFrom_turn, hturn]
          rcases hend with ⟨hlast, hscan⟩ | ⟨fault, behind, hlast, hscan⟩
          · exact Or.inl ⟨hlast, by rw [← hscan]⟩
          · exact Or.inr ⟨fault, behind, hlast, by simp only [hscan, List.append_assoc]⟩

/-! ## Whole texts -/

/-- A run from the start of a text that makes at most two turns for each character and one more, and never leaves
the text. -/
structure RunsThrough (f : Flavor) (text : String) (visited : List Scanner) (steps : List Step)
    (last : Scanner) : Prop where
  run : Run f (.ofText text) visited steps last
  turns_le : visited.length ≤ 2 * text.toList.length + 1
  inside : ∀ s ∈ last :: visited, ∃ k ≤ text.toList.length, s.cursor = .ofOffset text.toList k

theorem Run.runsThrough {text : String} (h : Run f (.ofText text) visited steps last) :
    f.RunsThrough text visited steps last where
  run := h
  turns_le := by
    have hroom : (Scanner.ofText text).room = 2 * text.toList.length + 1 := rfl
    have := h.length_add_room_le
    omega
  inside := h.ahead

/-- A lenient reader goes through the text to its end. -/
theorem exists_lenient_run (f : Flavor) (text : String) :
    ∃ visited last, f.RunsThrough text visited (f.scan text) last ∧ f.turn last = none ∧
      last.cursor.rest = [] ∧ (Reading.ofText f true text).skipped = visited.filterMap Scanner.rejects? ∧
      (visited.filter (·.rejects?.isSome)).Pairwise fun s t => s.cursor.offset < t.cursor.offset := by
  obtain ⟨visited, last, hrun, hlast⟩ := exists_run f (.ofText text)
  refine ⟨visited, last, hrun.runsThrough, hlast, rest_of_turn_none hlast, ?_, hrun.rejects_increasing⟩
  rw [Reading.ofText, Reading.ofSteps_lenient, ← hrun.faults]
  rfl

/-- Any other reader goes to the end or to the first malformed directive. -/
theorem exists_fatal_run (f : Flavor) (text : String) :
    ∃ visited steps last, f.RunsThrough text visited steps last ∧
      (Reading.ofText f false text).events = steps.filterMap Step.event? ∧
      (f.turn last = none ∧ (Reading.ofText f false text).failure = none ∨
        ∃ fault, last.rejects? = some fault ∧
          (Reading.ofText f false text).failure = some fault) := by
  obtain ⟨visited, steps, last, hrun, hnone, hend⟩ := exists_run_until f (.ofText text)
  have hreading := fun later => Reading.ofSteps_append hnone false later
  refine ⟨visited, steps, last, hrun.runsThrough, ?_⟩
  rcases hend with ⟨hlast, hscan⟩ | ⟨fault, later, hlast, hscan⟩
  · have hscan : f.scan text = steps ++ [] := by rw [List.append_nil]; exact hscan
    rw [Reading.ofText, hscan, hreading]
    exact ⟨List.append_nil _, Or.inl ⟨hlast, rfl⟩⟩
  · have hscan : f.scan text = steps ++ .rejected fault :: later := hscan
    rw [Reading.ofText, hscan, hreading]
    exact ⟨List.append_nil _, Or.inr ⟨fault, hlast, rfl⟩⟩

/-- What is skipped, read or fenced takes some of the text and no more than there is. So a lenient scan goes
through the text to its end, with one report for each malformed directive that it comes to, and any other scan goes
to the end or to the first malformed directive. -/
theorem scan_ends (f : Flavor) (text : String) :
    (∀ k < text.toList.length, 0 < Directive.skipLength (text.toList.drop k) ∧
      k + Directive.skipLength (text.toList.drop k) ≤ text.toList.length) ∧
    (∀ (k : Nat) (line : Int) (d : Directive) (stop : Cursor),
      Directive.readAt ⟨k, line, text.toList.drop k⟩ = .ok (d, stop) →
      k < stop.offset ∧ stop.offset ≤ text.toList.length) ∧
    (∀ k language content n,
      fenceLine f.fence.toList (text.toList.drop k) = .closed language content n →
      0 < n ∧ k + n ≤ text.toList.length) ∧
    (∃ visited last, f.RunsThrough text visited (f.scan text) last ∧ f.turn last = none ∧
      last.cursor.rest = [] ∧ (Reading.ofText f true text).skipped = visited.filterMap Scanner.rejects? ∧
      (visited.filter (·.rejects?.isSome)).Pairwise fun s t => s.cursor.offset < t.cursor.offset) ∧
    ∃ visited steps last, f.RunsThrough text visited steps last ∧
      (Reading.ofText f false text).events = steps.filterMap Step.event? ∧
      (f.turn last = none ∧ (Reading.ofText f false text).failure = none ∨
        ∃ fault, last.rejects? = some fault ∧
          (Reading.ofText f false text).failure = some fault) := by
  refine ⟨?_, ?_, ?_, exists_lenient_run f text, exists_fatal_run f text⟩
  · intro k hk
    have hne : text.toList.drop k ≠ [] := by
      rw [ne_eq, List.drop_eq_nil_iff]
      omega
    have hle := Directive.skipLength_le hne
    rw [List.length_drop] at hle
    exact ⟨Directive.skipLength_pos, by omega⟩
  · intro k line d stop hread
    obtain ⟨n, rfl, hpos, hle⟩ := Directive.readAt_eq hread
    simp only [Cursor.advance, List.length_drop] at hle ⊢
    omega
  · intro k language content n hfence
    have hpos := fenceLine_length hfence
    have hle := fenceLine_le hfence
    rw [List.length_drop] at hle hpos
    omega

/-- A flavor whose fences are marked by nothing: a line opens one and the next blank line closes it. -/
def unmarked : Flavor := { github with fence := "" }

theorem scan_ends_unmarked :
    let text := "a\n\n<?btxt?>"
    (3 < text.toList.length ∧ 0 < Directive.skipLength (text.toList.drop 3) ∧
      3 + Directive.skipLength (text.toList.drop 3) ≤ text.toList.length) ∧
    (Directive.readAt ⟨3, 3, text.toList.drop 3⟩ = .ok (⟨none, [], [], ⟨3, 11, 3⟩⟩, ⟨11, 3, []⟩) ∧
      (3 : Int) < 11 ∧ (11 : Int) ≤ text.toList.length) ∧
    fenceLine unmarked.fence.toList (text.toList.drop 0) = .closed ['a'] [] 3 ∧
      0 < 3 ∧ 0 + 3 ≤ text.toList.length := by
  intro text
  have hread : Directive.readAt ⟨3, 3, text.toList.drop 3⟩ =
      .ok (⟨none, [], [], ⟨3, 11, 3⟩⟩, ⟨11, 3, []⟩) := by decide +kernel
  have hfence : fenceLine unmarked.fence.toList (text.toList.drop 0) = .closed ['a'] [] 3 := by
    simp [text, unmarked, fenceLine, opening?, contentLength?, closesFence, closingLength,
      Directive.isQualifierChar, Text.isSpaceOrTab]
  obtain ⟨hskip, hdirective, hclosed, -⟩ := scan_ends unmarked text
  have hlt : 3 < text.toList.length := by decide
  exact ⟨⟨hlt, hskip 3 hlt⟩, ⟨hread, hdirective 3 3 _ _ hread⟩, hfence, hclosed 0 _ _ _ hfence⟩

end Flavor

end Literate
