import Literate.Proofs.Flavor.Composition
import Literate.Proofs.Pass.Location

/-!
# Where the scanner finds things

Everything that a scan comes to was found somewhere in the text and takes some of it: a fence with
its two lines, a directive from its opener to its closer, a malformed one as far as it is passed over,
and of a heading its marks. What is found later stands behind all of that (`scanFrom_finds`).

So positions are exact for every reader (`scan_placed`): each event is further on than the one before, on the
line that it names, at the start of that line or at an opener.
-/

namespace Literate

open Directive (Marker Fault)

/-- The position of an offset in a text. -/
def Position.ofOffset (text : List Char) (offset : Nat) : Position :=
  ⟨offset, (text.take offset).count '\n' + 1⟩

/-- The cursor at an offset of a text. -/
def Cursor.ofOffset (text : List Char) (offset : Nat) : Cursor := (ofText text).advance offset

namespace Cursor

variable {text : List Char} {k : Nat}

@[simp] theorem rest_ofOffset : (ofOffset text k).rest = text.drop k := rfl

theorem position_ofOffset : (ofOffset text k).position = .ofOffset text k := by
  simp only [position, ofOffset, advance, ofText, Position.ofOffset, Position.mk.injEq]
  omega

theorem advance_ofOffset (n : Nat) : (ofOffset text k).advance n = ofOffset text (k + n) :=
  advance_advance _ k n

end Cursor

namespace Flavor

/-- What a step of the scanner is: the fence, the heading or the directive that is read at an offset of the
text, and how much of the text it takes. -/
inductive Takes (f : Flavor) (text : List Char) : Step → Nat → Nat → Prop where
  | fence {start n : Nat} {language content : List Char} (line : WholeLines (text.take start))
    (read : fenceLine f.fence.toList (text.drop start) = .closed language content n) :
    Takes f text (.event (f.fenceEvent language content (.ofOffset text start))) start n
  | openFence {start : Nat} (line : WholeLines (text.take start))
    (read : fenceLine f.fence.toList (text.drop start) = .unclosed) :
    Takes f text (.openFence (Position.ofOffset text start).line) start 0
  | heading {start n level : Nat} {title : List Char} (line : WholeLines (text.take start))
    (read : heading? (text.drop start) = some (level, title, n)) :
    Takes f text (.event (.heading level (some (String.ofList title)) (.ofOffset text start))) start n
  | directive {start n : Nat} {d : Directive} (opener : (Marker.at? (text.drop start)).isSome)
    (read : Directive.readAt (.ofOffset text start) = .ok (d, .ofOffset text (start + n))) (some : 0 < n) :
    Takes f text (.event (.directive d (.ofOffset text start))) start n
  | rejected {start : Nat} {fault : Fault} (opener : (Marker.at? (text.drop start)).isSome)
    (read : Directive.readAt (.ofOffset text start) = .error fault) :
    Takes f text (.rejected fault) start (Directive.skipLength (text.drop start))

/-- A step with the offset at which it was found and the number of characters that it takes. -/
structure Found where
  step : Step
  start : Nat
  length : Nat

variable {f : Flavor} {text : List Char} {c : Cursor} {e : Event} {start n k : Nat}

/-! ## Places of single steps -/

/-- A fence is a fragment or a nested document. -/
theorem fenceEvent_cases (f : Flavor) (word content : List Char) (place : Position) :
    f.fenceEvent word content place = .fragment (languageOf word) (String.ofList content) place ∨
      ∃ id, f.fenceEvent word content place = .nested id (String.ofList content) place := by
  unfold fenceEvent
  split
  · split
    · exact Or.inr ⟨_, rfl⟩
    · exact Or.inl rfl
  · exact Or.inl rfl

theorem Takes.place (h : f.Takes text (.event e) start n) : e.place = .ofOffset text start := by
  cases h with
  | fence line read =>
    rename_i language content
    rcases f.fenceEvent_cases language content (.ofOffset text start) with heq | ⟨id, heq⟩ <;>
      rw [heq] <;> rfl
  | heading line read => rfl
  | directive opener read some => rfl

/-- Every event takes something. -/
theorem Takes.pos (h : f.Takes text (.event e) start n) : 0 < n := by
  cases h with
  | fence line read => exact (fenceLine_length read).1
  | heading line read => exact (heading?_length read).1
  | directive opener read some => exact some

theorem lineStart_fence_eq (h : f.lineStart c = .fence e n) :
    ∃ language content, fenceLine f.fence.toList c.rest = .closed language content n ∧
      e = f.fenceEvent language content c.position := by
  unfold lineStart at h
  split at h
  · rename_i language content k hfence
    cases h
    exact ⟨language, content, hfence, rfl⟩
  · cases h
  · cases h

theorem lineStart_text_eq {steps : List Step} (h : f.lineStart c = .text steps n) :
    n = (headingSteps c).2 ∧
      (fenceLine f.fence.toList c.rest = .unclosed ∧ steps = .openFence c.line :: (headingSteps c).1 ∨
        steps = (headingSteps c).1) := by
  unfold lineStart at h
  split at h
  · cases h
  · rename_i hfence
    cases h
    exact ⟨rfl, Or.inl ⟨hfence, rfl⟩⟩
  · cases h
    exact ⟨rfl, Or.inr rfl⟩

theorem inline_newline (h : inline c = .newline) : ∃ cs, c.rest = '\n' :: cs := by
  unfold inline at h
  split at h
  · cases h
  · rename_i x cs hrest
    split at h
    · rename_i hx
      exact ⟨cs, by rw [hrest, hx]⟩
    · split at h
      · cases h
      · split at h <;> cases h

/-- A directive that is refused where the scanner looks for one starts with an opener. -/
theorem isSome_at?_of_rejected {fault : Fault} (h : inline c = .rejected fault n) :
    (Marker.at? c.rest).isSome := by
  unfold inline at h
  split at h
  · cases h
  · rename_i x cs hrest
    split at h
    · cases h
    · split at h
      · cases h
      · rename_i hsome
        rw [hrest]
        simpa [Option.isSome_iff_ne_none] using hsome

/-! ## The scan -/

/-- Everything that a scan comes to from some offset on, in its order: each step was found further on than all
that the steps before it take. -/
structure Finds (f : Flavor) (text : List Char) (k : Nat) (steps : List Step) (found : List Found) :
    Prop where
  steps : found.map (·.step) = steps
  takes : ∀ x ∈ found, f.Takes text x.step x.start x.length
  from_le : ∀ x ∈ found, k ≤ x.start
  ordered : found.Pairwise fun x y => x.start + x.length ≤ y.start

variable {steps : List Step} {found : List Found}

theorem Finds.nil : f.Finds text k [] [] := ⟨rfl, List.forall_mem_nil _, List.forall_mem_nil _, .nil⟩

theorem Finds.mono {j : Nat} (h : f.Finds text k steps found) (hj : j ≤ k) :
    f.Finds text j steps found :=
  ⟨h.steps, h.takes, fun x hx => hj.trans (h.from_le x hx), h.ordered⟩

/-- One more step in front of those behind what it takes. -/
theorem Finds.cons {step : Step} (hstep : f.Takes text step k n)
    (h : f.Finds text (k + n) steps found) :
    f.Finds text k (step :: steps) (⟨step, k, n⟩ :: found) where
  steps := by rw [List.map_cons, h.steps]
  takes := by
    rw [List.forall_mem_cons]
    exact ⟨hstep, h.takes⟩
  from_le := by
    rw [List.forall_mem_cons]
    exact ⟨Nat.le_refl k, fun x hx => (Nat.le_add_right k n).trans (h.from_le x hx)⟩
  ordered := List.pairwise_cons.mpr ⟨h.from_le, h.ordered⟩

theorem Finds.headingSteps (hline : WholeLines (text.take k))
    (h : f.Finds text (k + (headingSteps (.ofOffset text k)).2) steps found) :
    ∃ found, f.Finds text k ((headingSteps (.ofOffset text k)).1 ++ steps) found := by
  unfold Flavor.headingSteps at h ⊢
  split at h
  · rename_i level title m hread
    rw [Cursor.position_ofOffset]
    exact ⟨_, h.cons (.heading hline hread)⟩
  · exact ⟨_, h⟩

/-- From the start of a line or from inside one, a scan finds what is at the cursor or behind it. -/
theorem scanFrom_finds (f : Flavor) (text : List Char) (k : Nat) {atStart : Bool}
    (hline : atStart = true → WholeLines (text.take k)) :
    ∃ found, f.Finds text k (f.scanFrom atStart (.ofOffset text k)) found := by
  -- along the scan, with the offset in place of the cursor that it goes on from
  obtain ⟨c, hc⟩ : ∃ c, c = Cursor.ofOffset text k := ⟨_, rfl⟩
  rw [← hc]
  fun_induction scanFrom f atStart c generalizing k with
  | case1 c e n hstart ih =>
    subst hc
    obtain ⟨language, content, hfence, rfl⟩ := lineStart_fence_eq hstart
    obtain ⟨opening, closing, after, hparts⟩ := fenceLine_parts hfence
    rw [Cursor.position_ofOffset]
    -- behind a fence is the end of the text or the start of a line
    have hrest : ∃ found, f.Finds text (k + n)
        (f.scanFrom true ((Cursor.ofOffset text k).advance n)) found := by
      rcases hparts.wholeLines with hnil | hends
      · rw [scanFrom_nil hnil]
        exact ⟨[], .nil⟩
      · refine ih (k + n) (fun _ => ?_) (Cursor.advance_ofOffset n)
        rw [List.take_add]
        exact (hline rfl).append (Or.inr hends)
    obtain ⟨found, hfound⟩ := hrest
    exact ⟨_, hfound.cons (.fence (hline rfl) hfence)⟩
  | case2 c steps n hstart ih =>
    subst hc
    obtain ⟨found, hfound⟩ := ih (k + n) Bool.false_ne_true.elim (Cursor.advance_ofOffset n)
    obtain ⟨rfl, hsteps⟩ := lineStart_text_eq hstart
    obtain ⟨found, hfound⟩ := hfound.headingSteps (hline rfl)
    rcases hsteps with ⟨hfence, rfl⟩ | rfl
    · -- a fence that is not closed takes nothing: it is read as text
      have hopen := Takes.openFence (hline rfl) hfence
      rw [← Cursor.position_ofOffset] at hopen
      exact ⟨_, Finds.cons (n := 0) hopen hfound⟩
    · exact ⟨found, hfound⟩
  | case3 => exact ⟨[], .nil⟩
  | case4 c hinline ih =>
    subst hc
    obtain ⟨cs, hrest⟩ := inline_newline hinline
    have hends : Terminated (text.take (k + 1)) := by
      rw [Cursor.rest_ofOffset] at hrest
      rw [List.take_add, hrest]
      exact List.suffix_append _ _
    obtain ⟨found, hfound⟩ := ih (k + 1) (fun _ => Or.inr hends) (Cursor.advance_ofOffset 1)
    exact ⟨found, hfound.mono (Nat.le_add_right k 1)⟩
  | case5 c hinline ih =>
    subst hc
    obtain ⟨found, hfound⟩ := ih (k + 1) Bool.false_ne_true.elim (Cursor.advance_ofOffset 1)
    exact ⟨found, hfound.mono (Nat.le_add_right k 1)⟩
  | case6 c d stop hinline ih =>
    subst hc
    obtain ⟨n, rfl, hn, -⟩ := Directive.readAt_eq (inline_directive hinline)
    obtain ⟨found, hfound⟩ := ih (k + n) Bool.false_ne_true.elim (Cursor.advance_ofOffset n)
    have hread := inline_directive hinline
    have hopener := isSome_at?_of_readAt hread
    rw [Cursor.advance_ofOffset] at hread
    rw [Cursor.position_ofOffset]
    exact ⟨_, hfound.cons (.directive hopener hread hn)⟩
  | case7 c fault n hinline ih =>
    subst hc
    obtain ⟨found, hfound⟩ := ih (k + n) Bool.false_ne_true.elim (Cursor.advance_ofOffset n)
    have hopener := isSome_at?_of_rejected hinline
    obtain ⟨hread, rfl⟩ := inline_rejected hinline
    exact ⟨_, hfound.cons (.rejected hopener hread)⟩

/-! ## Events -/

theorem Finds.exists_takes {step : Step} (h : f.Finds text k steps found) (hstep : step ∈ steps) :
    ∃ start n, f.Takes text step start n := by
  rw [← h.steps] at hstep
  obtain ⟨x, hx, rfl⟩ := List.mem_map.mp hstep
  exact ⟨x.start, x.length, h.takes x hx⟩

/-- Events come in the order of their offsets, no two at the same one. -/
theorem Finds.increasing (h : f.Finds text k steps found) :
    ((steps.filterMap Step.event?).map (·.place.offset)).Pairwise (· < ·) := by
  rw [← h.steps, List.filterMap_map, List.pairwise_map, List.pairwise_filterMap]
  refine h.ordered.imp_of_mem ?_
  intro x y hx hy hle e he e' he'
  have hevent : ∀ {z : Found} {e : Event}, z ∈ found → Step.event? z.step = some e →
      e.place.offset = z.start ∧ 0 < z.length := by
    intro z e hz hze
    have htakes := h.takes z hz
    cases hstep : z.step with
    | event e' =>
      rw [hstep] at hze htakes
      obtain rfl : e' = e := Option.some.inj hze
      exact ⟨by rw [htakes.place]; rfl, htakes.pos⟩
    | rejected fault | openFence line =>
      rw [hstep] at hze
      cases hze
  obtain ⟨hx, hpos⟩ := hevent hx he
  obtain ⟨hy, -⟩ := hevent hy he'
  omega

end Flavor

/-- Whether an event stands in a text where it says: a directive at an opener, and anything else at the
start of a line. -/
def Event.StandsIn (text : List Char) (e : Event) : Prop :=
  ∃ offset, offset < text.length ∧ e.place = .ofOffset text offset ∧
    match e with
    | .directive .. => (Marker.at? (text.drop offset)).isSome
    | _ => WholeLines (text.take offset)

theorem Flavor.Takes.standsIn {f : Flavor} {text : List Char} {e : Event} {start n : Nat}
    (h : f.Takes text (.event e) start n) : e.StandsIn text := by
  refine ⟨start, ?_, h.place, ?_⟩
  · by_contra hend
    have hnil : text.drop start = [] := List.drop_eq_nil_of_le (by omega)
    cases h with
    | fence line read =>
      rw [hnil] at read
      have := fenceLine_le read
      have := (fenceLine_length read).1
      simp only [List.length_nil] at *
      omega
    | heading line read =>
      rw [hnil] at read
      cases read
    | directive opener read some =>
      rw [hnil] at opener
      cases opener
  · cases h with
    | fence line read =>
      rename_i language content
      rcases f.fenceEvent_cases language content (.ofOffset text start) with heq | ⟨id, heq⟩ <;>
        rw [heq] <;> exact line
    | heading line read => exact line
    | directive opener read some => exact opener

/-- All that a scan comes to was found behind what the steps before it take, up to where a malformed
directive is passed over. So what a reader sees of a text, lenient or not, is exact: the events are further
and further on, each one on the line that it says, at the start of that line or at an opener, and each fault
is of the characters and on the line that its span says. -/
theorem Flavor.scan_placed (f : Flavor) (text : String) :
    (∃ found, f.Finds text.toList 0 (f.scan text) found) ∧
      ∀ lenient, let reading := Reading.ofText f lenient text
        reading.events <+: (f.scan text).filterMap Step.event? ∧
        (reading.events.map (·.place.offset)).Pairwise (· < ·) ∧
        (∀ e ∈ reading.events, e.StandsIn text.toList) ∧
        ∀ fault, fault ∈ reading.skipped ∨ reading.failure = some fault →
          fault.LocatedIn text.toList := by
  obtain ⟨found, hfound⟩ : ∃ found, f.Finds text.toList 0 (f.scan text) found :=
    scanFrom_finds f text.toList 0 fun _ => .nil
  refine ⟨⟨found, hfound⟩, ?_⟩
  intro lenient reading
  have hfront : reading.events <+: (f.scan text).filterMap Step.event? :=
    Reading.events_prefix lenient (f.scan text)
  refine ⟨hfront, hfound.increasing.sublist (hfront.map _).sublist, ?_, ?_⟩
  · intro e he
    obtain ⟨step, hstep, hevent⟩ := List.mem_filterMap.mp (hfront.subset he)
    obtain rfl : step = .event e := by
      cases step with
      | event e' => rw [Option.some.inj hevent]
      | rejected fault | openFence line => cases hevent
    obtain ⟨start, n, htakes⟩ := hfound.exists_takes hstep
    exact htakes.standsIn
  · intro fault hfault
    exact located_of_rejected (Reading.rejected_of_fault hfault)

end Literate
