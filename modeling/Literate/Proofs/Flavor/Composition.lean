import Literate.Proofs.Flavor.Rendering
import Literate.Proofs.Flavor.Shift
import Literate.Proofs.Reading
import Literate.Proofs.Text.Lines

/-!
# Documents one after the other

A document that ends its last line, closes every fence that it opens and has nothing malformed in
it is scanned on its own, whatever stands behind it: no reader that comes to an end in it has
looked at what follows. What stands behind it is then scanned as a document of its own, further on
(`scan_append`).

What carries this is the newline at the end (`Terminated`). Whatever a reader looks for in a line
stops at a newline at the latest, so text behind it makes no difference. `Divides` says so of the
whole scan from a place on. It holds at the end of the text, and each thing that the scanner does
keeps it.
-/

namespace Literate

open Directive (Marker)
open Text (isSpaceOrTab)

/-- The same place with more text behind the one that is ahead. -/
def Cursor.extend (c : Cursor) (tail : List Char) : Cursor := { c with rest := c.rest ++ tail }

namespace Cursor

variable {c : Cursor} {n : Nat} (tail : List Char)

@[simp] theorem rest_extend : (c.extend tail).rest = c.rest ++ tail := rfl

@[simp] theorem position_extend : (c.extend tail).position = c.position := rfl

/-- A move inside the text is the same with more text behind it. -/
theorem advance_extend (h : n ≤ c.rest.length) :
    (c.extend tail).advance n = (c.advance n).extend tail := by
  simp only [advance, extend, List.take_append_of_le_length h, List.drop_append_of_le_length h]

/-- The cursor behind a text, reached on the way. -/
theorem advance_to_end (h : n ≤ c.rest.length) :
    (c.advance n).advance (c.advance n).rest.length = c.advance c.rest.length := by
  rw [advance_advance, length_rest_advance, Nat.add_sub_cancel' h]

end Cursor

/-! ## Directives -/

namespace Directive

variable {c stop : Cursor} {cs : List Char}

namespace Marker

theorem newline_not_mem_opener (m : Marker) : '\n' ∉ m.opener := by cases m <;> decide

theorem newline_not_mem_closer (m : Marker) : '\n' ∉ m.closer := by cases m <;> decide

/-- What follows an opener in its line decides whether it opens a directive. -/
theorem admits_append (m : Marker) (h : Terminated cs) (tail : List Char) :
    m.admits (cs ++ tail) = m.admits cs := by
  obtain ⟨c, cs, rfl⟩ := List.exists_cons_of_ne_nil h.ne_nil
  have hcloses : m.closes (c :: cs ++ tail) = m.closes (c :: cs) :=
    h.isPrefixOf_append m.newline_not_mem_closer tail
  rw [List.cons_append] at hcloses ⊢
  rw [admits, admits, hcloses]

theorem opens_append (m : Marker) (h : Terminated cs) (tail : List Char) :
    m.opens (cs ++ tail) = m.opens cs := by
  rw [opens, opens, h.isPrefixOf_append m.newline_not_mem_opener]
  by_cases hp : m.opener.isPrefixOf cs = true
  · have hbehind := h.drop_of_isPrefixOf m.newline_not_mem_opener hp
    rw [hbehind.drop_append, m.admits_append hbehind]
  · rw [Bool.not_eq_true] at hp
    rw [hp, Bool.false_and, Bool.false_and]

theorem at?_extend (h : Terminated cs) (tail : List Char) : at? (cs ++ tail) = at? cs := by
  rw [at?, at?, opens_append _ h, opens_append _ h]

end Marker

theorem Written.not_terminated (w : Written) : ¬ Terminated w.chars := by
  have hne : w.marker.closer ≠ [] := List.length_pos_iff.mp w.marker.closer_pos
  rw [Written.chars, Terminated.append_iff hne]
  intro hends
  exact w.marker.newline_not_mem_closer hends.newline_mem

/-- A directive that is read in whole lines is read with more text behind them, and what follows it
ends its last line as well. -/
theorem readAt_extend {d : Directive} (h : readAt c = .ok (d, stop)) (hends : Terminated c.rest)
    (tail : List Char) :
    readAt (c.extend tail) = .ok (d, stop.extend tail) ∧ Terminated stop.rest := by
  obtain ⟨w, settings, rest, hw, hc, rfl, rfl⟩ := readAt_sound h
  have hlength : w.chars.length ≤ c.rest.length := by
    rw [hc, List.length_append]
    omega
  have hc' : (c.extend tail).rest = w.chars ++ (rest ++ tail) := by
    rw [Cursor.rest_extend, hc, List.append_assoc]
  refine ⟨?_, ?_⟩
  · rw [readAt_complete hw hc', Cursor.advance_extend tail hlength]
    rfl
  · rw [Cursor.rest_advance_append hc]
    rw [hc] at hends
    exact hends.behind w.not_terminated

end Directive

namespace Flavor

variable {f : Flavor} {c : Cursor} {fence cs : List Char}

/-! ## Headings -/

/-- The marks of a heading and the blanks behind them do not reach to the end of the line. -/
theorem terminated_behind_marks (h : Terminated cs) :
    let level := (cs.takeWhile (· == '#')).length
    let blanks := ((cs.drop level).takeWhile isSpaceOrTab).length
    Terminated (cs.drop level) ∧ Terminated (cs.drop (level + blanks)) := by
  intro level blanks
  have hmarks : Terminated (cs.drop level) := h.drop_takeWhile (by decide)
  have hblanks := hmarks.drop_takeWhile isSpaceOrTab_newline
  rw [List.drop_drop] at hblanks
  exact ⟨hmarks, hblanks⟩

theorem heading?_append (h : Terminated cs) (tail : List Char) :
    heading? (cs ++ tail) = heading? cs := by
  obtain ⟨hmarks, hblanks⟩ := terminated_behind_marks h
  have hlevel := h.takeWhile_append (p := (· == '#')) (by decide) tail
  have htitle := hblanks.takeWhile_append (p := (· != '\n')) (by decide) tail
  simp only [heading?, hlevel, hmarks.drop_append,
    hmarks.takeWhile_append isSpaceOrTab_newline, hblanks.drop_append, htitle]

theorem headingSteps_terminated (h : Terminated c.rest) :
    Terminated (c.rest.drop (headingSteps c).2) := by
  unfold headingSteps heading?
  simp only
  split
  · rename_i heq
    split at heq
    · cases heq
    · cases heq
      exact (terminated_behind_marks h).2
  · exact h

theorem headingSteps_extend (h : Terminated c.rest) (tail : List Char) :
    headingSteps (c.extend tail) = headingSteps c := by
  rw [headingSteps, headingSteps, Cursor.rest_extend, heading?_append h, Cursor.position_extend]

/-! ## Fences -/

theorem opening?_append (hfence : '\n' ∉ fence) (h : Terminated cs) (tail : List Char) :
    opening? fence (cs ++ tail) = opening? fence cs := by
  unfold opening?
  rw [h.isPrefixOf_append hfence]
  split
  · rename_i hp
    have hbehind := h.drop_of_isPrefixOf hfence hp
    have hline := hbehind.drop_takeWhile (p := (· != '\n')) (by decide)
    rw [List.drop_drop] at hline
    rw [hbehind.drop_append, hbehind.takeWhile_append (by decide)]
    simp only [hline.drop_append, List.isEmpty_iff, List.append_eq_nil_iff, hline.ne_nil, false_and]
  · rfl

theorem closesFence_append (hfence : '\n' ∉ fence) (h : Terminated cs) (tail : List Char) :
    closesFence fence (cs ++ tail) = closesFence fence cs := by
  rw [closesFence, closesFence, h.isPrefixOf_append hfence]
  by_cases hp : fence.isPrefixOf cs = true
  · have hbehind := h.drop_of_isPrefixOf hfence hp
    have hblanks := hbehind.dropWhile isSpaceOrTab_newline
    obtain ⟨x, rest, hrest⟩ := List.exists_cons_of_ne_nil hblanks.ne_nil
    rw [hbehind.drop_append, hbehind.dropWhile_append isSpaceOrTab_newline, hrest, List.cons_append]
  · rw [Bool.not_eq_true] at hp
    rw [hp, Bool.false_and, Bool.false_and]

/-- A closing line is as long whatever follows it, and the newline behind it is in the text. -/
theorem closingLength_append (hfence : '\n' ∉ fence) (h : Terminated cs)
    (hcloses : closesFence fence cs = true) (tail : List Char) :
    closingLength fence (cs ++ tail) = closingLength fence cs ∧
      Terminated (cs.drop (closingLength fence cs)) := by
  rw [closesFence, Bool.and_eq_true] at hcloses
  have hbehind := h.drop_of_isPrefixOf hfence hcloses.1
  have hblanks := hbehind.drop_takeWhile isSpaceOrTab_newline
  rw [List.drop_drop] at hblanks
  refine ⟨?_, hblanks⟩
  rw [closingLength, closingLength, hbehind.drop_append,
    hbehind.takeWhile_append isSpaceOrTab_newline]

theorem contentLength?_closes {atStart : Bool} {n : Nat}
    (h : contentLength? fence atStart cs = some n) :
    n ≤ cs.length ∧ closesFence fence (cs.drop n) = true := by
  fun_induction contentLength? fence atStart cs generalizing n with
  | case1 atStart cs hcloses =>
    cases h
    rw [Bool.and_eq_true] at hcloses
    exact ⟨Nat.zero_le _, hcloses.2⟩
  | case2 => cases h
  | case3 atStart x cs _ ih =>
    obtain ⟨k, hk, rfl⟩ := Option.map_eq_some_iff.mp h
    obtain ⟨hle, hcloses⟩ := ih hk
    refine ⟨?_, hcloses⟩
    rw [List.length_cons]
    omega

theorem closesFence_nil (hne : fence ≠ []) : closesFence fence [] = false := by
  cases fence with
  | nil => exact absurd rfl hne
  | cons x fence => rfl

theorem closingLength_le (h : closesFence fence cs = true) :
    closingLength fence cs ≤ cs.length := by
  rw [closesFence, Bool.and_eq_true, List.isPrefixOf_iff_prefix] at h
  have hfence := h.1.length_le
  have hblanks := (List.takeWhile_sublist isSpaceOrTab (l := cs.drop fence.length)).length_le
  rw [List.length_drop] at hblanks
  rw [closingLength]
  omega

/-- The line that closes a fence is one of the whole lines. -/
theorem terminated_of_closes (hne : fence ≠ []) (hends : cs = [] ∨ Terminated cs)
    (h : closesFence fence cs = true) : Terminated cs := by
  refine hends.resolve_left ?_
  rintro rfl
  rw [closesFence_nil hne] at h
  cases h

/-- A fence that is closed in whole lines is closed at the same line whatever follows them. -/
theorem contentLength?_append (hne : fence ≠ []) (hfence : '\n' ∉ fence) {atStart : Bool} {n : Nat}
    (hends : cs = [] ∨ Terminated cs) (h : contentLength? fence atStart cs = some n)
    (tail : List Char) : contentLength? fence atStart (cs ++ tail) = some n := by
  induction cs generalizing atStart n with
  | nil =>
    rw [contentLength?.eq_def, closesFence_nil hne, Bool.and_false] at h
    cases h
  | cons x cs ih =>
    have hends : Terminated (x :: cs) := hends.resolve_left (List.cons_ne_nil x cs)
    have hcloses := closesFence_append hfence hends tail
    rw [contentLength?.eq_def] at h ⊢
    rw [hcloses]
    split at h
    · rename_i hfirst
      rw [if_pos hfirst]
      exact h
    · rename_i hfirst
      obtain ⟨k, hk, rfl⟩ := Option.map_eq_some_iff.mp h
      rw [if_neg hfirst]
      show (contentLength? fence (x == '\n') (cs ++ tail)).map (· + 1) = _
      rw [ih (hends.drop 1) hk]
      rfl

/-- A fence is closed behind its opening line or it is not, whatever follows the text. -/
theorem fenceLine_append (hne : fence ≠ []) (hfence : '\n' ∉ fence) (h : Terminated cs)
    (hclosed : fenceLine fence cs ≠ .unclosed) (tail : List Char) :
    fenceLine fence (cs ++ tail) = fenceLine fence cs := by
  unfold fenceLine at hclosed ⊢
  rw [opening?_append hfence h]
  cases ho : opening? fence cs with
  | none => rfl
  | some o =>
    have hinside := h.drop o.length
    have hdrop : (cs ++ tail).drop o.length = cs.drop o.length ++ tail :=
      List.drop_append_of_le_length (opening?_length ho).2
    simp only [ho, hdrop] at hclosed ⊢
    cases hn : contentLength? fence true (cs.drop o.length) with
    | none =>
      rw [hn] at hclosed
      exact absurd rfl hclosed
    | some n =>
      obtain ⟨hle, hcloses⟩ := contentLength?_closes hn
      have hrest := h.drop (o.length + n)
      rw [← List.drop_drop] at hrest
      have hline := terminated_of_closes hne hrest hcloses
      obtain ⟨hlength, hnewline⟩ := closingLength_append hfence hline hcloses tail
      rw [List.drop_drop] at hnewline
      rw [contentLength?_append hne hfence hinside hn]
      simp only [hline.drop_append, hlength, hnewline.drop_append,
        List.take_append_of_le_length hle, List.isEmpty_iff, List.append_eq_nil_iff,
        hnewline.ne_nil, false_and]

/-- What a closed fence takes stands in the text. -/
theorem fenceLine_le {language content : List Char} {n : Nat}
    (h : fenceLine fence cs = .closed language content n) : n ≤ cs.length := by
  unfold fenceLine at h
  split at h
  · cases h
  · rename_i o ho
    have hopening := (opening?_length ho).2
    simp only at h
    split at h
    · cases h
    · rename_i k hk
      obtain ⟨hle, hcloses⟩ := contentLength?_closes hk
      have hclosing := closingLength_le hcloses
      rw [List.length_drop] at hle hclosing
      rw [List.length_drop] at hclosing
      cases h
      split
      · omega
      · rename_i hrest
        have hnewline := List.length_pos_iff.mpr fun hnil => hrest (List.isEmpty_iff.mpr hnil)
        rw [List.length_drop, List.length_drop] at hnewline
        omega

/-! ## Scanning on -/

theorem fenceLine_of_lineStart {e : Event} {n : Nat} (h : f.lineStart c = .fence e n) :
    ∃ language content, fenceLine f.fence.toList c.rest = .closed language content n := by
  unfold lineStart at h
  split at h
  · rename_i language content k hfence
    cases h
    exact ⟨language, content, hfence⟩
  · cases h
  · cases h

/-- At the start of whole lines the same is done whatever stands behind them. -/
theorem lineStart_extend (hne : f.fence.toList ≠ []) (hfence : '\n' ∉ f.fence.toList)
    (h : Terminated c.rest) (hclosed : fenceLine f.fence.toList c.rest ≠ .unclosed)
    {tail : List Char} : f.lineStart (c.extend tail) = f.lineStart c := by
  rw [lineStart, lineStart, Cursor.rest_extend, fenceLine_append hne hfence h hclosed,
    headingSteps_extend h]
  rfl

/-- Where no fence is left open, a line is entered behind the marks of a heading or at its start. -/
theorem lineStart_text {steps : List Step} {n : Nat} (h : f.lineStart c = .text steps n)
    (hevents : ∀ s ∈ steps, ∃ e, s = .event e) :
    fenceLine f.fence.toList c.rest ≠ .unclosed ∧ n = (headingSteps c).2 := by
  unfold lineStart at h
  split at h
  · cases h
  · cases h
    obtain ⟨e, he⟩ := hevents _ List.mem_cons_self
    cases he
  · rename_i hnone
    cases h
    exact ⟨by simp [hnone], rfl⟩

/-- The same finding with more text behind it. -/
def Inline.extend (tail : List Char) : Inline → Inline
  | directive d stop => directive d (stop.extend tail)
  | found => found

/-- Inside whole lines the same is found whatever stands behind them, unless a directive is
malformed. -/
theorem inline_extend (h : Terminated c.rest) (hsound : ∀ fault n, inline c ≠ .rejected fault n)
    (tail : List Char) : inline (c.extend tail) = (inline c).extend tail := by
  obtain ⟨x, cs, hc⟩ := List.exists_cons_of_ne_nil h.ne_nil
  have hat : Marker.at? (x :: (cs ++ tail)) = Marker.at? (x :: cs) := by
    rw [hc] at h
    exact Marker.at?_extend h tail
  unfold inline at hsound ⊢
  simp only [Cursor.rest_extend, hc, List.cons_append, hat] at hsound ⊢
  by_cases hx : x = '\n'
  · rw [if_pos hx, if_pos hx]
    rfl
  · rw [if_neg hx, if_neg hx]
    by_cases hnone : (Marker.at? (x :: cs)).isNone = true
    · rw [if_pos hnone, if_pos hnone]
      rfl
    · rw [if_neg hnone, if_neg hnone]
      cases hread : Directive.readAt c with
      | ok found =>
        rw [(Directive.readAt_extend hread h tail).1]
        rfl
      | error fault =>
        rw [if_neg hx, if_neg hnone, hread] at hsound
        exact absurd rfl (hsound fault _)

theorem inline_done (h : inline c = .done) : c.rest = [] := by
  unfold inline at h
  split at h
  · assumption
  · split at h
    · cases h
    · split at h
      · cases h
      · split at h <;> cases h

/-- A character that means nothing is not the newline at the end. -/
theorem inline_char (h : Terminated c.rest) (hchar : inline c = .char) :
    Terminated (c.advance 1).rest := by
  obtain ⟨x, cs, hc⟩ := List.exists_cons_of_ne_nil h.ne_nil
  unfold inline at hchar
  rw [hc] at h hchar
  simp only at hchar
  split at hchar
  · cases hchar
  · rename_i hx
    have hline : Terminated ([x] ++ cs) := h
    rw [Cursor.rest_advance, hc]
    refine hline.behind ?_
    intro hends
    exact hx (List.mem_singleton.mp hends.newline_mem).symm

theorem scanFrom_nil (h : c.rest = []) (atStart : Bool) : f.scanFrom atStart c = [] := by
  cases atStart with
  | false => exact scanFrom_done h
  | true =>
    have hopening : opening? f.fence.toList [] = none := by simp [opening?]
    have hstart : f.lineStart c = .text [] 0 := by
      rw [lineStart, h, fenceLine, hopening, headingSteps, h]
      rfl
    rw [scanFrom_start, hstart]
    exact scanFrom_done h

/-- Whether a scan with more text behind is the one without it, and then goes on in that text as at
the start of a line. -/
def Divides (f : Flavor) (tail : List Char) (atStart : Bool) (c : Cursor) : Prop :=
  f.scanFrom atStart (c.extend tail) =
    f.scanFrom atStart c ++ f.scanFrom true ((c.advance c.rest.length).extend tail)

variable {tail : List Char} {n : Nat}

theorem Divides.scanFrom_advance {atStart : Bool} (h : Divides f tail atStart (c.advance n))
    (hle : n ≤ c.rest.length) :
    f.scanFrom atStart ((c.extend tail).advance n) =
      f.scanFrom atStart (c.advance n) ++
        f.scanFrom true ((c.advance c.rest.length).extend tail) := by
  rw [Cursor.advance_extend tail hle, h, Cursor.advance_to_end hle]

theorem divides_end (h : c.rest = []) : Divides f tail true c := by
  rw [Divides, scanFrom_nil h, h, List.length_nil, Cursor.advance_zero, List.nil_append]

theorem divides_fence (hne : f.fence.toList ≠ []) (hfence : '\n' ∉ f.fence.toList)
    (hends : Terminated c.rest) {e : Event} (hstart : f.lineStart c = .fence e n)
    (h : Divides f tail true (c.advance n)) : Divides f tail true c := by
  obtain ⟨language, content, hline⟩ := fenceLine_of_lineStart hstart
  have hsame : f.lineStart (c.extend tail) = .fence e n := by
    rw [lineStart_extend hne hfence hends (by simp [hline]), hstart]
  rw [Divides, scanFrom_start f (c.extend tail), scanFrom_start f c, hsame, hstart]
  simp only [h.scanFrom_advance (fenceLine_le hline), List.cons_append]

theorem divides_text (hne : f.fence.toList ≠ []) (hfence : '\n' ∉ f.fence.toList)
    (hends : Terminated c.rest) {steps : List Step} (hstart : f.lineStart c = .text steps n)
    (hclosed : fenceLine f.fence.toList c.rest ≠ .unclosed) (hle : n ≤ c.rest.length)
    (h : Divides f tail false (c.advance n)) : Divides f tail true c := by
  have hsame : f.lineStart (c.extend tail) = .text steps n := by
    rw [lineStart_extend hne hfence hends hclosed, hstart]
  rw [Divides, scanFrom_start f (c.extend tail), scanFrom_start f c, hsame, hstart]
  simp only [h.scanFrom_advance hle, List.append_assoc]

theorem divides_newline (hends : Terminated c.rest) (hinline : inline c = .newline)
    (h : Divides f tail true (c.advance 1)) : Divides f tail false c := by
  have hsame : inline (c.extend tail) = .newline := by
    rw [inline_extend hends (by simp [hinline]), hinline]
    rfl
  rw [Divides, scanFrom_inside f (c.extend tail), scanFrom_inside f c, hsame, hinline]
  exact h.scanFrom_advance (rest_ne_nil_of_inline (by simp [hinline]))

theorem divides_char (hends : Terminated c.rest) (hinline : inline c = .char)
    (h : Divides f tail false (c.advance 1)) : Divides f tail false c := by
  have hsame : inline (c.extend tail) = .char := by
    rw [inline_extend hends (by simp [hinline]), hinline]
    rfl
  rw [Divides, scanFrom_inside f (c.extend tail), scanFrom_inside f c, hsame, hinline]
  exact h.scanFrom_advance (rest_ne_nil_of_inline (by simp [hinline]))

theorem divides_directive (hends : Terminated c.rest) {d : Directive} {stop : Cursor}
    (hinline : inline c = .directive d stop) (h : Divides f tail false stop) :
    Divides f tail false c := by
  obtain ⟨k, rfl, -, hle⟩ := Directive.readAt_eq (inline_directive hinline)
  have hsame : inline (c.extend tail) = .directive d ((c.extend tail).advance k) := by
    rw [inline_extend hends (by simp [hinline]), hinline, Cursor.advance_extend tail hle]
    rfl
  rw [Divides, scanFrom_inside f (c.extend tail), scanFrom_inside f c, hsame, hinline]
  simp only [h.scanFrom_advance hle, Cursor.position_extend, List.cons_append]

/-- A scan of whole lines in which every fence is closed and nothing is malformed divides at their
end. -/
theorem divides_lines (hne : f.fence.toList ≠ []) (hfence : '\n' ∉ f.fence.toList)
    {atStart : Bool} (hends : Terminated c.rest)
    (hevents : ∀ s ∈ f.scanFrom atStart c, ∃ e, s = .event e) : Divides f tail atStart c := by
  -- along the scan: the newline at the end is still ahead, or passed over by a fence or as itself
  fun_induction scanFrom f atStart c with
  | case1 c e n hstart ih =>
    refine divides_fence hne hfence hends hstart ?_
    rcases hends.drop n with hnil | hrest
    · exact divides_end hnil
    · exact ih hrest fun s hs => hevents s (List.mem_cons_of_mem _ hs)
  | case2 c steps n hstart ih =>
    obtain ⟨hclosed, rfl⟩ :=
      lineStart_text hstart fun s hs => hevents s (List.mem_append_left _ hs)
    have hmarks := headingSteps_terminated hends
    have hle : (headingSteps c).2 ≤ c.rest.length := by
      have hlt := List.length_pos_iff.mpr hmarks.ne_nil
      rw [List.length_drop] at hlt
      omega
    exact divides_text hne hfence hends hstart hclosed hle
      (ih hmarks fun s hs => hevents s (List.mem_append_right _ hs))
  | case3 c hinline => exact absurd (inline_done hinline) hends.ne_nil
  | case4 c hinline ih =>
    refine divides_newline hends hinline ?_
    rcases hends.drop 1 with hnil | hrest
    · exact divides_end hnil
    · exact ih hrest hevents
  | case5 c hinline ih =>
    exact divides_char hends hinline (ih (inline_char hends hinline) hevents)
  | case6 c d stop hinline ih =>
    have hstop := (Directive.readAt_extend (inline_directive hinline) hends tail).2
    exact divides_directive hends hinline
      (ih hstop fun s hs => hevents s (List.mem_cons_of_mem _ hs))
  | case7 c fault n hinline ih =>
    obtain ⟨e, he⟩ := hevents _ List.mem_cons_self
    cases he

/-- A document that ends its last line, closes its fences and has nothing malformed in it adds its
steps in front of those of what follows. -/
theorem scan_append {f : Flavor} {a : String} (hne : f.fence.toList ≠ [])
    (hfence : '\n' ∉ f.fence.toList) (hends : a = "" ∨ Terminated a.toList)
    (hevents : ∀ s ∈ f.scan a, ∃ e, s = .event e) (b : String) :
    f.scan (a ++ b) = f.scan a ++ (f.scan b).map (Step.shift (.behind a.toList)) := by
  have hbehind : ((Cursor.ofText a.toList).advance a.toList.length).extend b.toList =
      (Cursor.ofText b.toList).shift (.behind a.toList) := by
    rw [Cursor.ofText_shift a.toList, Cursor.advance, Cursor.advance, Cursor.extend]
    simp [Cursor.ofText]
  have hwhole : f.scan (a ++ b) = f.scanFrom true ((Cursor.ofText a.toList).extend b.toList) := by
    rw [scan, String.toList_append]
    rfl
  rw [hwhole, scan, scan, ← scanFrom_shift, ← hbehind]
  rcases hends with rfl | hends
  · exact divides_end rfl
  · exact divides_lines hne hfence hends hevents

end Flavor

/-- A document that ends its last line, closes its fences and has nothing malformed in it is read
before what follows as it is on its own, and what follows is read as it is on its own, only
further on. -/
theorem Reading.ofText_append {f : Flavor} {a : String} (hne : f.fence ≠ "")
    (hfence : '\n' ∉ f.fence.toList) (hends : a = "" ∨ Terminated a.toList)
    (hsound : (ofText f false a).failure = none) (hclosed : ∀ line, .openFence line ∉ f.scan a)
    (b : String) :
    ofText f false (a ++ b) =
      let behind := (ofText f false b).shift (.behind a.toList)
      ⟨(ofText f false a).events ++ behind.events, [], behind.failure⟩ := by
  have hrejected : ∀ fault, .rejected fault ∉ f.scan a := failure_eq_none_iff.mp hsound
  have hevents : ∀ s ∈ f.scan a, ∃ e, s = .event e := by
    intro s hs
    cases s with
    | event e => exact ⟨e, rfl⟩
    | rejected fault => exact absurd hs (hrejected fault)
    | openFence line => exact absurd hs (hclosed line)
  have hfirst := ofSteps_append hrejected false []
  have hscan := Flavor.scan_append (by simpa using hne) hfence hends hevents b
  rw [List.append_nil] at hfirst
  rw [ofText, hscan, ofSteps_append hrejected, ofSteps_shift, ofText, ofText, hfirst]
  simp [ofSteps, shift, skipped_of_fatal]

/-- A document with directives and fences, and behind it one with a malformed directive. -/
theorem Reading.ofText_append_guide :
    let a := "## Guide\n<?btxt filename=\"a.py\"\n?>\n```python\n# no title\n```\n" ++
      "```btxt\n'''\nx\n'''\n```\nThe end.\n"
    let b := "<?btxt pre='q'?>\n<?btxt y?>\n"
    Flavor.github.fence ≠ "" ∧ '\n' ∉ Flavor.github.fence.toList ∧ Terminated a.toList ∧
      (ofText .github false a).failure = none ∧
      (∀ line, .openFence line ∉ Flavor.github.scan a) ∧
      ofText .github false (a ++ b) =
        let behind := (ofText .github false b).shift (.behind a.toList)
        ⟨(ofText .github false a).events ++ behind.events, [], behind.failure⟩ := by
  intro a b
  have hfence : '\n' ∉ Flavor.github.fence.toList := by decide
  have hends : Terminated a.toList := by
    rw [Terminated, ← List.isSuffixOf_iff_suffix]
    decide +kernel
  have htext : a.toList = guide.flatMap (Block.chars .github) := by decide +kernel
  have hscan : Flavor.github.scan a = (blockEvents .github .start guide).map .event :=
    scanFrom_blocks (Or.inl rfl) guide_wellFormed htext
  have hsound : (ofText .github false a).failure = none := by
    rw [ofText, failure_eq_none_iff, hscan]
    simp
  have hclosed : ∀ line, .openFence line ∉ Flavor.github.scan a := by
    rw [hscan]
    simp
  exact ⟨by decide, hfence, hends, hsound, hclosed,
    ofText_append (by decide) hfence (Or.inr hends) hsound hclosed b⟩

end Literate
