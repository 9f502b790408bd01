import Literate.Flavor.Scan
import Literate.Proofs.Directive.Acceptance
import Literate.Proofs.Text.Trimming

/-!
# What the scanner makes of a line

One lemma for each thing that a line can be: plain text, a directive, a heading or the two lines of
a fence with what is between them. The lemmas speak of a text that starts with the line and goes on in
any way, so a document is scanned by applying them one after the other.

`ClosingLine` and `HeadingLine` say of a single line what `closesFence` and `heading?` find out at
the start of a text.
-/

namespace Literate.Flavor

open Directive (isQualifierChar Marker)
open Text (isBlank isSpaceOrTab strip)

/-- The line that closes a fence: the fence alone, with spaces and tabs behind it. -/
def ClosingLine (fence line : List Char) : Prop :=
  ∃ blanks : List Char, (∀ x ∈ blanks, isSpaceOrTab x = true) ∧ line = fence ++ blanks

theorem closingLine_iff {fence line : List Char} :
    ClosingLine fence line ↔
      fence <+: line ∧ (line.drop fence.length).all isSpaceOrTab = true := by
  rw [List.all_eq_true]
  constructor
  · rintro ⟨blanks, hblanks, rfl⟩
    exact ⟨List.prefix_append _ _, by simpa using hblanks⟩
  · rintro ⟨⟨blanks, rfl⟩, hblanks⟩
    exact ⟨blanks, by simpa using hblanks, rfl⟩

instance (fence line : List Char) : Decidable (ClosingLine fence line) :=
  decidable_of_iff _ closingLine_iff.symm

/-- A line that starts with the marks of a heading. -/
def HeadingLine (line : List Char) : Prop :=
  ∃ (marks : List Char) (x : Char) (title : List Char), marks ≠ [] ∧ (∀ y ∈ marks, y = '#') ∧
    isSpaceOrTab x = true ∧ line = marks ++ x :: title

theorem isSpaceOrTab_iff {x : Char} : isSpaceOrTab x = true ↔ x = ' ' ∨ x = '\t' := by
  simp [isSpaceOrTab]

theorem isBlank_of_isSpaceOrTab {x : Char} (h : isSpaceOrTab x = true) : isBlank x = true := by
  rcases isSpaceOrTab_iff.mp h with rfl | rfl <;> decide

theorem isSpaceOrTab_newline : isSpaceOrTab '\n' = false := by decide

/-! ## The scanner's two steps -/

variable {f : Flavor} {c : Cursor}

theorem scanFrom_start (f : Flavor) (c : Cursor) :
    f.scanFrom true c =
      match f.lineStart c with
      | .fence e n => .event e :: f.scanFrom true (c.advance n)
      | .text steps n => steps ++ f.scanFrom false (c.advance n) := by
  conv => lhs; rw [scanFrom]
  split <;> rename_i h <;> rw [h]

theorem scanFrom_inside (f : Flavor) (c : Cursor) :
    f.scanFrom false c =
      match inline c with
      | .done => []
      | .newline => f.scanFrom true (c.advance 1)
      | .char => f.scanFrom false (c.advance 1)
      | .directive d stop => .event (.directive d c.position) :: f.scanFrom false stop
      | .rejected fault n => .rejected fault :: f.scanFrom false (c.advance n) := by
  conv => lhs; rw [scanFrom]
  split <;> rename_i h <;> rw [h]

theorem scanFrom_done (h : c.rest = []) : f.scanFrom false c = [] := by
  have hinline : inline c = .done := by rw [inline, h]
  rw [scanFrom_inside, hinline]

theorem scanFrom_newline {rest : List Char} (h : c.rest = '\n' :: rest) :
    f.scanFrom false c = f.scanFrom true (c.advance 1) := by
  have hinline : inline c = .newline := by
    rw [inline, h]
    exact if_pos rfl
  rw [scanFrom_inside, hinline]

theorem at?_eq_none {x : Char} (hx : x ≠ '<') (cs : List Char) : Marker.at? (x :: cs) = none := by
  have hopens : ∀ k : Marker, k.opens (x :: cs) = false := by
    intro k
    cases k <;> simp [Marker.opens, Marker.opener, Ne.symm hx]
  rw [Marker.at?, hopens, hopens]
  rfl

/-- Text without newlines and without angle brackets means nothing. -/
theorem scanFrom_plain {text rest : List Char} (h : c.rest = text ++ rest)
    (htext : ∀ x ∈ text, x ≠ '\n' ∧ x ≠ '<') :
    f.scanFrom false c = f.scanFrom false (c.advance text.length) := by
  induction text generalizing c with
  | nil => rw [List.length_nil, Cursor.advance_zero]
  | cons x text ih =>
    obtain ⟨hnewline, hangle⟩ := htext x (by simp)
    have hinline : inline c = .char := by
      rw [inline, h]
      show (if x = '\n' then _ else _) = _
      rw [if_neg hnewline, at?_eq_none hangle]
      rfl
    have hstep : f.scanFrom false c = f.scanFrom false (c.advance 1) := by
      rw [scanFrom_inside, hinline]
    rw [hstep, ih (by rw [Cursor.rest_advance, h]; rfl) fun y hy => htext y (by simp [hy]),
      Cursor.advance_advance, List.length_cons, Nat.add_comm]

/-- The rest of a line without directives. -/
theorem scanFrom_plainLine {text rest : List Char} (h : c.rest = text ++ '\n' :: rest)
    (htext : ∀ x ∈ text, x ≠ '\n' ∧ x ≠ '<') :
    f.scanFrom false c = f.scanFrom true (c.advance (text.length + 1)) := by
  rw [scanFrom_plain h htext, scanFrom_newline (Cursor.rest_advance_append h),
    Cursor.advance_advance]

/-- A directive that is read starts with an opener. -/
theorem isSome_at?_of_readAt {d : Directive} {stop : Cursor} (h : Directive.readAt c = .ok (d, stop)) :
    (Marker.at? c.rest).isSome := by
  rw [Directive.readAt] at h
  cases hopener : Marker.at? c.rest with
  | none =>
    rw [hopener] at h
    cases h
  | some m => rfl

/-- At an opener the scanner reads a directive, or passes over what it cannot read. -/
theorem inline_of_opener (h : (Marker.at? c.rest).isSome) :
    inline c =
      match Directive.readAt c with
      | .ok (d, stop) => .directive d stop
      | .error fault => .rejected fault (Directive.skipLength c.rest) := by
  unfold inline
  cases hrest : c.rest with
  | nil =>
    rw [hrest] at h
    cases h
  | cons x cs =>
    rw [hrest] at h
    have hnewline : x ≠ '\n' := by
      rintro rfl
      rw [at?_eq_none (by decide)] at h
      cases h
    have hopener : ¬ (Marker.at? (x :: cs)).isNone = true := by
      rw [Option.isNone_iff_eq_none]
      exact Option.isSome_iff_ne_none.mp h
    exact (if_neg hnewline).trans (if_neg hopener)

theorem scanFrom_directive {d : Directive} {stop : Cursor}
    (h : Directive.readAt c = .ok (d, stop)) :
    f.scanFrom false c = .event (.directive d c.position) :: f.scanFrom false stop := by
  rw [scanFrom_inside, inline_of_opener (isSome_at?_of_readAt h), h]

/-! ## Headings -/

theorem heading?_eq_none {cs : List Char} (h : ¬ HeadingLine cs) : heading? cs = none := by
  rw [heading?]
  refine if_pos ?_
  rw [Bool.or_eq_true, decide_eq_true_eq, decide_eq_true_eq, List.length_eq_zero_iff,
    List.length_eq_zero_iff]
  by_contra hno
  obtain ⟨hmarks, hblanks⟩ := not_or.mp hno
  obtain ⟨rest, hrest⟩ := List.takeWhile_prefix (· == '#') (l := cs)
  have hall : ∀ y ∈ cs.takeWhile (· == '#'), y = '#' := by
    intro y hy
    simpa using List.mem_takeWhile_imp hy
  have hdrop : (cs.takeWhile (· == '#') ++ rest).drop (cs.takeWhile (· == '#')).length = rest :=
    List.drop_left
  rw [hrest] at hdrop
  rw [hdrop] at hblanks
  -- marks and a blank behind them are what a heading line starts with
  cases rest with
  | nil => exact hblanks rfl
  | cons x title =>
    by_cases hx : isSpaceOrTab x = true
    · exact h ⟨_, x, title, hmarks, hall, hx, hrest.symm⟩
    · exact hblanks (List.takeWhile_cons_of_neg hx)

theorem not_headingLine_of_head {cs : List Char} (h : ∀ x ∈ cs.head?, x ≠ '#') :
    ¬ HeadingLine cs := by
  rintro ⟨marks, x, title, hne, hmarks, -, rfl⟩
  obtain ⟨y, marks, rfl⟩ := List.exists_cons_of_ne_nil hne
  exact h y rfl (hmarks y (by simp))

/-- Nothing behind the line makes a heading of it. -/
theorem not_headingLine_append {line : List Char} (h : ¬ HeadingLine line) (rest : List Char) :
    ¬ HeadingLine (line ++ '\n' :: rest) := by
  rintro ⟨marks, x, title, hne, hmarks, hx, heq⟩
  rw [List.append_eq_append_iff] at heq
  rcases heq with ⟨mid, hmid, hrest⟩ | ⟨mid, hmid, hrest⟩
  · -- the marks would reach over the newline
    cases mid with
    | nil =>
      obtain ⟨hnewline, -⟩ := List.cons.inj hrest
      rw [← hnewline, isSpaceOrTab_newline] at hx
      cases hx
    | cons y mid =>
      obtain ⟨hnewline, -⟩ := List.cons.inj hrest
      have := hmarks y (by simp [hmid])
      rw [← hnewline] at this
      cases this
  · cases mid with
    | nil =>
      obtain ⟨hnewline, -⟩ := List.cons.inj hrest
      rw [hnewline, isSpaceOrTab_newline] at hx
      cases hx
    | cons y mid =>
      obtain ⟨rfl, -⟩ := List.cons.inj hrest
      exact h ⟨marks, x, mid, hne, hmarks, hx, hmid⟩

/-- What is not blank at its ends does not start with a blank. -/
theorem not_isBlank_of_strip {x : Char} {cs : List Char} (h : strip (x :: cs) = x :: cs) :
    isBlank x = false :=
  (Text.strip_eq_iff.mp h).first x rfl

/-- The marks and the title of a heading. -/
theorem heading?_marks {level : Nat} {title rest : List Char} (hlevel : 1 ≤ level)
    (htitle : ∀ x ∈ title, x ≠ '\n') (hstrip : strip title = title) :
    heading? (List.replicate level '#' ++ ' ' :: (title ++ '\n' :: rest)) =
      some (level, title, level + 1) := by
  have hmarks : (List.replicate level '#' ++ ' ' :: (title ++ '\n' :: rest)).takeWhile
      (· == '#') = List.replicate level '#' := by
    rw [List.takeWhile_append_of_pos (by simp)]
    simp
  have hblank : (' ' :: (title ++ '\n' :: rest)).takeWhile isSpaceOrTab = [' '] := by
    rw [List.takeWhile_cons_of_pos (by decide)]
    cases title with
    | nil => rfl
    | cons x title =>
      have hx : ¬ isSpaceOrTab x = true := by
        intro hx
        have hblank := isBlank_of_isSpaceOrTab hx
        rw [not_isBlank_of_strip hstrip] at hblank
        cases hblank
      rw [List.cons_append, List.takeWhile_cons_of_neg hx]
  have hline : (title ++ '\n' :: rest).takeWhile (· != '\n') = title := by
    rw [List.takeWhile_append_of_pos (by simpa using htitle)]
    simp
  have hbehind : (List.replicate level '#' ++ ' ' :: (title ++ '\n' :: rest)).drop level =
      ' ' :: (title ++ '\n' :: rest) := List.drop_left' List.length_replicate
  have htext : (List.replicate level '#' ++ ' ' :: (title ++ '\n' :: rest)).drop (level + 1) =
      title ++ '\n' :: rest := by
    rw [← List.drop_drop, hbehind, List.drop_one, List.tail_cons]
  simp only [heading?, hmarks, List.length_replicate, hbehind, hblank, List.length_singleton,
    htext, hline, hstrip]
  exact if_neg (by simp; omega)

/-! ## Fences -/

theorem fenceLine_eq_none {fence cs : List Char} (h : ¬ fence <+: cs) :
    fenceLine fence cs = .none := by
  have hopening : opening? fence cs = none := by
    rw [opening?, if_neg]
    rwa [List.isPrefixOf_iff_prefix]
  rw [fenceLine, hopening]

theorem qualifierChar_ne_newline {x : Char} (h : isQualifierChar x = true) : x ≠ '\n' := by
  rintro rfl
  revert h
  decide

/-- The line that opens a fence. -/
theorem opening?_line {fence language rest : List Char}
    (hlanguage : ∀ x ∈ language, isQualifierChar x = true) :
    opening? fence (fence ++ (language ++ '\n' :: rest)) =
      some ⟨language, fence.length + language.length + 1⟩ := by
  have hline : (language ++ '\n' :: rest).takeWhile (· != '\n') = language := by
    rw [List.takeWhile_append_of_pos fun x hx => by
      simpa using qualifierChar_ne_newline (hlanguage x hx)]
    simp
  have hword : language.takeWhile isQualifierChar = language :=
    List.takeWhile_eq_self_iff.mpr hlanguage
  have hbehind : (fence ++ (language ++ '\n' :: rest)).drop (fence.length + language.length) =
      '\n' :: rest := by
    rw [← List.drop_drop, List.drop_left, List.drop_left]
  rw [opening?, if_pos (List.isPrefixOf_iff_prefix.mpr (List.prefix_append _ _))]
  simp only [List.drop_left, hline, hbehind, hword]
  rfl

/-- What closes a fence is a closing line, at the end of the text or before a newline. -/
theorem closesFence_iff {fence cs : List Char} :
    closesFence fence cs = true ↔
      ∃ line rest, ClosingLine fence line ∧ cs = line ++ rest ∧ ∀ x ∈ rest.head?, x = '\n' := by
  rw [closesFence, Bool.and_eq_true, List.isPrefixOf_iff_prefix]
  constructor
  · rintro ⟨⟨tail, rfl⟩, hend⟩
    rw [List.drop_left] at hend
    refine ⟨fence ++ tail.takeWhile isSpaceOrTab, tail.dropWhile isSpaceOrTab,
      ⟨_, fun x hx => List.mem_takeWhile_imp hx, rfl⟩, ?_, ?_⟩
    · rw [List.append_assoc, List.takeWhile_append_dropWhile]
    · intro x hx
      cases hrest : tail.dropWhile isSpaceOrTab with
      | nil => simp [hrest] at hx
      | cons y rest =>
        rw [hrest] at hend hx
        obtain rfl : y = x := by simpa using hx
        simpa using hend
  · rintro ⟨line, rest, ⟨blanks, hblanks, rfl⟩, rfl, hend⟩
    refine ⟨⟨blanks ++ rest, by rw [List.append_assoc]⟩, ?_⟩
    rw [List.append_assoc, List.drop_left, List.dropWhile_append_of_pos hblanks]
    cases rest with
    | nil => rfl
    | cons x rest =>
      obtain rfl : x = '\n' := hend x rfl
      rfl

theorem newline_not_mem_closingLine {fence line : List Char} (hfence : '\n' ∉ fence)
    (h : ClosingLine fence line) : '\n' ∉ line := by
  obtain ⟨blanks, hblanks, rfl⟩ := h
  rw [List.mem_append, not_or]
  refine ⟨hfence, ?_⟩
  intro hmem
  have := hblanks _ hmem
  rw [isSpaceOrTab_newline] at this
  cases this

/-- A fence is not closed within whole lines of which the first is no closing line. -/
theorem closesFence_lines {fence content tail : List Char} (hfence : '\n' ∉ fence)
    (hends : ['\n'] <:+ content)
    (hfirst : ∀ line rest, content = line ++ '\n' :: rest → ¬ ClosingLine fence line) :
    closesFence fence (content ++ tail) = false := by
  by_contra hcloses
  rw [Bool.not_eq_false, closesFence_iff] at hcloses
  obtain ⟨line, rest, hline, heq, hrest⟩ := hcloses
  have hmem : '\n' ∈ content := hends.subset (by simp)
  have hnot := newline_not_mem_closingLine hfence hline
  rw [List.append_eq_append_iff] at heq
  rcases heq with ⟨mid, hmid, -⟩ | ⟨mid, hmid, hrest'⟩
  · exact hnot (by simp [hmid, hmem])
  · cases mid with
    | nil => exact hnot (by simpa [hmid] using hmem)
    | cons x mid =>
      obtain rfl : x = '\n' := hrest x (by simp [hrest'])
      exact hfirst line mid hmid hline

/-- A fence around whole lines, none of which closes it, is closed right behind them. The flag tells
whether a line starts here, which only then may not be a closing one. -/
theorem contentLength?_lines {fence content tail : List Char} (hfence : '\n' ∉ fence)
    (hcloses : closesFence fence tail = true) {atStart : Bool}
    (hends : ['\n'] <:+ content ∨ content = [] ∧ atStart = true)
    (hfirst : atStart = true →
      ∀ line rest, content = line ++ '\n' :: rest → ¬ ClosingLine fence line)
    (hlater : ∀ before line rest, content = before ++ '\n' :: (line ++ '\n' :: rest) →
      ¬ ClosingLine fence line) :
    contentLength? fence atStart (content ++ tail) = some content.length := by
  induction content generalizing atStart with
  | nil =>
    obtain ⟨-, rfl⟩ : ([] : List Char) = [] ∧ atStart = true := by simpa using hends
    rw [List.nil_append, contentLength?.eq_def, if_pos (by rw [hcloses]; rfl)]
    rfl
  | cons x content ih =>
    -- a closing line would have to be the first of the whole lines that are left
    have hopen : ¬ (atStart && closesFence fence (x :: content ++ tail)) = true := by
      rw [Bool.and_eq_true]
      rintro ⟨hstart, hcloses'⟩
      rcases hends with hends | ⟨hnil, -⟩
      · rw [closesFence_lines hfence hends (hfirst hstart)] at hcloses'
        cases hcloses'
      · cases hnil
    have hends' : ['\n'] <:+ content ∨ content = [] ∧ (x == '\n') = true := by
      rcases hends with hends | ⟨hnil, -⟩
      · rcases List.suffix_cons_iff.mp hends with heq | hends
        · obtain ⟨rfl, hnil⟩ := List.cons.inj heq
          exact Or.inr ⟨hnil.symm, rfl⟩
        · exact Or.inl hends
      · cases hnil
    have hrest := ih hends'
      (fun hx line rest hsplit => hlater [] line rest (by rw [beq_iff_eq.mp hx, hsplit]; rfl))
      (fun before line rest hsplit => hlater (x :: before) line rest (by rw [hsplit]; rfl))
    rw [contentLength?.eq_def, if_neg hopen]
    show (contentLength? fence (x == '\n') (content ++ tail)).map (· + 1) = _
    rw [hrest]
    rfl

theorem first_mem_splitOn {line rest : List Char} (hline : '\n' ∉ line) :
    line ∈ (line ++ '\n' :: rest).splitOn '\n' := by
  rw [List.splitOn_append_cons_self_of_not_mem hline]
  exact List.mem_cons_self

theorem later_mem_splitOn {before line rest : List Char} (hline : '\n' ∉ line) :
    line ∈ (before ++ '\n' :: (line ++ '\n' :: rest)).splitOn '\n' := by
  rw [List.splitOn_append_cons_self]
  exact List.mem_append_right _ (first_mem_splitOn hline)

/-- A fence with its content, from its opening line to the newline behind its closing line. -/
theorem fenceLine_closed {fence language content rest : List Char} (hfence : '\n' ∉ fence)
    (hlanguage : ∀ x ∈ language, isQualifierChar x = true)
    (hends : content = [] ∨ ['\n'] <:+ content)
    (hlines : ∀ line ∈ content.splitOn '\n', ¬ ClosingLine fence line) :
    fenceLine fence (fence ++ (language ++ '\n' :: (content ++ (fence ++ '\n' :: rest)))) =
      .closed language content
        (fence.length + language.length + 1 + content.length + fence.length + 1) := by
  have hcloses : closesFence fence (fence ++ '\n' :: rest) = true :=
    closesFence_iff.mpr ⟨fence, '\n' :: rest, ⟨[], by simp⟩, rfl, by simp⟩
  have hnot : ∀ line, ClosingLine fence line → '\n' ∉ line := fun line =>
    newline_not_mem_closingLine hfence
  have hlength : contentLength? fence true (content ++ (fence ++ '\n' :: rest)) =
      some content.length := by
    refine contentLength?_lines hfence hcloses (by tauto) ?_ ?_
    · rintro - line rest rfl hline
      exact hlines line (first_mem_splitOn (hnot line hline)) hline
    · rintro before line rest rfl hline
      exact hlines line (later_mem_splitOn (hnot line hline)) hline
  have hinside : (fence ++ (language ++ '\n' :: (content ++ (fence ++ '\n' :: rest)))).drop
      (fence.length + language.length + 1) = content ++ (fence ++ '\n' :: rest) := by
    rw [← List.drop_drop, ← List.drop_drop, List.drop_left, List.drop_left, List.drop_one,
      List.tail_cons]
  have hclosing : closingLength fence (fence ++ '\n' :: rest) = fence.length := by
    rw [closingLength, List.drop_left, List.takeWhile_cons_of_neg (by decide)]
    rfl
  have hbehind : (content ++ (fence ++ '\n' :: rest)).drop (content.length + fence.length) =
      '\n' :: rest := by
    rw [← List.drop_drop, List.drop_left, List.drop_left]
  rw [fenceLine, opening?_line hlanguage]
  simp only [hinside, hlength, List.drop_left, hclosing, hbehind, List.take_left]
  rfl

/-! ## Whole lines -/

/-- A line with no mark at its start is read as what it holds. -/
theorem scanFrom_unmarked (hfence : ¬ f.fence.toList <+: c.rest) (hheading : ¬ HeadingLine c.rest) :
    f.scanFrom true c = f.scanFrom false c := by
  have hstart : f.lineStart c = .text [] 0 := by
    rw [lineStart, fenceLine_eq_none hfence, headingSteps, heading?_eq_none hheading]
  rw [scanFrom_start, hstart]
  show [] ++ f.scanFrom false (c.advance 0) = _
  rw [Cursor.advance_zero, List.nil_append]

theorem scanFrom_prose {line rest : List Char} (h : c.rest = line ++ '\n' :: rest)
    (hline : ∀ x ∈ line, x ≠ '\n' ∧ x ≠ '<') (hfence : ¬ f.fence.toList <+: c.rest)
    (hheading : ¬ HeadingLine line) :
    f.scanFrom true c = f.scanFrom true (c.advance (line.length + 1)) := by
  rw [scanFrom_unmarked hfence (by rw [h]; exact not_headingLine_append hheading rest),
    scanFrom_plainLine h hline]

/-- A heading, and its title behind it, in which nothing is found. -/
theorem scanFrom_heading {level : Nat} {title rest : List Char}
    (h : c.rest = List.replicate level '#' ++ ' ' :: (title ++ '\n' :: rest)) (hlevel : 1 ≤ level)
    (htitle : ∀ x ∈ title, x ≠ '\n' ∧ x ≠ '<') (hstrip : strip title = title)
    (hfence : ¬ f.fence.toList <+: c.rest) :
    f.scanFrom true c =
      .event (.heading level (some (String.ofList title)) c.position) ::
        f.scanFrom true (c.advance (level + 1 + (title.length + 1))) := by
  have hmarks : heading? c.rest = some (level, title, level + 1) := by
    rw [h]
    exact heading?_marks hlevel (fun x hx => (htitle x hx).1) hstrip
  have hstart : f.lineStart c =
      .text [.event (.heading level (some (String.ofList title)) c.position)] (level + 1) := by
    rw [lineStart, fenceLine_eq_none hfence, headingSteps, hmarks]
  have hrest : (c.advance (level + 1)).rest = title ++ '\n' :: rest := by
    rw [Cursor.rest_advance, h, ← List.drop_drop, List.drop_left' List.length_replicate]
    rfl
  rw [scanFrom_start, hstart]
  show [_] ++ f.scanFrom false (c.advance (level + 1)) = _
  rw [scanFrom_plainLine hrest htitle, Cursor.advance_advance]
  rfl

/-- A directive on lines of its own. -/
theorem scanFrom_directiveLine {w : Directive.Written} {settings : List Directive.Setting}
    {rest : List Char} (h : c.rest = w.chars ++ '\n' :: rest) (hw : w.Accepted settings)
    (hfence : ¬ f.fence.toList <+: c.rest) :
    f.scanFrom true c =
      .event (.directive (w.directive settings c.position) c.position) ::
        f.scanFrom true (c.advance (w.chars.length + 1)) := by
  have hangle : ¬ HeadingLine c.rest := by
    apply not_headingLine_of_head
    intro x hx
    rw [h, Directive.Written.chars, Directive.Written.lead] at hx
    cases hmarker : w.marker <;> simp [hmarker, Marker.opener] at hx <;> rw [← hx] <;> decide
  rw [scanFrom_unmarked hfence hangle, scanFrom_directive (Directive.readAt_complete hw h),
    scanFrom_newline (Cursor.rest_advance_append h), Cursor.advance_advance]

/-- A fence from its opening line to its closing line. -/
theorem scanFrom_fenced {language content rest : List Char}
    (h : c.rest = f.fence.toList ++ (language ++ '\n' ::
      (content ++ (f.fence.toList ++ '\n' :: rest))))
    (hfence : '\n' ∉ f.fence.toList) (hlanguage : ∀ x ∈ language, isQualifierChar x = true)
    (hends : content = [] ∨ ['\n'] <:+ content)
    (hlines : ∀ line ∈ content.splitOn '\n', ¬ ClosingLine f.fence.toList line) :
    f.scanFrom true c =
      .event (f.fenceEvent language content c.position) ::
        f.scanFrom true (c.advance (f.fence.toList.length + language.length + 1 + content.length +
          f.fence.toList.length + 1)) := by
  have hstart : f.lineStart c = .fence (f.fenceEvent language content c.position)
      (f.fence.toList.length + language.length + 1 + content.length +
        f.fence.toList.length + 1) := by
    rw [lineStart, h, fenceLine_closed hfence hlanguage hends hlines]
  rw [scanFrom_start, hstart]

end Literate.Flavor
