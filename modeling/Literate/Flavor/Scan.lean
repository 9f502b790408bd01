import Literate.Directive.Extent
import Literate.Event
import Literate.Flavor.Basic

/-!
# Scanning a document

A document is scanned line by line. A line may open a fence; a fence that is closed again becomes
one event, and scanning goes on after its closing line. A line may start with a heading, whose title
stays in the text so that directives in it count. Anywhere else, a directive may start.

`scan` never stops at a malformed directive: it reports it as a step of its own and passes over it.
What a reader that refuses malformed directives sees are the steps before the first such one.
-/

namespace Literate

open Directive (isQualifierChar)
open Text (isSpaceOrTab strip)

/-- What the scanner finds as it goes through a document. -/
inductive Step where
  | event (e : Event)
  | rejected (fault : Directive.Fault)
  /-- A fence opens on this line and no line closes it: the line is text. -/
  | openFence (line : Int)
deriving DecidableEq, Repr

namespace Flavor

/-- Whether a line that closes a fence starts here: the fence and blanks up to the line's end. -/
def closesFence (fence cs : List Char) : Bool :=
  fence.isPrefixOf cs &&
    match (cs.drop fence.length).dropWhile isSpaceOrTab with
    | [] => true
    | c :: _ => c == '\n'

/-- How long the closing line is, without its newline. -/
def closingLength (fence cs : List Char) : Nat :=
  fence.length + ((cs.drop fence.length).takeWhile isSpaceOrTab).length

/-- How many characters stand before the first closing line. The flag tells whether a line starts
here. -/
def contentLength? (fence : List Char) (lineStart : Bool) (cs : List Char) : Option Nat :=
  if lineStart && closesFence fence cs then some 0
  else
    match cs with
    | [] => none
    | c :: cs => (contentLength? fence (c == '\n') cs).map (· + 1)

/-- The fence that a line opens. -/
structure Opening where
  language : List Char
  /-- Length of the opening line with its newline. -/
  length : Nat

/-- The fence that the line at the start of the text opens. -/
def opening? (fence cs : List Char) : Option Opening :=
  if fence.isPrefixOf cs then
    let line := (cs.drop fence.length).takeWhile (· != '\n')
    if (cs.drop (fence.length + line.length)).isEmpty then none
    else some ⟨line.takeWhile isQualifierChar, fence.length + line.length + 1⟩
  else none

/-- What the start of a line is with respect to fences. -/
inductive FenceLine where
  /-- It opens no fence. -/
  | none
  /-- It opens a fence that is never closed. -/
  | unclosed
  /-- It opens a fence with this content, which takes `length` characters with its two lines. -/
  | closed (language : List Char) (content : List Char) (length : Nat)

/-- The fence at the start of a line. -/
def fenceLine (fence cs : List Char) : FenceLine :=
  match opening? fence cs with
  | Option.none => .none
  | some o =>
    let inside := cs.drop o.length
    match contentLength? fence true inside with
    | Option.none => .unclosed
    | some n =>
      let closing := closingLength fence (inside.drop n)
      let newline := if (inside.drop (n + closing)).isEmpty then 0 else 1
      .closed o.language (inside.take n) (o.length + n + closing + newline)

/-- The language that the word behind a fence names; an empty word names none. -/
def languageOf (word : List Char) : Option String :=
  if word.isEmpty then none else some (String.ofList word)

/-- The event that a closed fence is. -/
def fenceEvent (f : Flavor) (word content : List Char) (place : Position) : Event :=
  match f.nested with
  | some id =>
    if languageOf word = some f.nestedLanguage then .nested id (String.ofList content) place
    else .fragment (languageOf word) (String.ofList content) place
  | none => .fragment (languageOf word) (String.ofList content) place

/-- The heading at the start of a line: its level, its title and how many characters stand before the
title. -/
def heading? (cs : List Char) : Option (Nat × List Char × Nat) :=
  let level := (cs.takeWhile (· == '#')).length
  let blanks := ((cs.drop level).takeWhile isSpaceOrTab).length
  if level = 0 || blanks = 0 then none
  else some (level, strip ((cs.drop (level + blanks)).takeWhile (· != '\n')), level + blanks)

theorem opening?_length {fence cs : List Char} {o : Opening} (h : opening? fence cs = some o) :
    0 < o.length ∧ o.length ≤ cs.length := by
  unfold opening? at h
  split at h
  · simp only at h
    split at h
    · cases h
    · rename_i hne
      cases h
      have := List.length_pos_iff.mpr (fun he => hne (by simpa using he) :
        cs.drop (fence.length + ((cs.drop fence.length).takeWhile (· != '\n')).length) ≠ [])
      simp only [List.length_drop] at this
      simp only
      omega
  · cases h

theorem fenceLine_length {fence cs language content : List Char} {n : Nat}
    (h : fenceLine fence cs = .closed language content n) :
    0 < n ∧ content.length < cs.length := by
  unfold fenceLine at h
  split at h
  · cases h
  · rename_i o ho
    have hl := opening?_length ho
    simp only at h
    split at h
    · cases h
    · cases h
      simp only [List.length_take, List.length_drop]
      omega

theorem heading?_length {cs title : List Char} {level n : Nat}
    (h : heading? cs = some (level, title, n)) : 0 < n ∧ 0 < level := by
  unfold heading? at h
  simp only at h
  split at h
  · cases h
  · rename_i hne
    simp only [Bool.or_eq_true, decide_eq_true_eq, not_or] at hne
    cases h
    omega

/-- What the scanner does at the start of a line. -/
inductive LineStart where
  /-- A fence, of which `length` characters are passed over. -/
  | fence (e : Event) (length : Nat)
  /-- Text, of which `length` characters are passed over: the marks of a heading, or nothing. -/
  | text (steps : List Step) (length : Nat)

/-- The heading at the start of a line, as an event, and the length of its marks. -/
def headingSteps (c : Cursor) : List Step × Nat :=
  match heading? c.rest with
  | some (level, title, n) =>
    ([.event (.heading level (some (String.ofList title)) c.position)], n)
  | none => ([], 0)

def lineStart (f : Flavor) (c : Cursor) : LineStart :=
  match fenceLine f.fence.toList c.rest with
  | .closed language content n => .fence (f.fenceEvent language content c.position) n
  | .unclosed => .text (.openFence c.line :: (headingSteps c).1) (headingSteps c).2
  | .none => .text (headingSteps c).1 (headingSteps c).2

/-- What the scanner does inside a line. -/
inductive Inline where
  /-- The end of the text. -/
  | done
  | newline
  /-- A character that means nothing to it. -/
  | char
  | directive (d : Directive) (stop : Cursor)
  | rejected (fault : Directive.Fault) (length : Nat)

def inline (c : Cursor) : Inline :=
  match c.rest with
  | [] => .done
  | x :: cs =>
    if x = '\n' then .newline
    else if (Directive.Marker.at? (x :: cs)).isNone then .char
    else
      match Directive.readAt c with
      | .ok (d, stop) => .directive d stop
      | .error fault => .rejected fault (Directive.skipLength c.rest)

theorem lineStart_fence {f : Flavor} {c : Cursor} {e : Event} {n : Nat}
    (h : f.lineStart c = .fence e n) : 0 < n ∧ 0 < c.rest.length := by
  unfold lineStart at h
  split at h
  · rename_i hf
    have := fenceLine_length hf
    cases h
    omega
  · cases h
  · cases h

theorem rest_ne_nil_of_inline {c : Cursor} (h : inline c ≠ .done) : 0 < c.rest.length := by
  unfold inline at h
  split at h
  · exact absurd rfl h
  · rename_i hc
    simp [hc]

theorem inline_directive {c stop : Cursor} {d : Directive} (h : inline c = .directive d stop) :
    Directive.readAt c = .ok (d, stop) := by
  unfold inline at h
  split at h
  · cases h
  · split at h
    · cases h
    · split at h
      · cases h
      · split at h
        · rename_i hr; cases h; exact hr
        · cases h

theorem inline_rejected {c : Cursor} {fault : Directive.Fault} {n : Nat}
    (h : inline c = .rejected fault n) :
    Directive.readAt c = .error fault ∧ n = Directive.skipLength c.rest := by
  unfold inline at h
  split at h
  · cases h
  · split at h
    · cases h
    · split at h
      · cases h
      · split at h
        · cases h
        · rename_i hr; cases h; exact ⟨hr, rfl⟩

/-- The steps from the cursor on. The flag tells whether the cursor is at the start of a line. -/
def scanFrom (f : Flavor) (atStart : Bool) (c : Cursor) : List Step :=
  match atStart with
  | true =>
    match _h : f.lineStart c with
    | .fence e n => .event e :: scanFrom f true (c.advance n)
    | .text steps n => steps ++ scanFrom f false (c.advance n)
  | false =>
    match _h : inline c with
    | .done => []
    | .newline => scanFrom f true (c.advance 1)
    | .char => scanFrom f false (c.advance 1)
    | .directive d stop => .event (.directive d c.position) :: scanFrom f false stop
    | .rejected fault n => .rejected fault :: scanFrom f false (c.advance n)
termination_by (c.rest.length, if atStart then 1 else 0)
decreasing_by
  · have := lineStart_fence _h
    simp only [Cursor.rest_advance, List.length_drop]
    exact Prod.Lex.left _ _ (by omega)
  · simp only [Cursor.rest_advance, List.length_drop]
    by_cases hn : min n c.rest.length = 0
    · have hz : c.rest.length - n = c.rest.length := by omega
      rw [hz]
      exact Prod.Lex.right _ (by decide)
    · exact Prod.Lex.left _ _ (by omega)
  · have : 0 < c.rest.length := rest_ne_nil_of_inline (by rw [_h]; simp)
    simp only [Cursor.rest_advance, List.length_drop]
    exact Prod.Lex.left _ _ (by omega)
  · have : 0 < c.rest.length := rest_ne_nil_of_inline (by rw [_h]; simp)
    simp only [Cursor.rest_advance, List.length_drop]
    exact Prod.Lex.left _ _ (by omega)
  · exact Prod.Lex.left _ _ (Directive.readAt_length_lt (inline_directive _h))
  · have : 0 < c.rest.length := rest_ne_nil_of_inline (by rw [_h]; simp)
    have hn := (inline_rejected _h).2
    have := @Directive.skipLength_pos c.rest
    simp only [Cursor.rest_advance, List.length_drop]
    exact Prod.Lex.left _ _ (by omega)

/-- The steps of a whole text. -/
def scan (f : Flavor) (text : String) : List Step := f.scanFrom true (.ofText text.toList)

end Flavor

end Literate
