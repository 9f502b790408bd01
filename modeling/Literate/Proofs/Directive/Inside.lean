import Literate.Proofs.Directive.Skipping

/-!
# A directive without its markers

A directive is read in its document up to its closer, or from the text between its markers up to
the end of that text. Both come to the same (`parse_inside`): whatever is read in the document is
read from between its markers as well, with the same language, the same assignments and the same payloads at
the same places. Only the span of the directive as a whole leaves the markers out.

A form that a closer has to end is a form that the end of the text can end (`Written.Accepted.insideAlone`),
as there is less that its words and quotes have to avoid. The places agree because no newline stands in an
opener (`Position.after_opener`).
-/

namespace Literate

open Directive (Marker)

/-- Behind an opener is the same line. -/
theorem Position.after_opener (p : Position) (m : Marker) :
    p.after m.opener = ⟨p.offset + m.opener.length, p.line⟩ := by
  have hcount : m.opener.count '\n' = 0 := by cases m <;> rfl
  rw [Position.after, hcount]
  simp

namespace Directive

open Written (itemsChars qualifierChars)

theorem Written.Value.Closed.alone {m : Option Marker} {v : Value} (h : v.Closed m) :
    v.Closed none := by
  cases v with
  | raw text => exact h
  | quoted quote source => exact ⟨h.1, h.2.1, nofun⟩
  | word cs => exact ⟨h.1, h.2.1, nofun⟩

theorem Written.Item.Accepted.alone {m : Option Marker} {i : Item} {s : Setting}
    (h : i.Accepted m s) : i.Accepted none s :=
  { h with closed := h.closed.alone }

/-- What stands between the markers. -/
def Written.inside (w : Written) : List Char :=
  qualifierChars w.qualifier ++ itemsChars w.items ++ w.blanks

variable {w : Written} {settings : List Setting}

theorem Written.chars_eq_inside (w : Written) :
    w.chars = w.marker.opener ++ w.inside ++ w.marker.closer := by
  simp [Written.chars, Written.lead, Written.inside]

/-- The inside of an accepted form is one that stands alone. -/
theorem Written.Accepted.insideAlone {c : Cursor} (hw : w.Accepted settings)
    (hc : c.rest = w.inside) :
    InsideAhead none c w.qualifier w.items settings w.blanks [] := by
  have hqualifier : c.rest = qualifierChars w.qualifier ++ (itemsChars w.items ++ w.blanks) := by
    rw [hc, Written.inside, List.append_assoc]
  have hitems := Cursor.rest_advance_append hqualifier
  refine ⟨by rw [hitems]; exact hqualifier, hw.qualifier_ne_nil, hw.qualifier_chars, ?_⟩
  exact ⟨by rw [hitems]; simp [closerChars], fun _ => rfl, hw.items.imp fun _ _ h => h.alone, hw.nodup, nofun,
    hw.blanks⟩

/-- The inside of an accepted form is read as the directive that the form is, from the place behind the
opener. -/
theorem readBody_inside {c : Cursor} {p : Position} (hw : w.Accepted settings)
    (hc : c.rest = w.inside) (hp : c.position = p.after w.marker.opener) :
    readBody c = .ok { w.directive settings p with span := c.span w.inside.length } := by
  have hstop : (c.advance (insideLength none w.qualifier w.items w.blanks)).rest = [] := by
    rw [Cursor.rest_advance, hc]
    simp [insideLength, closerChars, Written.inside]
  rw [readBody, readInside_complete c (hw.insideAlone hc)]
  simp only [hstop, List.length_nil, Nat.sub_zero, Except.map, insideDirective, hp,
    ← Position.after_append]
  rw [hc]
  rfl

/-- Behind the inside of a form that stands in a text is its closer. -/
theorem drop_inside {text rest : List Char} {start : Nat} (h : text.drop start = w.chars ++ rest) :
    text.drop (start + w.marker.opener.length + w.inside.length) = w.marker.closer ++ rest := by
  have hlength : w.marker.opener.length + w.inside.length = (w.marker.opener ++ w.inside).length :=
    List.length_append.symm
  rw [Nat.add_assoc, ← List.drop_drop, h, Written.chars_eq_inside, hlength, List.append_assoc, List.drop_left]

/-- The inside of a form that stands in a text is what stands between the two places. -/
theorem between_inside {text rest : List Char} {start : Nat} (h : text.drop start = w.chars ++ rest) :
    (text.take (start + w.marker.opener.length + w.inside.length)).drop (start + w.marker.opener.length) =
      w.inside := by
  rw [List.drop_take, ← List.drop_drop, h, Written.chars_eq_inside, Nat.add_sub_cancel_left,
    List.append_assoc, List.append_assoc, List.drop_left, List.take_left]

/-- What is read in a document from `start` on reads, between its markers, as the same directive on its own:
only the span as a whole is another one. -/
theorem parse_inside {text : List Char} {start : Nat} {line : Int} {d : Directive} {stop : Cursor}
    (h : readAt ⟨start, line, text.drop start⟩ = .ok (d, stop)) :
    ∃ (m : Marker) (first last : Nat),
      Marker.at? (text.drop start) = some m ∧ first = start + m.opener.length ∧
      first ≤ last ∧ stop.offset = (last + m.closer.length : Nat) ∧
      last + m.closer.length ≤ text.length ∧ m.closer <+: text.drop last ∧
      d.span = ⟨start, stop.offset, line⟩ ∧
      parse (String.ofList ((text.take last).drop first)) first line =
        .ok { d with span := ⟨first, last, line⟩ } := by
  obtain ⟨w, settings, rest, hw, hc, rfl, rfl⟩ := readAt_sound h
  have hc : text.drop start = w.chars ++ rest := hc
  have hopener : Marker.at? (text.drop start) = some w.marker := by
    rw [hc]
    exact at?_chars (formed_of_accepted hw) rest
  have hbehind := drop_inside hc
  have hclosing := congrArg List.length hbehind
  rw [List.length_drop, List.length_append] at hclosing
  have hcloser := w.marker.closer_pos
  have hread := readBody_inside (c := ⟨(start + w.marker.opener.length : Nat), line, w.inside⟩)
    (p := ⟨start, line⟩) hw rfl (by rw [Position.after_opener, Cursor.position]; simp)
  refine ⟨w.marker, start + w.marker.opener.length, start + w.marker.opener.length + w.inside.length,
    hopener, rfl, Nat.le_add_right _ _, ?_, ?_, ?_, ?_, ?_⟩
  · rw [Written.chars_eq_inside]
    simp only [Cursor.advance, List.length_append]
    omega
  · omega
  · rw [hbehind]
    exact List.prefix_append _ rest
  · simp [Written.directive, Position.span, Cursor.position, Cursor.advance]
  · rw [between_inside hc, parse, String.toList_ofList, hread]
    simp [Cursor.span, Cursor.position]

/-- A comment with a raw literal that holds a closer and touches the one behind it. -/
def touching : List Char := "é\n<!--btxt+c\ncode=|||-->\n|||-->x".toList

theorem parse_inside_touching :
    readAt ⟨2, 5, touching.drop 2⟩ =
        .ok (⟨some "c", [], [⟨.code, "-->\n", ⟨18, 28, 6⟩⟩], ⟨2, 31, 5⟩⟩, ⟨31, 7, ['x']⟩) ∧
      parse "+c\ncode=|||-->\n|||" 10 5 =
        .ok ⟨some "c", [], [⟨.code, "-->\n", ⟨18, 28, 6⟩⟩], ⟨10, 28, 5⟩⟩ := by
  have hread : readAt ⟨2, 5, touching.drop 2⟩ =
      .ok (⟨some "c", [], [⟨.code, "-->\n", ⟨18, 28, 6⟩⟩], ⟨2, 31, 5⟩⟩, ⟨31, 7, ['x']⟩) := by
    decide +kernel
  obtain ⟨m, first, last, hm, hfirst, -, hlast, -, -, -, hparse⟩ := parse_inside hread
  have hopener : Marker.at? (touching.drop 2) = some .comment := by decide
  obtain rfl : Marker.comment = m := Option.some.inj (hopener.symm.trans hm)
  obtain rfl : first = 10 := hfirst
  obtain rfl : last = 28 := by
    have hlast : (31 : Int) = (last + 3 : Nat) := hlast
    omega
  exact ⟨hread, hparse⟩

end Directive

end Literate
