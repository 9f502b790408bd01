import Literate.Proofs.Flavor.Line
import Literate.Proofs.Place
import Literate.Reading

/-!
# A text further on

The same text may stand further on in a larger one, with characters and lines before it that a
cursor counts (`Shift`). A reader looks only at what a cursor has ahead. So all that it finds
moves along, and nothing else about it changes: one lemma for each reader, up to the steps of a
whole scan (`scanFrom_shift`).
-/

namespace Literate

open Directive (Fault)

/-- By how many characters and lines a text is moved. -/
structure Shift where
  chars : Int
  lines : Int
deriving DecidableEq, Repr

namespace Shift

/-- The shift that brings a text behind another one. -/
def behind (cs : List Char) : Shift := ⟨cs.length, cs.count '\n'⟩

end Shift

/-! ## What moves -/

def Position.shift (s : Shift) (p : Position) : Position := ⟨p.offset + s.chars, p.line + s.lines⟩

def Span.shift (s : Shift) (x : Span) : Span :=
  ⟨x.start + s.chars, x.stop + s.chars, x.line + s.lines⟩

def Cursor.shift (s : Shift) (c : Cursor) : Cursor := ⟨c.offset + s.chars, c.line + s.lines, c.rest⟩

def Directive.Fault.shift (s : Shift) (fault : Fault) : Fault :=
  { fault with span := fault.span.shift s }

def Directive.Payload.shift (s : Shift) (p : Directive.Payload) : Directive.Payload :=
  { p with span := p.span.shift s }

def Directive.Item.shift (s : Shift) : Directive.Item → Directive.Item
  | assignment a => assignment a
  | payload p => payload (p.shift s)

def Directive.shift (s : Shift) (d : Directive) : Directive :=
  { d with payloads := d.payloads.map (Payload.shift s), span := d.span.shift s }

def Event.shift (s : Shift) : Event → Event
  | heading level title place => heading level title (place.shift s)
  | directive d place => directive (d.shift s) (place.shift s)
  | fragment language content place => fragment language content (place.shift s)
  | nested id content place => nested id content (place.shift s)

def Step.shift (s : Shift) : Step → Step
  | event e => event (e.shift s)
  | rejected fault => rejected (fault.shift s)
  | openFence line => openFence (line + s.lines)

def Reading.shift (s : Shift) (r : Reading) : Reading where
  events := r.events.map (Event.shift s)
  skipped := r.skipped.map (Fault.shift s)
  failure := r.failure.map (Fault.shift s)

/-- What comes of a reader when its text is moved, given what comes of it in place. -/
def Shift.outcome {α : Type} (s : Shift) (g : α → α) : Except Fault α → Except Fault α
  | .error fault => .error (fault.shift s)
  | .ok a => .ok (g a)

variable {s : Shift} {c : Cursor}

/-! ## Cursors -/

namespace Cursor

@[simp] theorem rest_shift : (c.shift s).rest = c.rest := rfl

@[simp] theorem ahead_shift (n : Nat) : (c.shift s).ahead n = c.ahead n := rfl

@[simp] theorem position_shift : (c.shift s).position = c.position.shift s := rfl

@[simp] theorem advance_shift (n : Nat) : (c.shift s).advance n = (c.advance n).shift s := by
  simp only [advance, shift, mk.injEq, and_true]
  omega

@[simp] theorem span_shift (n : Nat) : (c.shift s).span n = (c.span n).shift s := by
  simp only [span, shift, Span.shift, Span.mk.injEq, and_true, true_and]
  omega

/-- The cursor behind a text is the first one of what follows, moved there. -/
theorem ofText_shift (cs rest : List Char) :
    (ofText rest).shift (.behind cs) = (ofText (cs ++ rest)).advance cs.length := by
  simp [ofText, shift, Shift.behind, advance]

end Cursor

/-! ## Directives -/

namespace Directive

variable {m : Option Marker} {seen : List Key}

@[simp] theorem faultAt_shift (n : Nat) (reason : Reason) :
    faultAt (c.shift s) n reason = (faultAt c n reason).shift s := by
  simp [faultAt, Fault.shift]

@[simp] theorem skipBlanks_shift : skipBlanks (c.shift s) = (skipBlanks c).shift s := by
  simp [skipBlanks]

theorem readKey_shift : readKey m seen (c.shift s) = s.outcome id (readKey m seen c) := by
  simp only [readKey, Cursor.rest_shift, Cursor.ahead_shift, faultAt_shift]
  split
  · rfl
  · split
    · rfl
    · split
      · rfl
      · split <;> rfl

theorem readLiteral_shift (key : String) :
    readLiteral m key (c.shift s) = s.outcome id (readLiteral m key c) := by
  simp only [readLiteral, Cursor.rest_shift, Cursor.ahead_shift, faultAt_shift]
  split
  · split <;> rfl
  · split
    · rfl
    · split
      · split <;> rfl
      · rfl

theorem interpret_shift (n : Nat) (key : Key) (value : Literal) :
    interpret (c.shift s) n key value = s.outcome (Item.shift s) (interpret c n key value) := by
  unfold interpret
  split
  case h_3 | h_4 =>
    rw [faultAt_shift]
    rfl
  case h_5 =>
    rw [Cursor.span_shift]
    rfl
  case h_6 | h_7 | h_8 =>
    simp only [faultAt_shift]
    split <;> rfl
  all_goals rfl

theorem readItem_shift :
    readItem m seen (c.shift s) =
      s.outcome (Prod.map (Item.shift s) id) (readItem m seen c) := by
  rw [readItem, readKey_shift, readItem]
  cases readKey m seen c with
  | error fault => rfl
  | ok found =>
    obtain ⟨key, k⟩ := found
    simp only [Shift.outcome, id_eq, Cursor.advance_shift, readLiteral_shift]
    cases readLiteral m key.name (c.advance k) with
    | error fault => rfl
    | ok found =>
      obtain ⟨value, n⟩ := found
      simp only [Shift.outcome, Cursor.rest_shift, interpret_shift, faultAt_shift]
      split
      · cases interpret (c.advance k) n key value <;> rfl
      · rfl

@[simp] theorem Item.key_shift (item : Item) : (item.shift s).key = item.key := by
  cases item <;> rfl

theorem Item.assignments_shift (items : List Item) :
    (items.map (Item.shift s)).filterMap Item.assignment? = items.filterMap Item.assignment? := by
  rw [List.filterMap_map]
  congr 1
  funext item
  cases item <;> rfl

theorem Item.payloads_shift (items : List Item) :
    (items.map (Item.shift s)).filterMap Item.payload? =
      (items.filterMap Item.payload?).map (Payload.shift s) := by
  rw [List.filterMap_map, List.map_filterMap]
  congr 1
  funext item
  cases item <;> rfl

/-- What the reader of items does before it goes on with the next one. -/
theorem readItems_step (m : Option Marker) (opening : Cursor) (seen : List Key) (c : Cursor) :
    readItems m opening seen c =
      if ends m (skipBlanks c).rest then .ok ([], (skipBlanks c).advance (closerLength m))
      else if (skipBlanks c).rest = [] then
        match m with
        | none => .ok ([], skipBlanks c)
        | some _ => .error (faultAt opening opening.rest.length .openDirective)
      else
        match readItem m seen (skipBlanks c) with
        | .error e => .error e
        | .ok (item, n) =>
          match readItems m opening (item.key :: seen) ((skipBlanks c).advance n) with
          | .error e => .error e
          | .ok (items, stop) => .ok (item :: items, stop) := by
  rw [readItems.eq_def]
  simp only
  congr 2
  split
  · rename_i hitem
    rw [hitem]
  · rename_i hitem
    generalize readItem m seen (skipBlanks c) = found at hitem ⊢
    subst hitem
    rfl

theorem readItems_shift {opening : Cursor} :
    readItems m (opening.shift s) seen (c.shift s) =
      s.outcome (Prod.map (List.map (Item.shift s)) (Cursor.shift s))
        (readItems m opening seen c) := by
  fun_induction readItems m opening seen c with
  | case1 seen c start hends =>
    rw [readItems_step, skipBlanks_shift, Cursor.rest_shift, if_pos hends, Cursor.advance_shift]
    rfl
  | case2 seen c start hends hrest hm =>
    rw [readItems_step, skipBlanks_shift, Cursor.rest_shift, if_neg hends, if_pos hrest, hm]
    rfl
  | case3 seen c start hends hrest k hm =>
    rw [readItems_step, skipBlanks_shift, Cursor.rest_shift, if_neg hends, if_pos hrest, hm]
    simp only [Cursor.rest_shift, faultAt_shift]
    rfl
  | case4 seen c start hends hrest fault hitem =>
    rw [readItems_step, skipBlanks_shift, Cursor.rest_shift, if_neg hends, if_neg hrest,
      readItem_shift, hitem]
    rfl
  | case5 seen c start hends hrest item n hitem fault hlater ih
  | case6 seen c start hends hrest item n hitem items stop hlater ih =>
    rw [hlater] at ih
    rw [readItems_step, skipBlanks_shift, Cursor.rest_shift, if_neg hends, if_neg hrest,
      readItem_shift, hitem]
    simp only [Shift.outcome, Prod.map, id_eq, Item.key_shift, Cursor.advance_shift]
    rw [ih]
    rfl

theorem readQualifier_shift :
    readQualifier m (c.shift s) = s.outcome id (readQualifier m c) := by
  unfold readQualifier
  simp only [Cursor.rest_shift, Cursor.advance_shift, faultAt_shift]
  split
  · split
    · rfl
    · split <;> rfl
  · rfl

theorem readInside_shift {opening : Cursor} :
    readInside m (opening.shift s) (c.shift s) =
      s.outcome (Prod.map (Directive.shift s) (Cursor.shift s)) (readInside m opening c) := by
  rw [readInside, readQualifier_shift, readInside]
  cases readQualifier m c with
  | error fault => rfl
  | ok found =>
    obtain ⟨language, n⟩ := found
    simp only [Shift.outcome, id_eq, Cursor.advance_shift, readItems_shift]
    cases readItems m opening [] (c.advance n) with
    | error fault => rfl
    | ok found =>
      obtain ⟨items, stop⟩ := found
      simp only [Prod.map, Cursor.rest_shift, Cursor.span_shift,
        Item.assignments_shift, Item.payloads_shift]
      rfl

theorem readAt_shift :
    readAt (c.shift s) =
      s.outcome (Prod.map (Directive.shift s) (Cursor.shift s)) (readAt c) := by
  rw [readAt, Cursor.rest_shift, readAt]
  cases Marker.at? c.rest with
  | none =>
    simp only [faultAt_shift]
    rfl
  | some k =>
    simp only [Cursor.advance_shift]
    exact readInside_shift

end Directive

/-! ## Documents -/

namespace Flavor

variable {f : Flavor}

def LineStart.shift (s : Shift) : LineStart → LineStart
  | fence e n => fence (e.shift s) n
  | text steps n => text (steps.map (Step.shift s)) n

def Inline.shift (s : Shift) : Inline → Inline
  | done => done
  | newline => newline
  | char => char
  | directive d stop => directive (d.shift s) (stop.shift s)
  | rejected fault n => rejected (fault.shift s) n

theorem fenceEvent_shift (word content : List Char) (place : Position) :
    f.fenceEvent word content (place.shift s) = (f.fenceEvent word content place).shift s := by
  unfold fenceEvent
  split
  · split <;> rfl
  · rfl

theorem headingSteps_shift :
    headingSteps (c.shift s) =
      ((headingSteps c).1.map (Step.shift s), (headingSteps c).2) := by
  unfold headingSteps
  rw [Cursor.rest_shift]
  split <;> rfl

theorem lineStart_shift : f.lineStart (c.shift s) = (f.lineStart c).shift s := by
  unfold lineStart
  simp only [Cursor.rest_shift, Cursor.position_shift, fenceEvent_shift, headingSteps_shift]
  split <;> rfl

theorem inline_shift : inline (c.shift s) = (inline c).shift s := by
  unfold inline
  simp only [Cursor.rest_shift, Directive.readAt_shift]
  split
  · rfl
  · split
    · rfl
    · split
      · rfl
      · cases Directive.readAt c <;> rfl

/-- A text further on is scanned in the same steps, further on. -/
theorem scanFrom_shift (atStart : Bool) :
    f.scanFrom atStart (c.shift s) = (f.scanFrom atStart c).map (Step.shift s) := by
  -- the moved cursor has the same ahead, so it takes the same branch at each step
  fun_induction scanFrom f atStart c with
  | case1 c e n hstart ih =>
    rw [scanFrom_start, lineStart_shift, hstart, List.map_cons, ← ih, ← Cursor.advance_shift]
    rfl
  | case2 c steps n hstart ih =>
    rw [scanFrom_start, lineStart_shift, hstart, List.map_append, ← ih, ← Cursor.advance_shift]
    rfl
  | case3 c hinline =>
    rw [scanFrom_inside, inline_shift, hinline]
    rfl
  | case4 c hinline ih | case5 c hinline ih =>
    rw [scanFrom_inside, inline_shift, hinline, ← ih, ← Cursor.advance_shift]
    rfl
  | case6 c d stop hinline ih =>
    rw [scanFrom_inside, inline_shift, hinline, List.map_cons, ← ih]
    rfl
  | case7 c fault n hinline ih =>
    rw [scanFrom_inside, inline_shift, hinline, List.map_cons, ← ih, ← Cursor.advance_shift]
    rfl

end Flavor

theorem Reading.ofSteps_shift (lenient : Bool) (steps : List Step) :
    ofSteps lenient (steps.map (Step.shift s)) = (ofSteps lenient steps).shift s := by
  induction steps with
  | nil => rfl
  | cons step steps ih =>
    cases step with
    | event e | openFence line =>
      rw [List.map_cons, Step.shift, ofSteps, ih]
      rfl
    | rejected fault =>
      rw [List.map_cons, Step.shift, ofSteps, ih, ofSteps]
      split <;> rfl

end Literate
