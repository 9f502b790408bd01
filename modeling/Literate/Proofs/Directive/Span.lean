import Literate.Proofs.Directive.Fault
import Literate.Proofs.Directive.Item

/-!
# What spans point at

A directive is read in an excerpt of a document, which may start anywhere in the document. Every span that comes
out of it names some of the excerpt's characters (`Excerpt.Names`): the offsets are those of the document, and the
line is counted from where the directive starts.

Of a fault it is the characters at fault. Of a payload it is the literal with its delimiters, and what the literal
denotes is the payload's content (`Excerpt.Locates`); the literals stand one behind the other inside the
directive. Both are shown reader by reader, in terms of what the cursor has ahead (`Fault.Ahead`, `Payload.Ahead`).
-/

namespace Literate.Directive

/-- A piece of a document in which a directive is read: its characters, the offset of the first one, where among
them the directive starts and on which line of the document that is. -/
structure Excerpt where
  chars : List Char
  base : Int
  start : Nat
  line : Int
  start_le : start ≤ chars.length

namespace Excerpt

/-- The inside of a directive on its own. -/
def ofBody (body : String) (base line : Int) : Excerpt := ⟨body.toList, base, 0, line, Nat.zero_le _⟩

/-- Where the directive starts. -/
def cursor (x : Excerpt) : Cursor := ⟨x.base + x.start, x.line, x.chars.drop x.start⟩

/-- The characters between two offsets of the document. -/
def between (x : Excerpt) (first last : Int) : List Char :=
  (x.chars.take (last - x.base).toNat).drop (first - x.base).toNat

/-- Whether a span names these characters of an excerpt: they are what stands between its offsets, behind the
start of the directive, and its line counts the newlines from there on. -/
structure Names (x : Excerpt) (span : Span) (cs : List Char) : Prop where
  base_le : x.base + x.start ≤ span.start
  start_le_stop : span.start ≤ span.stop
  stop_le : span.stop ≤ x.base + x.chars.length
  chars_eq : x.between span.start span.stop = cs
  line_eq : span.line = x.line + (x.between (x.base + x.start) span.start).count '\n'

/-- Whether the spans of a directive name what they are spans of. The directive has `m` for its markers, if it was
read with them. -/
structure Locates (x : Excerpt) (m : Option Marker) (d : Directive) : Prop where
  start_eq : d.span.start = x.base + x.start
  names : ∃ cs, x.Names d.span cs
  literals : ∀ p ∈ d.payloads, ∃ v : Written.Value,
    v.Closed m ∧ v.Denotes p.content.toList ∧ x.Names p.span v.chars
  inside : ∀ p ∈ d.payloads, d.span.start < p.span.start ∧ p.span.stop ≤ d.span.stop
  ordered : d.payloads.Pairwise fun p q => p.span.stop < q.span.start

variable {x : Excerpt}

theorem between_eq (x : Excerpt) (i n : Nat) :
    x.between (x.base + i) (x.base + (i + n : Nat)) = (x.chars.drop i).take n := by
  have hfirst : (x.base + i - x.base).toNat = i := by omega
  have hlast : (x.base + (i + n : Nat) - x.base).toNat = i + n := by omega
  rw [between, hfirst, hlast, List.drop_take, Nat.add_sub_cancel_left]

/-- A span that is taken from a cursor further on names what is there. -/
theorem names_of_advance {k n : Nat} (h : k + n ≤ x.cursor.rest.length) :
    x.Names ((x.cursor.advance k).span n) ((x.cursor.rest.drop k).take n) := by
  have hstart := x.start_le
  have hrest : x.cursor.rest.length = x.chars.length - x.start := List.length_drop
  have hspan : (x.cursor.advance k).span n =
      ⟨x.base + (x.start + k : Nat), x.base + (x.start + k + n : Nat),
        x.line + ((x.chars.drop x.start).take k).count '\n'⟩ := by
    simp only [Cursor.span, Cursor.advance, cursor, Span.mk.injEq, and_true]
    omega
  rw [hspan]
  refine ⟨?_, ?_, ?_, ?_, ?_⟩
  · simp only
    omega
  · simp only
    omega
  · simp only
    omega
  · rw [between_eq, ← List.drop_drop]
    rfl
  · rw [between_eq]

/-- The place of some characters is behind what stands before them. -/
theorem names_of_rest {before cs after : List Char} (h : x.cursor.rest = before ++ cs ++ after) :
    x.Names ((x.cursor.position.after before).span cs) cs := by
  have hnames : x.Names ((x.cursor.advance before.length).span cs.length)
      ((x.cursor.rest.drop before.length).take cs.length) :=
    names_of_advance (by simp only [h, List.length_append]; omega)
  rw [List.append_assoc] at h
  rwa [Cursor.span_eq, Cursor.position_advance h, h, List.drop_left, List.take_left] at hnames

end Excerpt

/-! ## Faults -/

variable {m : Option Marker} {seen : List Key} {c opening stop : Cursor}

theorem Fault.Ahead.names {x : Excerpt} {fault : Fault} (h : fault.Ahead x.cursor) :
    x.Names fault.span fault.text.toList := by
  obtain ⟨k, n, reason, rfl, hle⟩ := h
  have htext : (faultAt (x.cursor.advance k) n reason).text.toList = (x.cursor.rest.drop k).take n :=
    String.toList_ofList
  rw [htext]
  exact Excerpt.names_of_advance hle

theorem readBody_error {fault : Fault} (h : readBody c = .error fault) : fault.Ahead c := by
  unfold readBody at h
  cases hread : readInside none c c with
  | ok r =>
    rw [hread] at h
    cases h
  | error e =>
    rw [hread] at h
    cases h
    exact readInside_error (k := 0) (Nat.zero_le _) (by rwa [Cursor.advance_zero])

/-! ## Payloads -/

/-- A payload whose literal the cursor has ahead, behind some other characters. -/
def Payload.Ahead (m : Option Marker) (c : Cursor) (p : Payload) : Prop :=
  ∃ (before : List Char) (v : Written.Value) (after : List Char),
    c.rest = before ++ v.chars ++ after ∧ before ≠ [] ∧ v.Closed m ∧ v.Denotes p.content.toList ∧
    p.span = (c.position.after before).span v.chars

namespace Payload.Ahead

variable {p : Payload}

theorem start_lt (h : p.Ahead m c) : c.offset < p.span.start := by
  obtain ⟨before, v, after, -, hne, -, -, hspan⟩ := h
  have := List.length_pos_iff.mpr hne
  rw [hspan]
  simp only [Position.span, Position.after, Cursor.position]
  omega

/-- What is ahead further on is ahead. -/
theorem of_advance {k : Nat} (h : p.Ahead m (c.advance k)) (hk : k ≤ c.rest.length) : p.Ahead m c := by
  obtain ⟨before, v, after, hrest, hne, hclosed, hdenotes, hspan⟩ := h
  have hlength : (c.rest.take k).length = k := by rw [List.length_take]; omega
  have hpassed : c.rest = c.rest.take k ++ (before ++ v.chars ++ after) := by
    rw [← hrest, Cursor.rest_advance, List.take_append_drop]
  have hposition := Cursor.position_advance hpassed
  rw [hlength] at hposition
  refine ⟨c.rest.take k ++ before, v, after, ?_, by simp [hne], hclosed, hdenotes, ?_⟩
  · simpa only [List.append_assoc] using hpassed
  · rw [hspan, hposition, Position.after_append]

theorem names {x : Excerpt} (h : p.Ahead m x.cursor) : ∃ v : Written.Value,
    v.Closed m ∧ v.Denotes p.content.toList ∧ x.Names p.span v.chars := by
  obtain ⟨before, v, after, hrest, -, hclosed, hdenotes, hspan⟩ := h
  exact ⟨v, hclosed, hdenotes, hspan ▸ Excerpt.names_of_rest hrest⟩

end Payload.Ahead

/-- The payload that an item is has its literal at the end of the item. -/
theorem readItem_payload {item : Item} {p : Payload} {n : Nat} (h : readItem m seen c = .ok (item, n))
    (hp : item.payload? = some p) : p.Ahead m c ∧ p.span.stop = c.offset + n := by
  obtain ⟨name, v, s, rest, hrest, rfl, -, hclosed, hmeans, -, rfl, -⟩ := readItem_sound h
  cases hmeans with
  | payload hdenotes =>
    cases hp
    have hparts : c.rest = (name ++ ['=']) ++ v.chars ++ rest := by simp [hrest]
    refine ⟨⟨name ++ ['='], v, rest, hparts, by simp, hclosed, ?_, rfl⟩, ?_⟩
    · rwa [String.toList_ofList]
    · simp only [Position.span, Position.after, Cursor.position, List.length_append, List.length_cons,
        List.length_nil]
      omega
  | on | off | destination | mode | role | tag => cases hp

/-- The payloads that are read from a cursor on, up to where reading stops. -/
structure PayloadsAhead (m : Option Marker) (c stop : Cursor) (payloads : List Payload) : Prop where
  ahead : ∀ p ∈ payloads, p.Ahead m c
  stop_le : ∀ p ∈ payloads, p.span.stop ≤ stop.offset
  ordered : payloads.Pairwise fun p q => p.span.stop < q.span.start

theorem PayloadsAhead.nil : PayloadsAhead m c stop [] :=
  ⟨List.forall_mem_nil _, List.forall_mem_nil _, .nil⟩

theorem PayloadsAhead.of_advance {k : Nat} {payloads : List Payload}
    (h : PayloadsAhead m (c.advance k) stop payloads) (hk : k ≤ c.rest.length) :
    PayloadsAhead m c stop payloads :=
  ⟨fun p hp => (h.ahead p hp).of_advance hk, h.stop_le, h.ordered⟩

/-- An item in front of the payloads behind it. -/
theorem PayloadsAhead.cons {item : Item} {items : List Item} {n : Nat}
    (hitem : readItem m seen c = .ok (item, n))
    (h : PayloadsAhead m (c.advance n) stop (items.filterMap Item.payload?))
    (hstop : c.offset + n ≤ stop.offset) :
    PayloadsAhead m c stop ((item :: items).filterMap Item.payload?) := by
  have hlater := h.of_advance (readItem_le hitem)
  rw [List.filterMap_cons]
  cases hp : item.payload? with
  | none => exact hlater
  | some p =>
    obtain ⟨hahead, hspan⟩ := readItem_payload hitem hp
    refine ⟨?_, ?_, ?_⟩
    · rw [List.forall_mem_cons]
      exact ⟨hahead, hlater.ahead⟩
    · rw [List.forall_mem_cons]
      exact ⟨hspan ▸ hstop, hlater.stop_le⟩
    · refine List.pairwise_cons.mpr ⟨fun q hq => ?_, hlater.ordered⟩
      rw [hspan]
      exact (h.ahead q hq).start_lt

theorem readItems_payloads {items : List Item} (h : readItems m opening seen c = .ok (items, stop)) :
    PayloadsAhead m c stop (items.filterMap Item.payload?) := by
  fun_induction readItems m opening seen c generalizing items stop with
  | case1 | case2 =>
    cases h
    exact .nil
  | case3 | case4 | case5 => cases h
  | case6 seen c start =>
    rename_i item n hitem items stop hrec ih
    cases h
    obtain ⟨k, hk, hle⟩ := skipBlanks_eq c
    obtain ⟨j, hj, -⟩ := readItems_eq hrec
    have hstop : start.offset + n ≤ stop.offset := by
      rw [hj]
      simp only [Cursor.advance]
      omega
    have hhere : PayloadsAhead m start stop ((item :: items).filterMap Item.payload?) :=
      .cons hitem (ih hrec) hstop
    rw [show start = c.advance k from hk] at hhere
    exact hhere.of_advance hle

/-! ## Directives -/

/-- What is read from some way behind where a directive starts on. -/
theorem readInside_payloads {d : Directive} {k : Nat} (hk : k ≤ opening.rest.length)
    (h : readInside m opening (opening.advance k) = .ok (d, stop)) :
    PayloadsAhead m opening stop d.payloads ∧ d.span = ⟨opening.offset, stop.offset, opening.line⟩ ∧
      ∃ n ≤ opening.rest.length, stop = opening.advance n := by
  obtain ⟨j, hj, hle⟩ := readInside_eq h
  rw [Cursor.rest_advance, List.length_drop] at hle
  rw [Cursor.advance_advance] at hj
  unfold readInside at h
  split at h
  · cases h
  · rename_i language n hqualifier
    have hn := readQualifier_le hqualifier
    split at h
    · cases h
    · rename_i items stop' hitems
      cases h
      refine ⟨((readItems_payloads hitems).of_advance hn).of_advance hk, ?_, k + j, by omega, hj⟩
      rw [hj]
      simp only [Cursor.span, Cursor.advance, List.length_drop, Span.mk.injEq, true_and, and_true]
      omega

theorem PayloadsAhead.locates {x : Excerpt} {d : Directive} {n : Nat}
    (h : PayloadsAhead m x.cursor (x.cursor.advance n) d.payloads)
    (hspan : d.span = ⟨x.cursor.offset, (x.cursor.advance n).offset, x.cursor.line⟩)
    (hn : n ≤ x.cursor.rest.length) : x.Locates m d where
  start_eq := by rw [hspan]; rfl
  names := by
    have hnames : x.Names ((x.cursor.advance 0).span n) ((x.cursor.rest.drop 0).take n) :=
      x.names_of_advance (by omega)
    have hwhole : x.cursor.span n = d.span := by rw [hspan]; rfl
    rw [Cursor.advance_zero, hwhole] at hnames
    exact ⟨_, hnames⟩
  literals p hp := (h.ahead p hp).names
  inside p hp := by
    rw [hspan]
    exact ⟨(h.ahead p hp).start_lt, h.stop_le p hp⟩
  ordered := h.ordered

theorem readBody_locates {x : Excerpt} {d : Directive} (h : readBody x.cursor = .ok d) :
    x.Locates none d := by
  unfold readBody at h
  cases hread : readInside none x.cursor x.cursor with
  | error e =>
    rw [hread] at h
    cases h
  | ok r =>
    obtain ⟨d', stop⟩ := r
    rw [hread] at h
    cases h
    obtain ⟨hpayloads, hspan, n, hn, rfl⟩ :=
      readInside_payloads (k := 0) (Nat.zero_le _) (by rwa [Cursor.advance_zero])
    exact hpayloads.locates hspan hn

/-- Every span that comes out of reading a directive, with or without its markers, names what it is a span of:
the characters at fault where it is refused, and the literals of its payloads where it is not. -/
theorem spans_exact :
    (∀ (body : String) (base line : Int), let x := Excerpt.ofBody body base line
      (∀ fault, parse body base line = .error fault → x.Names fault.span fault.text.toList) ∧
      ∀ d, parse body base line = .ok d → x.Locates none d) ∧
    ∀ x : Excerpt,
      (∀ fault, readAt x.cursor = .error fault → x.Names fault.span fault.text.toList) ∧
      ∀ d stop, readAt x.cursor = .ok (d, stop) →
        x.Locates (Marker.at? x.cursor.rest) d ∧ d.span.stop = stop.offset := by
  refine ⟨fun body base line => ?_, fun x => ⟨fun fault h => (readAt_error h).names, fun d stop h => ?_⟩⟩
  · intro x
    have hparse : parse body base line = readBody x.cursor := by
      simp [parse, x, Excerpt.ofBody, Excerpt.cursor]
    rw [hparse]
    exact ⟨fun fault h => (readBody_error h).names, fun d h => readBody_locates h⟩
  · unfold readAt at h
    split at h
    · cases h
    · rename_i m hm
      obtain ⟨hpayloads, hspan, n, hn, rfl⟩ := readInside_payloads (Marker.length_opener_le hm) h
      rw [hm]
      exact ⟨hpayloads.locates hspan hn, by rw [hspan]⟩

/-- A directive in the second line of a document, whose only item has a key that is not known. -/
def unknown : Excerpt where
  chars := "é\n<?btxt\na=".toList
  base := 0
  start := 2
  line := 2
  start_le := by decide

/-- A comment in the second line of a document, with an escaped quote in one payload and the closer in the other. -/
def twoPayloads : Excerpt where
  chars := "é\n<!--btxt post='\\''\npre=|||-->|||-->".toList
  base := 0
  start := 2
  line := 2
  start_le := by decide

/-- The directive that stands there. -/
def twoPayloadsRead : Directive :=
  ⟨none, [], [⟨.post, "'", ⟨16, 20, 2⟩⟩, ⟨.pre, "-->", ⟨25, 34, 3⟩⟩], ⟨2, 37, 2⟩⟩

theorem spans_exact_twoPayloads :
    (parse "\na=" 100 5 = .error ⟨.unknownKey "a", ⟨101, 102, 6⟩, "a"⟩ ∧
      (Excerpt.ofBody "\na=" 100 5).Names ⟨101, 102, 6⟩ "a".toList) ∧
    (parse "pre='x'" 100 5 = .ok ⟨none, [], [⟨.pre, "x", ⟨104, 107, 5⟩⟩], ⟨100, 107, 5⟩⟩ ∧
      (Excerpt.ofBody "pre='x'" 100 5).Locates none
        ⟨none, [], [⟨.pre, "x", ⟨104, 107, 5⟩⟩], ⟨100, 107, 5⟩⟩) ∧
    (readAt unknown.cursor = .error ⟨.unknownKey "a", ⟨9, 10, 3⟩, "a"⟩ ∧
      unknown.Names ⟨9, 10, 3⟩ "a".toList) ∧
    (readAt twoPayloads.cursor = .ok (twoPayloadsRead, ⟨37, 3, []⟩) ∧
      twoPayloads.Locates (Marker.at? twoPayloads.cursor.rest) twoPayloadsRead ∧
      twoPayloadsRead.span.stop = 37) := by
  have hbody : parse "\na=" 100 5 = .error ⟨.unknownKey "a", ⟨101, 102, 6⟩, "a"⟩ := by
    decide +kernel
  have hpre : parse "pre='x'" 100 5 =
      .ok ⟨none, [], [⟨.pre, "x", ⟨104, 107, 5⟩⟩], ⟨100, 107, 5⟩⟩ := by decide +kernel
  have hunknown : readAt unknown.cursor = .error ⟨.unknownKey "a", ⟨9, 10, 3⟩, "a"⟩ := by
    decide +kernel
  have htwo : readAt twoPayloads.cursor = .ok (twoPayloadsRead, ⟨37, 3, []⟩) := by decide +kernel
  exact ⟨⟨hbody, (spans_exact.1 _ _ _).1 _ hbody⟩, ⟨hpre, (spans_exact.1 _ _ _).2 _ hpre⟩,
    ⟨hunknown, (spans_exact.2 _).1 _ hunknown⟩, htwo, (spans_exact.2 twoPayloads).2 _ _ htwo⟩

end Literate.Directive
