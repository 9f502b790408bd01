import Literate.Directive.Skip
import Literate.Proofs.Directive.Acceptance

/-!
# Skipping and reading end at the same place

Skipping looks for the closer without validating anything. It still comes to the place where the
reader stops, and it does so for every directive whose parts can be told apart (`Written.Formed`),
also for one that the reader rejects because of what it says.

Each part of such a directive is passed over as a whole (`PassesOver`), whatever follows it; for a
word it matters that a word ends there. Parts that are passed over one after the other are passed
over together (`PassesOver.append`), up to the closer.
-/

namespace Literate.Directive

open Text (isBlank)
open Written (itemsChars qualifierChars)

/-- A word that can stand before the equals sign of an item, known as a key or not. -/
def IsName (name : List Char) : Prop :=
  ∃ c cs, name = c :: cs ∧ (c.isAlpha = true ∨ c = '_') ∧ ∀ x ∈ cs, isKeyChar x = true

namespace Written

/-- `name=value` with blanks before it, whatever name and value are. -/
structure Item.Formed (m : Marker) (i : Item) : Prop where
  blanks_ne_nil : i.blanks ≠ []
  blank_of_mem : ∀ c ∈ i.blanks, isBlank c = true
  name : IsName i.name
  closed : i.value.Closed (some m)

/-- Whether a value ends where the rest of the text begins: a literal does by itself. -/
def Value.EndsBefore (m : Marker) (rest : List Char) : Value → Prop
  | raw _ | quoted _ _ => True
  | word _ => wordEnds (some m) rest = true

theorem Value.EndsBefore.of_wordEnds {m : Marker} {rest : List Char} {v : Value}
    (h : wordEnds (some m) rest = true) : v.EndsBefore m rest := by
  cases v with
  | raw _ | quoted _ _ => trivial
  | word _ => exact h

/-- A directive whose parts can be told apart: its qualifier is a word, and its items and its closer
stand behind blanks. Names need not be known nor different, and no value needs to suit its name. -/
structure Formed (w : Written) : Prop where
  qualifier : ∀ q ∈ w.qualifier, (Value.word q).Closed (some w.marker)
  items : ∀ i ∈ w.items, i.Formed w.marker
  blanks : ∀ c ∈ w.blanks, isBlank c = true

end Written

/-- Whether skipping passes over a text as a whole when `rest` follows it. -/
def PassesOver (m : Marker) (cs rest : List Char) : Prop :=
  throughCloser? m (cs ++ rest) = (throughCloser? m rest).map (· + cs.length)

variable {m : Marker} {cs ds rest : List Char} {c : Char}

theorem PassesOver.nil (m : Marker) (rest : List Char) : PassesOver m [] rest := by
  simp [PassesOver]

theorem PassesOver.append (h : PassesOver m cs (ds ++ rest)) (h' : PassesOver m ds rest) :
    PassesOver m (cs ++ ds) rest := by
  rw [PassesOver, List.append_assoc, h, h', Option.map_map, List.length_append]
  congr 1
  funext n
  simp only [Function.comp_apply]
  omega

/-! ## Single characters -/

theorem throughCloser?_cons (m : Marker) (c : Char) (rest : List Char) :
    throughCloser? m (c :: rest) =
      if m.closes (c :: rest) then some m.closer.length
      else if bars.isPrefixOf (c :: rest) then
        match beforeBars? ((c :: rest).drop 3) with
        | none => none
        | some n => (throughCloser? m ((c :: rest).drop (n + 6))).map (· + (n + 6))
      else if isQuote c then
        (throughCloser? m (rest.drop (restOfQuoted m c rest))).map
          (· + (restOfQuoted m c rest + 1))
      else (throughCloser? m rest).map (· + 1) :=
  throughCloser?.eq_def m (c :: rest)

/-- A character that begins nothing is passed over. -/
theorem passesOver_char (hcloser : ¬ m.closer <+: c :: rest) (hbars : ¬ bars <+: c :: rest)
    (hquote : isQuote c = false) : PassesOver m [c] rest := by
  rw [PassesOver, List.singleton_append, throughCloser?_cons, Marker.closes,
    if_neg (by rwa [List.isPrefixOf_iff_prefix]), if_neg (by rwa [List.isPrefixOf_iff_prefix]),
    hquote, if_neg (by simp)]
  rfl

/-- Whether a character begins neither a closer nor a literal. -/
def Inert (c : Char) : Prop := c ≠ '?' ∧ c ≠ '-' ∧ c ≠ '|' ∧ isQuote c = false

theorem passesOver_inert (h : ∀ c ∈ cs, Inert c) (rest : List Char) : PassesOver m cs rest := by
  induction cs with
  | nil => exact .nil m rest
  | cons c cs ih =>
    obtain ⟨hquery, hdash, hbar, hquote⟩ := h c List.mem_cons_self
    have hcloser : ¬ m.closer <+: c :: (cs ++ rest) := by
      have hends : ends (some m) (c :: (cs ++ rest)) = false := ends_cons_eq_false hquery hdash
      rw [Bool.eq_false_iff, ne_eq, ends_iff] at hends
      exact fun hp => hends ⟨m, rfl, hp⟩
    have hbars : ¬ bars <+: c :: (cs ++ rest) := fun hp => hbar (List.cons_prefix_cons.mp hp).1.symm
    exact PassesOver.append (passesOver_char hcloser hbars hquote)
      (ih fun d hd => h d (List.mem_cons_of_mem c hd))

theorem inert_of_not_mem (h : c ∉ ['?', '-', '|', '\'', '"']) : Inert c := by
  simp only [List.mem_cons, List.not_mem_nil, or_false, not_or] at h
  obtain ⟨hquery, hdash, hbar, hsingle, hdouble⟩ := h
  refine ⟨hquery, hdash, hbar, ?_⟩
  rw [Bool.eq_false_iff, ne_eq, isQuote_iff, not_or]
  exact ⟨hsingle, hdouble⟩

/-- A class of characters that has none of the five signs in it begins nothing. -/
theorem inert_of_class {p : Char → Bool}
    (hp : ['?', '-', '|', '\'', '"'].all (fun c => !p c) = true) (h : p c = true) : Inert c := by
  refine inert_of_not_mem fun hmem => ?_
  have hnot := List.all_eq_true.mp hp c hmem
  rw [h] at hnot
  cases hnot

theorem inert_of_isBlank (h : isBlank c = true) : Inert c := inert_of_class (by decide) h

theorem inert_of_isKeyChar (h : isKeyChar c = true) : Inert c := inert_of_class (by decide) h

theorem IsName.inert {name : List Char} (h : IsName name) : ∀ x ∈ name, Inert x := by
  obtain ⟨c, cs, rfl, hc, hcs⟩ := h
  intro x hx
  rcases List.mem_cons.mp hx with rfl | hx
  · apply inert_of_isKeyChar
    rcases hc with hc | rfl
    · simp [isKeyChar, Char.isAlphanum, hc]
    · decide
  · exact inert_of_isKeyChar (hcs x hx)

/-! ## Values -/

/-- In a word nothing begins, and nothing that begins in it reaches over its end. -/
theorem passesOver_word (h : (Written.Value.word cs).Closed (some m))
    (hr : wordEnds (some m) rest = true) : PassesOver m cs rest := by
  obtain ⟨hchars, hbars, ha⟩ := h
  induction cs with
  | nil => exact .nil m rest
  | cons c cs ih =>
    have hcloser : ¬ m.closer <+: c :: cs ++ rest := fun hp =>
      ha m rfl (closer_prefix_of_word (List.cons_ne_nil c cs) hr hp).isInfix
    have hchar := passesOver_char hcloser (bars_not_prefix_of_word hbars hr)
      (hchars c List.mem_cons_self).2
    have htail := ih (fun d hd => hchars d (List.mem_cons_of_mem c hd))
      (fun hi => hbars (hi.trans (List.suffix_cons c cs).isInfix))
      (ha.of_suffix (List.suffix_cons c cs))
    exact hchar.append htail

/-- A raw literal is passed over from its first bars to its last ones. -/
theorem passesOver_raw (h : (Written.Value.raw cs).Closed (some m)) (rest : List Char) :
    PassesOver m (Written.Value.raw cs).chars rest := by
  have hchars :
      (Written.Value.raw cs).chars ++ rest = '|' :: '|' :: '|' :: (cs ++ bars ++ rest) := by
    simp [Written.Value.chars, bars]
  have hcloser : m.closes ('|' :: '|' :: '|' :: (cs ++ bars ++ rest)) = false :=
    ends_cons_eq_false (m := some m) (by decide) (by decide)
  have hbars : bars.isPrefixOf ('|' :: '|' :: '|' :: (cs ++ bars ++ rest)) = true :=
    List.isPrefixOf_iff_prefix.mpr (List.prefix_append bars _)
  have hfound : beforeBars? (cs ++ bars ++ rest) = some cs.length :=
    beforeBars?_eq_some_iff.mpr ⟨cs, rest, rfl, rfl, h⟩
  have hbehind : ('|' :: '|' :: '|' :: (cs ++ bars ++ rest)).drop (cs.length + 6) = rest := by
    rw [← hchars]
    exact List.drop_left' (by simp [Written.Value.chars, bars])
  have hlength : (Written.Value.raw cs).chars.length = cs.length + 6 := by
    simp [Written.Value.chars, bars]
  rw [PassesOver, hchars, throughCloser?_cons, hcloser, if_neg (by simp), if_pos hbars]
  simp only [List.drop_succ_cons, List.drop_zero, hfound]
  simp only [List.drop_succ_cons] at hbehind
  rw [hbehind, hlength]

/-- The rest of a quoted literal is its source, in which nothing ends it, and the quote. -/
theorem restOfQuoted_append {quote : Char} {source text : List Char} (hq : isQuote quote = true)
    (hs : Quotes quote source text) (ha : Avoids (some m) source) (rest : List Char) :
    restOfQuoted m quote (source ++ quote :: rest) = source.length + 1 := by
  have hne : '\\' ≠ quote := by
    rintro rfl
    cases hq
  -- the closer is looked for before each character, and the source avoids it
  have hclose : ∀ {cs : List Char}, Avoids (some m) cs →
      m.closes (cs ++ quote :: rest) = false := fun h => ends_eq_false_of_avoids rest hq h
  induction hs with
  | nil =>
    rw [List.nil_append, restOfQuoted.eq_def]
    exact if_pos rfl
  | @escaped e source text he _ ih =>
    have hend := hclose ha
    have htail := ih (ha.of_suffix ⟨['\\', e], rfl⟩)
    simp only [List.cons_append] at hend ⊢
    rw [restOfQuoted, if_neg hne, hend, htail]
    simp [he]
  | @backslash c source text hc hb _ ih =>
    have hend := hclose ha
    have htail := ih (ha.of_suffix (List.suffix_cons _ _))
    simp only [List.cons_append] at hend htail ⊢
    rw [restOfQuoted, if_neg hne, hend, htail]
    simp [hc, hb]
  | @plain c source text hc hb _ ih =>
    have hend := hclose ha
    have htail := ih (ha.of_suffix (List.suffix_cons _ _))
    simp only [List.cons_append] at hend ⊢
    rw [restOfQuoted.eq_def]
    simp [hc, hend, hb, htail]

/-- A quoted literal is passed over from its first quote to its last one. -/
theorem passesOver_quoted {quote : Char}
    (h : (Written.Value.quoted quote cs).Closed (some m)) (rest : List Char) :
    PassesOver m (Written.Value.quoted quote cs).chars rest := by
  obtain ⟨hquote, ⟨text, hs⟩, ha⟩ := h
  have hchars : (Written.Value.quoted quote cs).chars ++ rest =
      quote :: (cs ++ quote :: rest) := by
    simp [Written.Value.chars]
  have hcloser : m.closes (quote :: (cs ++ quote :: rest)) = false :=
    ends_eq_false_of_isQuote (m := some m) hquote
  have hbars : ¬ bars.isPrefixOf (quote :: (cs ++ quote :: rest)) = true := by
    rw [List.isPrefixOf_iff_prefix]
    intro hp
    rw [← (List.cons_prefix_cons.mp hp).1] at hquote
    cases hquote
  have hrest := restOfQuoted_append hquote hs ha rest
  have hbehind : (cs ++ quote :: rest).drop (cs.length + 1) = rest := by
    rw [← List.drop_drop, List.drop_left]
    rfl
  rw [PassesOver, hchars, throughCloser?_cons, hcloser, if_neg (by simp), if_neg hbars,
    if_pos hquote, hrest, hbehind]
  simp [Written.Value.chars]

/-- A literal is passed over whatever follows it, and a word where words end. -/
theorem passesOver_value {v : Written.Value} (h : v.Closed (some m)) (hr : v.EndsBefore m rest) :
    PassesOver m v.chars rest := by
  cases v with
  | raw text => exact passesOver_raw h rest
  | quoted quote source => exact passesOver_quoted h rest
  | word cs => exact passesOver_word h hr

/-! ## Items and directives -/

theorem passesOver_item {i : Written.Item} (h : i.Formed m) (hr : i.value.EndsBefore m rest) :
    PassesOver m i.chars rest := by
  have hlead : ∀ x ∈ i.lead, Inert x := by
    intro x hx
    rw [Written.Item.lead, List.mem_append, List.mem_append, List.mem_singleton] at hx
    rcases hx with (hx | hx) | rfl
    · exact inert_of_isBlank (h.blank_of_mem x hx)
    · exact h.name.inert x hx
    · exact inert_of_not_mem (by decide)
  exact (passesOver_inert hlead _).append (passesOver_value h.closed hr)

/-- A word ends before an item. -/
theorem wordEnds_item {i : Written.Item} (h : i.Formed m) (rest : List Char) :
    wordEnds (some m) (i.chars ++ rest) = true := by
  obtain ⟨b, blanks, hblanks⟩ := List.exists_cons_of_ne_nil h.blanks_ne_nil
  simp [Written.Item.chars, Written.Item.lead, hblanks, wordEnds,
    h.blank_of_mem b (by simp [hblanks])]

theorem wordEnds_items {items : List Written.Item} (h : ∀ i ∈ items, i.Formed m)
    (hr : wordEnds (some m) rest = true) : wordEnds (some m) (itemsChars items ++ rest) = true := by
  cases items with
  | nil => exact hr
  | cons i items =>
    rw [itemsChars, List.flatMap_cons, List.append_assoc]
    exact wordEnds_item (h i List.mem_cons_self) _

theorem passesOver_items {items : List Written.Item} (h : ∀ i ∈ items, i.Formed m)
    (hr : wordEnds (some m) rest = true) : PassesOver m (itemsChars items) rest := by
  induction items with
  | nil => exact .nil m rest
  | cons i items ih =>
    have hitems : ∀ j ∈ items, j.Formed m := fun j hj => h j (List.mem_cons_of_mem i hj)
    have hitem := passesOver_item (h i List.mem_cons_self) (.of_wordEnds (wordEnds_items hitems hr))
    exact hitem.append (ih hitems)

theorem passesOver_qualifier {q : Option (List Char)}
    (h : ∀ w ∈ q, (Written.Value.word w).Closed (some m)) (hr : wordEnds (some m) rest = true) :
    PassesOver m (qualifierChars q) rest := by
  cases q with
  | none => exact .nil m rest
  | some w =>
    have hplus : ∀ x ∈ ['+'], Inert x := by
      intro x hx
      rw [List.mem_singleton.mp hx]
      exact inert_of_not_mem (by decide)
    exact (passesOver_inert hplus _).append (passesOver_word (h w rfl) hr)

theorem throughCloser?_closer (m : Marker) (rest : List Char) :
    throughCloser? m (m.closer ++ rest) = some m.closer.length := by
  have hcloses : m.closes (m.closer ++ rest) = true :=
    List.isPrefixOf_iff_prefix.mpr (List.prefix_append _ rest)
  obtain ⟨c, cs, hc⟩ : ∃ c cs, m.closer ++ rest = c :: cs := by cases m <;> exact ⟨_, _, rfl⟩
  rw [hc] at hcloses ⊢
  rw [throughCloser?_cons, if_pos hcloses]

variable {w : Written}

/-- The characters of a directive behind its opener. -/
theorem chars_eq (w : Written) (rest : List Char) : w.chars ++ rest =
    w.marker.opener ++ (qualifierChars w.qualifier ++
      (itemsChars w.items ++ (w.blanks ++ (w.marker.closer ++ rest)))) := by
  simp [Written.chars, Written.lead]

theorem wordEnds_behind_qualifier (h : w.Formed) (rest : List Char) :
    wordEnds (some w.marker)
      (itemsChars w.items ++ (w.blanks ++ (w.marker.closer ++ rest))) = true :=
  wordEnds_items h.items (wordEnds_blanks h.blanks (wordEnds_closing (m := some w.marker) nofun))

/-- A directive opens with its marker, whatever its qualifier is. -/
theorem at?_chars (h : w.Formed) (rest : List Char) :
    Marker.at? (w.chars ++ rest) = some w.marker := by
  rw [chars_eq]
  apply at?_append
  cases hq : w.qualifier with
  | none => exact Or.inr (wordEnds_behind_qualifier h rest)
  | some q => exact Or.inl rfl

/-- Skipping ends behind the closer of a directive. -/
theorem skipLength_chars (h : w.Formed) (rest : List Char) :
    skipLength (w.chars ++ rest) = w.chars.length := by
  have hqualifier := passesOver_qualifier h.qualifier (wordEnds_behind_qualifier h rest)
  have hitems : PassesOver w.marker (itemsChars w.items)
      (w.blanks ++ (w.marker.closer ++ rest)) :=
    passesOver_items h.items
      (wordEnds_blanks h.blanks (wordEnds_closing (m := some w.marker) nofun))
  have hblanks : PassesOver w.marker w.blanks (w.marker.closer ++ rest) :=
    passesOver_inert (fun x hx => inert_of_isBlank (h.blanks x hx)) _
  have hinside := (hqualifier.append hitems).append hblanks
  have hfound : throughCloser? w.marker ((w.chars ++ rest).drop w.marker.opener.length) =
      some (w.marker.closer.length +
        (qualifierChars w.qualifier ++ itemsChars w.items ++ w.blanks).length) := by
    rw [PassesOver, throughCloser?_closer, Option.map_some, List.append_assoc, List.append_assoc]
      at hinside
    rw [chars_eq, List.drop_left, hinside]
  rw [skipLength, at?_chars h rest]
  simp only [hfound, Option.orElse_some]
  simp only [Written.chars, Written.lead, List.length_append]
  omega

/-! ## What the reader accepts is passed over -/

theorem isName_key (k : Key) : IsName k.name.toList := by
  rcases k with p | p <;> cases p <;>
    exact ⟨_, _, rfl, Or.inl (by decide), List.all_eq_true.mp (by decide)⟩

theorem closed_of_qualifier {q : List Char} (h : ∀ x ∈ q, isQualifierChar x = true) :
    (Written.Value.word q).Closed (some m) := by
  have hnone : ∀ x, isQualifierChar x = false → x ∉ q := by
    intro x hx hmem
    rw [h x hmem] at hx
    cases hx
  refine ⟨fun x hx => ⟨(qualifierChar_inside (h x hx)).1, ?_⟩, fun hbars => ?_,
    avoids_of_qualifier h⟩
  · rw [Bool.eq_false_iff, ne_eq, isQuote_iff]
    rintro (rfl | rfl)
    · exact hnone _ (by decide) hx
    · exact hnone _ (by decide) hx
  · exact hnone '|' (by decide) (hbars.subset (by decide))

theorem formed_of_accepted {settings : List Setting} (h : w.Accepted settings) : w.Formed where
  qualifier q hq := closed_of_qualifier (h.qualifier_chars q hq)
  items i hi := by
    obtain ⟨n, hn, rfl⟩ := List.getElem_of_mem hi
    have hs := h.items.get hn (h.items.length_eq ▸ hn)
    exact ⟨hs.blanks_ne_nil, hs.blank_of_mem, hs.name_eq ▸ isName_key _, hs.closed⟩
  blanks := h.blanks

/-- Skipping goes where reading goes: behind every directive that is read, and also behind every
one whose parts can be told apart, whatever follows it. -/
theorem skipLength_agrees :
    (∀ (c stop : Cursor) (d : Directive), readAt c = .ok (d, stop) →
      stop = c.advance (skipLength c.rest)) ∧
    (∀ (w : Written) (rest : List Char), w.Formed →
      Marker.at? (w.chars ++ rest) = some w.marker ∧
        skipLength (w.chars ++ rest) = w.chars.length) := by
  refine ⟨?_, fun w rest hw => ⟨at?_chars hw rest, skipLength_chars hw rest⟩⟩
  intro c stop d hread
  obtain ⟨w, settings, rest, hw, hc, -, rfl⟩ := readAt_sound hread
  rw [hc, skipLength_chars (formed_of_accepted hw) rest]

/-- No qualifier behind the plus sign, a name twice, a quote that is escaped, bars in quotes and a
closer between bars: the reader rejects this one. -/
def rejectable : Written :=
  ⟨.instruction, some [],
    [⟨[' '], ['x'], .word []⟩, ⟨['\n'], ['x'], .quoted '\'' ['\\', '\'', '|', '|', '|']⟩,
      ⟨[' '], ['y'], .raw ['?', '>']⟩], [' ']⟩

theorem rejectable_formed : rejectable.Formed := by
  have hname : ∀ x, x = 'x' ∨ x = 'y' → IsName [x] := by
    rintro x (rfl | rfl) <;> exact ⟨_, [], rfl, Or.inl (by decide), by simp⟩
  have hword : (Written.Value.word []).Closed (some .instruction) :=
    ⟨by simp, by decide, fun k hk => by cases hk; decide⟩
  have hquotes : Quotes '\'' ['\\', '\'', '|', '|', '|'] ['\'', '|', '|', '|'] :=
    .escaped (Or.inl rfl) <| .plain (by decide) (by decide) <| .plain (by decide) (by decide) <|
      .plain (by decide) (by decide) .nil
  refine ⟨?_, ?_, by simp [rejectable, Text.isBlank_space]⟩
  · rintro q ⟨⟩
    exact hword
  · intro i hi
    simp only [rejectable, List.mem_cons, List.not_mem_nil, or_false] at hi
    rcases hi with rfl | rfl | rfl
    · exact ⟨by simp, by simp [Text.isBlank_space], hname 'x' (Or.inl rfl), hword⟩
    · exact ⟨by simp, by simp [Text.isBlank_newline], hname 'x' (Or.inl rfl), by decide,
        ⟨_, hquotes⟩, fun k hk => by cases hk; decide⟩
    · exact ⟨by simp, by simp [Text.isBlank_space], hname 'y' (Or.inr rfl),
        show ¬ bars <:+: _ by decide⟩

theorem skipLength_agrees_rejectable :
    (∃ d stop, readAt (.ofText "<!--btxt tag='-' -->x-->".toList) = .ok (d, stop) ∧
      stop = (Cursor.ofText "<!--btxt tag='-' -->x-->".toList).advance
        (skipLength "<!--btxt tag='-' -->x-->".toList)) ∧
    rejectable.Formed ∧
      skipLength "<?btxt+ x=\nx='\\'|||' y=|||?>||| ?> |||?>".toList = rejectable.chars.length := by
  have hquotes : Quotes '\'' ['-'] ['-'] := .plain (by decide) (by decide) .nil
  have hitem : Written.Item.Accepted (some .comment)
      ⟨[' '], "tag".toList, .quoted '\'' ['-']⟩ (.assignment (.tag (String.ofList ['-']))) := by
    refine ⟨by decide, by simp [Text.isBlank_space], rfl, ⟨by decide, ⟨_, hquotes⟩, ?_⟩,
      .tag hquotes⟩
    rintro k ⟨⟩
    decide
  have haccepted : Written.Accepted
      ⟨.comment, none, [⟨[' '], "tag".toList, .quoted '\'' ['-']⟩], [' ']⟩
      [.assignment (.tag (String.ofList ['-']))] :=
    ⟨nofun, nofun, .cons hitem .nil, by decide, by simp [Text.isBlank_space]⟩
  have htext : "<!--btxt tag='-' -->x-->".toList = Written.chars
      ⟨.comment, none, [⟨[' '], "tag".toList, .quoted '\'' ['-']⟩], [' ']⟩ ++ "x-->".toList := by
    decide
  have hread := readAt_complete haccepted (c := .ofText "<!--btxt tag='-' -->x-->".toList) htext
  exact ⟨⟨_, _, hread, skipLength_agrees.1 _ _ _ hread⟩, rejectable_formed,
    (skipLength_agrees.2 rejectable " |||?>".toList rejectable_formed).2⟩

end Literate.Directive
