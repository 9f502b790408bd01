import Literate.Proofs.Directive.Item
import Mathlib.Data.List.TakeWhile

/-!
# What the reader accepts

A directive is read exactly if the text starts with a written form that the grammar accepts, and then
it is the directive which that form makes at its place.

The two halves are kept apart, reader by reader, as they are for single items. Both are stated for a
directive inside its document and for an inside that stands alone, as the readers are.
-/

namespace Literate.Directive

open Text (isBlank)
open Written (itemsChars itemsAt qualifierChars)

/-! ## Sequences of items -/

/-- The blanks before what is no blank are passed over. -/
theorem skipBlanks_append {c : Cursor} {blanks rest : List Char} (hc : c.rest = blanks ++ rest)
    (hb : ∀ x ∈ blanks, isBlank x = true) (hr : ∀ x ∈ rest.head?, isBlank x = false) :
    skipBlanks c = c.advance blanks.length := by
  have htake : c.rest.takeWhile isBlank = blanks := by
    rw [hc, List.takeWhile_append_of_pos hb]
    cases rest with
    | nil => simp
    | cons x rest => simp [hr x (by simp)]
  rw [skipBlanks, htake]

/-- The characters of the closer that is looked for. -/
def closerChars : Option Marker → List Char
  | some m => m.closer
  | none => []

theorem length_closerChars (m : Option Marker) : closerLength m = (closerChars m).length := by
  cases m <;> rfl

/-- What a cursor has ahead where items can follow: items with keys that have not been seen, blanks and
the closer. An inside that stands alone has nothing behind it. -/
structure ItemsAhead (m : Option Marker) (seen : List Key) (c : Cursor)
    (items : List Written.Item) (settings : List Setting) (blanks rest : List Char) : Prop where
  rest_eq : c.rest = itemsChars items ++ blanks ++ closerChars m ++ rest
  rest_nil : m = none → rest = []
  accepted : List.Forall₂ (Written.Item.Accepted m) items settings
  nodup : (settings.map Setting.key).Nodup
  fresh : ∀ s ∈ settings, s.key ∉ seen
  blank : ∀ c ∈ blanks, isBlank c = true

/-- Blanks and the closer are a way to go on without any item. -/
theorem ItemsAhead.nil {m : Option Marker} {seen : List Key} {c : Cursor} {blanks rest : List Char}
    (hrest : c.rest = blanks ++ (closerChars m ++ rest)) (hnil : m = none → rest = [])
    (hblank : ∀ x ∈ blanks, isBlank x = true) : ItemsAhead m seen c [] [] blanks rest where
  rest_eq := by simp [hrest, itemsChars]
  rest_nil := hnil
  accepted := .nil
  nodup := List.nodup_nil
  fresh := by simp
  blank := hblank

/-- The closer and the end are no blanks. -/
theorem head_of_closing {m : Option Marker} {rest : List Char} (h : m = none → rest = []) :
    ∀ x ∈ (closerChars m ++ rest).head?, isBlank x = false := by
  intro x hx
  rcases m with _ | _ | _
  · rw [h rfl] at hx
    cases hx
  · cases hx
    decide
  · cases hx
    decide

theorem wordEnds_blanks {m : Option Marker} {blanks rest : List Char}
    (hb : ∀ c ∈ blanks, isBlank c = true) (hr : wordEnds m rest = true) :
    wordEnds m (blanks ++ rest) = true := by
  cases blanks with
  | nil => exact hr
  | cons c blanks => simp [wordEnds, hb c (by simp)]

theorem wordEnds_closing {m : Option Marker} {rest : List Char} (h : m = none → rest = []) :
    wordEnds m (closerChars m ++ rest) = true := by
  rcases m with _ | k
  · rw [h rfl]
    rfl
  · have hends : ends (some k) (k.closer ++ rest) = true :=
      ends_iff.mpr ⟨k, rfl, List.prefix_append _ rest⟩
    cases k <;> simpa [closerChars, Marker.closer, wordEnds] using Or.inr hends

/-- Before the items, or what comes behind them, a word ends. -/
theorem ItemsAhead.wordEnds {m : Option Marker} {seen : List Key} {c : Cursor}
    {items : List Written.Item} {settings : List Setting} {blanks rest : List Char}
    (h : ItemsAhead m seen c items settings blanks rest) : wordEnds m c.rest = true := by
  rw [h.rest_eq]
  cases h.accepted with
  | nil =>
    simp only [itemsChars, List.flatMap_nil, List.nil_append, List.append_assoc]
    exact wordEnds_blanks h.blank (wordEnds_closing h.rest_nil)
  | @cons i _ items _ hi _ =>
    obtain ⟨b, bs, hbs⟩ := List.exists_cons_of_ne_nil hi.blanks_ne_nil
    simp [itemsChars, Written.Item.chars, Written.Item.lead, hbs, Directive.wordEnds,
      hi.blank_of_mem b (by simp [hbs])]

theorem readItems_closer {m : Option Marker} {opening c : Cursor} {seen : List Key}
    (h : ends m (skipBlanks c).rest = true) :
    readItems m opening seen c = .ok ([], (skipBlanks c).advance (closerLength m)) := by
  rw [readItems.eq_def]
  simp only [h, if_true]

theorem readItems_end {opening c : Cursor} {seen : List Key} (h : (skipBlanks c).rest = []) :
    readItems none opening seen c = .ok ([], skipBlanks c) := by
  rw [readItems.eq_def]
  simp [h, ends]

theorem readItems_item {m : Option Marker} {opening c stop : Cursor} {seen : List Key}
    {item : Directive.Item} {items : List Directive.Item} {n : Nat}
    (hend : wordEnds m (skipBlanks c).rest = false)
    (hitem : readItem m seen (skipBlanks c) = .ok (item, n))
    (htail : readItems m opening (item.key :: seen) ((skipBlanks c).advance n) =
      .ok (items, stop)) :
    readItems m opening seen c = .ok (item :: items, stop) := by
  have hends : ¬ ends m (skipBlanks c).rest = true := by
    intro he
    cases hrest : (skipBlanks c).rest with
    | nil => rw [hrest] at hend; cases hend
    | cons x xs => rw [hrest] at hend he; simp [wordEnds, he] at hend
  have hne : (skipBlanks c).rest ≠ [] := by
    intro hnil
    rw [hnil] at hend
    cases hend
  rw [readItems.eq_def]
  simp only [if_neg hends, if_neg hne]
  split
  · rename_i e he
    rw [hitem] at he
    cases he
  · rename_i item' n' he
    rw [hitem] at he
    cases he
    rw [htail]

theorem readItems_complete {m : Option Marker} {seen : List Key} {c : Cursor}
    {items : List Written.Item} {settings : List Setting} {blanks rest : List Char}
    (opening : Cursor) (h : ItemsAhead m seen c items settings blanks rest) :
    readItems m opening seen c = .ok (itemsAt c.position items settings,
      c.advance (itemsChars items ++ blanks ++ closerChars m).length) := by
  induction items generalizing seen c settings with
  | nil =>
    cases h.accepted
    have hc : c.rest = blanks ++ (closerChars m ++ rest) := by simp [h.rest_eq, itemsChars]
    have hskip := skipBlanks_append hc h.blank (head_of_closing h.rest_nil)
    have hrest := Cursor.rest_advance_append hc
    rw [← hskip] at hrest
    cases m with
    | none =>
      rw [h.rest_nil rfl] at hrest
      rw [readItems_end hrest, hskip]
      simp [closerChars, itemsChars, itemsAt]
    | some k =>
      have hends : ends (some k) (skipBlanks c).rest = true :=
        ends_iff.mpr ⟨k, rfl, hrest ▸ List.prefix_append _ rest⟩
      rw [readItems_closer hends, hskip, Cursor.advance_advance, length_closerChars]
      simp [itemsChars, itemsAt]
  | cons i items ih =>
    cases h.accepted with
    | @cons _ s _ settings hi haccepted =>
      obtain ⟨hs, hnodup⟩ := List.nodup_cons.mp h.nodup
      obtain ⟨x, xs, hx, hblank, hquery, hdash⟩ := name_head s.key
      -- the item is behind its blanks, and behind the item are the other ones
      have hc : c.rest = i.blanks ++ (i.name ++ '=' :: (i.value.chars ++
          (itemsChars items ++ blanks ++ closerChars m ++ rest))) := by
        simp [h.rest_eq, itemsChars, Written.Item.chars, Written.Item.lead]
      have hskip : skipBlanks c = c.advance i.blanks.length := by
        refine skipBlanks_append hc hi.blank_of_mem ?_
        rw [hi.name_eq, hx]
        rintro _ ⟨⟩
        exact hblank
      have hrest := Cursor.rest_advance_append hc
      have hchars : c.rest = i.chars ++ (itemsChars items ++ blanks ++ closerChars m ++ rest) := by
        simp [hc, Written.Item.chars, Written.Item.lead]
      have hahead : ItemsAhead m (s.key :: seen) (c.advance i.chars.length) items settings
          blanks rest := by
        refine ⟨Cursor.rest_advance_append hchars, h.rest_nil, haccepted, hnodup, ?_, h.blank⟩
        intro s' hs' hmem
        rcases List.mem_cons.mp hmem with heq | hmem
        · exact hs (heq ▸ List.mem_map_of_mem hs')
        · exact h.fresh s' (by simp [hs']) hmem
      have hend := hahead.wordEnds
      rw [hahead.rest_eq] at hend
      have hread := readItem_complete hi (h.fresh s (by simp)) hrest hend
      have hstart : wordEnds m (skipBlanks c).rest = false := by
        rw [hskip, hrest, hi.name_eq, hx, List.cons_append, wordEnds, hblank,
          ends_cons_eq_false hquery hdash]
        rfl
      have hplace : (c.advance i.blanks.length).position = c.position.after i.blanks :=
        Cursor.position_advance hc
      have hnext : (skipBlanks c).advance (i.name ++ '=' :: i.value.chars).length =
          c.advance i.chars.length := by
        rw [hskip, Cursor.advance_advance]
        simp [Written.Item.chars, Written.Item.lead]
      rw [hplace, ← Position.after_append, ← List.append_assoc, ← hskip] at hread
      have hrec := ih hahead
      rw [Cursor.position_advance hchars, ← hnext] at hrec
      rw [readItems_item hstart hread (by rw [Setting.key_item]; exact hrec), hnext,
        Cursor.advance_advance]
      simp [itemsAt, itemsChars, Written.Item.lead]

/-- The blanks that are passed over are all that changes. -/
theorem skipBlanks_split (c : Cursor) : ∃ blanks, c.rest = blanks ++ (skipBlanks c).rest ∧
    (∀ x ∈ blanks, isBlank x = true) ∧ skipBlanks c = c.advance blanks.length := by
  refine ⟨c.rest.takeWhile isBlank, ?_, fun x hx => List.mem_takeWhile_imp hx, rfl⟩
  have hc := List.takeWhile_append_dropWhile (p := isBlank) (l := c.rest)
  rw [skipBlanks, Cursor.rest_advance_append hc.symm, hc]

theorem readItems_sound {m : Option Marker} {opening : Cursor} {seen : List Key} {c stop : Cursor}
    {items : List Directive.Item} (h : readItems m opening seen c = .ok (items, stop))
    (hend : wordEnds m c.rest = true) :
    ∃ ws settings blanks rest, ItemsAhead m seen c ws settings blanks rest ∧
      items = itemsAt c.position ws settings ∧
      stop = c.advance (itemsChars ws ++ blanks ++ closerChars m).length := by
  -- one case for each way in which the reader ends; only the last one reads an item and goes on
  fun_induction readItems m opening seen c generalizing items stop with
  | case1 seen c start =>
    rename_i hends
    obtain ⟨blanks, hc, hb, hskip⟩ := skipBlanks_split c
    cases h
    obtain ⟨k, rfl, rest, hrest⟩ := ends_iff.mp hends
    refine ⟨[], [], blanks, rest, .nil (by rw [hc, ← hrest]; rfl) (by simp) hb, rfl, ?_⟩
    · simp [start, hskip, Cursor.advance_advance, itemsChars, length_closerChars]
  | case2 seen c start =>
    rename_i hnil hm
    obtain ⟨blanks, hc, hb, hskip⟩ := skipBlanks_split c
    cases h
    subst hm
    have hrest : c.rest = blanks ++ (closerChars none ++ []) := by
      rw [hc, show (skipBlanks c).rest = [] from hnil]
      rfl
    refine ⟨[], [], blanks, [], .nil hrest (fun _ => rfl) hb, rfl, ?_⟩
    · simp [start, hskip, itemsChars, closerChars]
  | case3 => cases h
  | case4 => cases h
  | case5 => cases h
  | case6 seen c start =>
    rename_i hends hne item n hitem items' stop' hrec ih
    obtain ⟨blanks, hc, hb, hskip⟩ := skipBlanks_split c
    cases h
    obtain ⟨name, value, s, rest, hrest, rfl, rfl, hclosed, hmeans, hseen, rfl, hend'⟩ :=
      readItem_sound hitem
    obtain ⟨x, xs, hx, hblank, hquery, hdash⟩ := name_head s.key
    let i : Written.Item := ⟨blanks, s.key.name.toList, value⟩
    have hchars : c.rest = i.chars ++ rest := by
      rw [hc, hrest]
      simp [i, Written.Item.chars, Written.Item.lead]
    have hne' : blanks ≠ [] := by
      rintro rfl
      rw [hc, List.nil_append, hrest, hx, List.cons_append, wordEnds, hblank,
        ends_cons_eq_false hquery hdash] at hend
      cases hend
    have hnext : start.advance (s.key.name.toList ++ '=' :: value.chars).length =
        c.advance i.chars.length := by
      simp [start, hskip, Cursor.advance_advance, i, Written.Item.chars, Written.Item.lead]
    have hplace : start.position = c.position.after blanks := by
      rw [show start = c.advance blanks.length from hskip, Cursor.position_advance hc]
    have hbehind := Cursor.rest_advance_append hchars
    rw [hnext] at ih hrec
    obtain ⟨ws, settings, blanks', rest', hahead, rfl, rfl⟩ :=
      ih hrec (by rw [hbehind]; exact hend')
    rw [Setting.key_item] at hahead
    refine ⟨i :: ws, s :: settings, blanks', rest', ⟨?_, hahead.rest_nil,
      .cons ⟨hne', hb, rfl, hclosed, hmeans⟩ hahead.accepted, ?_, ?_, hahead.blank⟩, ?_, ?_⟩
    · rw [hchars, ← hbehind, hahead.rest_eq]
      simp [itemsChars]
    · refine List.nodup_cons.mpr ⟨?_, hahead.nodup⟩
      intro hmem
      obtain ⟨s', hs', hkey⟩ := List.mem_map.mp hmem
      exact hahead.fresh s' hs' (hkey ▸ List.mem_cons_self)
    · intro s' hs' hmem
      rcases List.mem_cons.mp hs' with rfl | hs'
      · exact hseen hmem
      · exact hahead.fresh s' hs' (List.mem_cons_of_mem _ hmem)
    · rw [hplace, ← Position.after_append, ← List.append_assoc, Cursor.position_advance hchars]
      rfl
    · simp [Cursor.advance_advance, itemsChars]

/-! ## Qualifiers -/

theorem toNat_of_qualifierChar {c : Char} (h : isQualifierChar c = true) :
    35 ≤ c.toNat ∧ c.toNat ≤ 122 ∧ c.toNat ≠ 62 := by
  delta isQualifierChar Char.isAlphanum Char.isAlpha Char.isUpper Char.isLower Char.isDigit at h
  simp only [Bool.or_eq_true, Bool.and_eq_true, decide_eq_true_eq, beq_iff_eq, ge_iff_le,
    UInt32.le_iff_toNat_le] at h
  have hval : c.val.toNat = c.toNat := rfl
  rcases h with ((((h | rfl) | rfl) | rfl) | rfl) | rfl
  · simp only [UInt32.reduceToNat, Char.reduceVal] at h
    omega
  all_goals decide

/-- No character of a qualifier is a blank or ends a closer. -/
theorem qualifierChar_inside {c : Char} (h : isQualifierChar c = true) :
    isBlank c = false ∧ c ≠ '>' := by
  obtain ⟨hlo, hhi, hne⟩ := toNat_of_qualifierChar h
  refine ⟨?_, by rintro rfl; exact hne rfl⟩
  simp [isBlank]
  omega

theorem avoids_of_qualifier {m : Option Marker} {q : List Char}
    (h : ∀ c ∈ q, isQualifierChar c = true) : Avoids m q := by
  intro k _ hk
  have hmem : '>' ∈ k.closer := by cases k <;> decide
  exact (qualifierChar_inside (h '>' (hk.subset hmem))).2 rfl

/-- Whether a qualifier can follow, or what follows where there is none. -/
def admitsQualifier (m : Option Marker) (cs : List Char) : Prop :=
  cs.head? = some '+' ∨ wordEnds m cs = true

theorem admits_iff {k : Marker} {cs : List Char} :
    k.admits cs = true ↔ admitsQualifier (some k) cs := by
  cases cs with
  | nil => simp [Marker.admits, admitsQualifier, wordEnds]
  | cons c cs => simp [Marker.admits, admitsQualifier, wordEnds, ends, or_assoc]

theorem readQualifier_complete {m : Option Marker} {c : Cursor} {q : Option (List Char)}
    {rest : List Char} (hc : c.rest = qualifierChars q ++ rest) (hne : ∀ w ∈ q, w ≠ [])
    (hq : ∀ w ∈ q, ∀ x ∈ w, isQualifierChar x = true) (hr : wordEnds m rest = true) :
    readQualifier m c = .ok (q.map String.ofList, (qualifierChars q).length) := by
  cases q with
  | none =>
    rw [qualifierChars, List.nil_append] at hc
    unfold readQualifier
    split
    · rename_i cs hcs
      rw [← hc, hcs, wordEnds, ends_cons_eq_false (by decide) (by decide)] at hr
      cases hr
    · rfl
  | some w =>
    have hlen : wordLength m (w ++ rest) = w.length :=
      wordLength_append (fun x hx => (qualifierChar_inside (hq w rfl x hx)).1)
        (avoids_of_qualifier (hq w rfl)) hr
    have hpos : w.length ≠ 0 := by simpa using hne w rfl
    have hall : w.all isQualifierChar = true := List.all_eq_true.mpr (hq w rfl)
    rw [readQualifier, hc]
    simp only [qualifierChars, List.cons_append, hlen, if_neg hpos, List.take_left, hall, if_true]
    rfl

theorem readQualifier_sound {m : Option Marker} {c : Cursor} {language : Option String} {n : Nat}
    (h : readQualifier m c = .ok (language, n)) (ha : admitsQualifier m c.rest) :
    ∃ q rest, c.rest = qualifierChars q ++ rest ∧ n = (qualifierChars q).length ∧
      language = q.map String.ofList ∧ (∀ w ∈ q, w ≠ []) ∧
      (∀ w ∈ q, ∀ x ∈ w, isQualifierChar x = true) ∧ wordEnds m rest = true := by
  unfold readQualifier at h
  split at h
  · rename_i cs hcs
    simp only at h
    split at h
    · cases h
    · rename_i hpos
      split at h
      · rename_i hall
        cases h
        refine ⟨some (cs.take (wordLength m cs)), cs.drop (wordLength m cs), ?_, ?_, rfl, ?_, ?_,
          wordEnds_drop_wordLength m cs⟩
        · simp [qualifierChars, hcs]
        · simp [qualifierChars, wordLength_le]
        · rintro _ ⟨⟩ hnil
          have hlen := congrArg List.length hnil
          rw [List.length_take, Nat.min_eq_left (wordLength_le m cs)] at hlen
          exact hpos hlen
        · rintro _ ⟨⟩
          exact List.all_eq_true.mp hall
      · cases h
  · rename_i hplus
    cases h
    refine ⟨none, c.rest, rfl, rfl, rfl, nofun, nofun, ?_⟩
    rcases ha with ha | ha
    · obtain ⟨cs, hcs⟩ := List.head?_eq_some_iff.mp ha
      exact (hplus cs hcs).elim
    · exact ha

/-! ## Directives -/

/-- What a cursor has ahead behind the opener: a qualifier or none, and what can follow it. -/
structure InsideAhead (m : Option Marker) (c : Cursor) (q : Option (List Char))
    (items : List Written.Item) (settings : List Setting) (blanks rest : List Char) : Prop where
  rest_eq : c.rest = qualifierChars q ++ (c.advance (qualifierChars q).length).rest
  qualifier_ne_nil : ∀ w ∈ q, w ≠ []
  qualifier_chars : ∀ w ∈ q, ∀ x ∈ w, isQualifierChar x = true
  items : ItemsAhead m [] (c.advance (qualifierChars q).length) items settings blanks rest

/-- How long the inside of a directive is, the closer included. -/
def insideLength (m : Option Marker) (q : Option (List Char)) (items : List Written.Item)
    (blanks : List Char) : Nat :=
  (qualifierChars q ++ itemsChars items ++ blanks ++ closerChars m).length

/-- The directive that an inside is, given the span from its opener to its closer. -/
def insideDirective (q : Option (List Char)) (items : List Written.Item)
    (settings : List Setting) (p : Position) (span : Span) : Directive :=
  let found := itemsAt (p.after (qualifierChars q)) items settings
  ⟨q.map String.ofList, found.filterMap Directive.Item.assignment?,
    found.filterMap Directive.Item.payload?, span⟩

theorem readInside_complete {m : Option Marker} {c : Cursor} {q : Option (List Char)}
    {items : List Written.Item} {settings : List Setting} {blanks rest : List Char}
    (opening : Cursor) (h : InsideAhead m c q items settings blanks rest) :
    readInside m opening c =
      let stop := c.advance (insideLength m q items blanks)
      .ok (insideDirective q items settings c.position
        (opening.span (opening.rest.length - stop.rest.length)), stop) := by
  have hqual := readQualifier_complete h.rest_eq h.qualifier_ne_nil h.qualifier_chars
    h.items.wordEnds
  have hitems := readItems_complete opening h.items
  have hstop : (c.advance (qualifierChars q).length).advance
      (itemsChars items ++ blanks ++ closerChars m).length =
      c.advance (insideLength m q items blanks) := by
    simp [Cursor.advance_advance, insideLength]
  rw [hstop, Cursor.position_advance h.rest_eq] at hitems
  rw [readInside, hqual]
  simp only [hitems]
  rfl

theorem readInside_sound {m : Option Marker} {opening c stop : Cursor} {d : Directive}
    (h : readInside m opening c = .ok (d, stop)) (ha : admitsQualifier m c.rest) :
    ∃ q items settings blanks rest, InsideAhead m c q items settings blanks rest ∧
      stop = c.advance (insideLength m q items blanks) ∧
      d = insideDirective q items settings c.position
        (opening.span (opening.rest.length - stop.rest.length)) := by
  unfold readInside at h
  split at h
  · cases h
  · rename_i language n hq
    obtain ⟨q, rest, hc, rfl, rfl, hne, hchars, hend⟩ := readQualifier_sound hq ha
    have hrest := Cursor.rest_advance_append hc
    split at h
    · cases h
    · rename_i found stop' hitems
      cases h
      obtain ⟨items, settings, blanks, rest', hahead, rfl, rfl⟩ :=
        readItems_sound hitems (by rw [hrest]; exact hend)
      refine ⟨q, items, settings, blanks, rest', ⟨by rw [hrest]; exact hc, hne, hchars, hahead⟩,
        by simp [Cursor.advance_advance, insideLength], ?_⟩
      rw [insideDirective, Cursor.position_advance hc]

/-- Where an opener stands and a qualifier or what comes without one follows, its markers are found. -/
theorem at?_append {k : Marker} {inside : List Char} (h : admitsQualifier (some k) inside) :
    Marker.at? (k.opener ++ inside) = some k := by
  have hopens : k.opens (k.opener ++ inside) = true := by
    rw [Marker.opens, List.drop_left, admits_iff.mpr h, Bool.and_true,
      List.isPrefixOf_iff_prefix]
    exact List.prefix_append _ inside
  cases k with
  | instruction => rw [Marker.at?, if_pos hopens]
  | comment =>
    have hother : ¬ Marker.instruction.opens (Marker.comment.opener ++ inside) = true := by
      simp [Marker.opens, Marker.opener]
    rw [Marker.at?, if_neg hother, if_pos hopens]

theorem admitsQualifier_of_at? {cs inside : List Char} {k : Marker}
    (h : Marker.at? cs = some k) (hcs : cs = k.opener ++ inside) :
    admitsQualifier (some k) inside := by
  have hopens := Marker.opens_of_at? h
  rw [Marker.opens, hcs, List.drop_left, Bool.and_eq_true] at hopens
  exact admits_iff.mp hopens.2

theorem InsideAhead.admits {m : Option Marker} {c : Cursor} {q : Option (List Char)}
    {items : List Written.Item} {settings : List Setting} {blanks rest : List Char}
    (h : InsideAhead m c q items settings blanks rest) : admitsQualifier m c.rest := by
  rw [h.rest_eq]
  cases q with
  | none => exact Or.inr h.items.wordEnds
  | some w => exact Or.inl rfl

theorem Written.Accepted.insideAhead {w : Written} {settings : List Setting} {c : Cursor}
    {rest : List Char} (hw : w.Accepted settings) (hc : c.rest = w.chars ++ rest) :
    InsideAhead (some w.marker) (c.advance w.marker.opener.length) w.qualifier w.items settings
      w.blanks rest := by
  have hopen : c.rest = w.marker.opener ++ (qualifierChars w.qualifier ++
      (itemsChars w.items ++ w.blanks ++ w.marker.closer ++ rest)) := by
    simp [hc, Written.chars, Written.lead]
  have hqual := Cursor.rest_advance_append hopen
  have hitems := Cursor.rest_advance_append hqual
  exact ⟨by rw [hitems]; exact hqual, hw.qualifier_ne_nil, hw.qualifier_chars,
    ⟨hitems, nofun, hw.items, hw.nodup, nofun, hw.blanks⟩⟩

/-- A written directive that the cursor has ahead is all that reading takes. -/
theorem directive_eq_insideDirective {w : Written} {settings : List Setting} {c : Cursor}
    {rest : List Char} (hc : c.rest = w.chars ++ rest) :
    insideDirective w.qualifier w.items settings (c.advance w.marker.opener.length).position
      (c.span (c.rest.length - rest.length)) = w.directive settings c.position := by
  have hopen : c.rest = w.marker.opener ++ (qualifierChars w.qualifier ++
      (itemsChars w.items ++ w.blanks ++ w.marker.closer ++ rest)) := by
    simp [hc, Written.chars, Written.lead]
  have hlen : c.rest.length - rest.length = w.chars.length := by
    rw [hc, List.length_append, Nat.add_sub_cancel]
  rw [hlen, Cursor.span_eq, Cursor.position_advance hopen, insideDirective,
    ← Position.after_append]
  rfl

theorem advance_written {w : Written} {c : Cursor} :
    (c.advance w.marker.opener.length).advance
      (insideLength (some w.marker) w.qualifier w.items w.blanks) = c.advance w.chars.length := by
  simp [Cursor.advance_advance, insideLength, Written.chars, Written.lead, closerChars]

/-- An accepted form is read as the directive that it is. -/
theorem readAt_complete {c : Cursor} {w : Written} {settings : List Setting} {rest : List Char}
    (hw : w.Accepted settings) (hc : c.rest = w.chars ++ rest) :
    readAt c = .ok (w.directive settings c.position, c.advance w.chars.length) := by
  have hahead := hw.insideAhead hc
  have hopen : c.rest = w.marker.opener ++ (c.advance w.marker.opener.length).rest := by
    rw [Cursor.rest_advance, hc]
    simp [Written.chars, Written.lead]
  have hmarker : Marker.at? c.rest = some w.marker := by
    rw [hopen]
    exact at?_append hahead.admits
  have hread := readInside_complete c hahead
  simp only [advance_written, Cursor.rest_advance_append hc,
    directive_eq_insideDirective hc] at hread
  rw [readAt, hmarker]
  exact hread

/-- What is read is the directive of an accepted form. -/
theorem readAt_sound {c stop : Cursor} {d : Directive} (h : readAt c = .ok (d, stop)) :
    ∃ (w : Written) (settings : List Setting) (rest : List Char),
      w.Accepted settings ∧ c.rest = w.chars ++ rest ∧
      d = w.directive settings c.position ∧ stop = c.advance w.chars.length := by
  unfold readAt at h
  split at h
  · cases h
  · rename_i k hk
    obtain ⟨inside, hinside⟩ := Marker.opener_prefix_of_at? hk
    have hbehind := Cursor.rest_advance_append hinside.symm
    obtain ⟨q, items, settings, blanks, rest, hahead, rfl, rfl⟩ := readInside_sound h
      (by rw [hbehind]; exact admitsQualifier_of_at? hk hinside.symm)
    have haccepted : Written.Accepted ⟨k, q, items, blanks⟩ settings :=
      ⟨hahead.qualifier_ne_nil, hahead.qualifier_chars, hahead.items.accepted,
        hahead.items.nodup, hahead.items.blank⟩
    have hc : c.rest = Written.chars ⟨k, q, items, blanks⟩ ++ rest := by
      rw [← hinside, ← hbehind, hahead.rest_eq, hahead.items.rest_eq]
      simp [Written.chars, Written.lead, closerChars]
    have hstop := advance_written (w := ⟨k, q, items, blanks⟩) (c := c)
    refine ⟨⟨k, q, items, blanks⟩, settings, rest, haccepted, hc, ?_, hstop⟩
    rw [hstop, Cursor.rest_advance_append hc]
    exact directive_eq_insideDirective hc

/-- A directive is read exactly if the text starts with an accepted form. It is the directive that
the form is there, and reading goes on behind the form. -/
theorem readAt_eq_ok_iff {c stop : Cursor} {d : Directive} :
    readAt c = .ok (d, stop) ↔ ∃ (w : Written) (settings : List Setting),
      w.Accepted settings ∧ w.chars <+: c.rest ∧
      d = w.directive settings c.position ∧ stop = c.advance w.chars.length := by
  constructor
  · intro h
    obtain ⟨w, settings, rest, hw, hc, hd, hstop⟩ := readAt_sound h
    exact ⟨w, settings, hw, ⟨rest, hc.symm⟩, hd, hstop⟩
  · rintro ⟨w, settings, hw, ⟨rest, hc⟩, rfl, rfl⟩
    exact readAt_complete hw hc.symm

end Literate.Directive
