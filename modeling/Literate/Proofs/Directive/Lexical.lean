import Literate.Directive.Extent
import Literate.Proofs.Directive.Grammar

/-!
# Words and literals of directives

Each reader of a word or a literal finds exactly the form that the grammar gives it: up to the
first three bars (`beforeBars?_eq_some_iff`), up to the quote that nothing escapes
(`quotedInside_eq_ok_iff`), up to a blank or the closer (`wordLength_append`).

A closer has two or three characters, so it could begin in one part of a text and end in the next. It
never does where a reader stops: behind a word comes a blank or another closer, and behind the source
of a literal a quote.
-/

namespace Literate.Directive

open Text (isBlank)

/-! ## Closers -/

theorem Avoids.of_suffix {m : Option Marker} {xs ys : List Char} (h : Avoids m ys)
    (hs : xs <:+ ys) : Avoids m xs :=
  fun k hk hx => h k hk (hx.trans hs.isInfix)

theorem ends_iff {m : Option Marker} {cs : List Char} :
    ends m cs = true ↔ ∃ k ∈ m, k.closer <+: cs := by
  cases m <;> simp [ends, Marker.closes]

/-- No closer starts with a backslash, a quote, a blank or a sign that can stand in a name. -/
theorem ends_cons_eq_false {m : Option Marker} {c : Char} {cs : List Char}
    (hq : c ≠ '?') (hd : c ≠ '-') : ends m (c :: cs) = false := by
  rw [Bool.eq_false_iff, ne_eq, ends_iff]
  rintro ⟨k, -, hk⟩
  cases k
  · exact hq (List.cons_prefix_cons.mp hk).1.symm
  · exact hd (List.cons_prefix_cons.mp hk).1.symm

theorem isQuote_iff {c : Char} : isQuote c = true ↔ c = '\'' ∨ c = '"' := by
  simp [isQuote]

theorem ends_eq_false_of_isQuote {m : Option Marker} {c : Char} {cs : List Char}
    (h : isQuote c = true) : ends m (c :: cs) = false := by
  rcases isQuote_iff.mp h with rfl | rfl
  · exact ends_cons_eq_false (by decide) (by decide)
  · exact ends_cons_eq_false (by decide) (by decide)

/-- What begins in the first part of a text ends there, or begins with all that is left of it. -/
theorem prefix_append_cases {as xs ys : List Char} (h : as <+: xs ++ ys) :
    as <+: xs ∨ ∃ b bs, as = xs ++ b :: bs ∧ b :: bs <+: ys := by
  rcases List.prefix_or_prefix_of_prefix h (List.prefix_append xs ys) with hp | ⟨t, rfl⟩
  · exact Or.inl hp
  · cases t with
    | nil => exact Or.inl (by simp)
    | cons b bs => exact Or.inr ⟨b, bs, rfl, (List.prefix_append_right_inj xs).mp h⟩

/-- A closer that begins in the source of a literal ends in it. -/
theorem closer_prefix_of_quote {k : Marker} {xs rest : List Char} {quote : Char}
    (hq : isQuote quote = true) (h : k.closer <+: xs ++ quote :: rest) : k.closer <+: xs := by
  rcases prefix_append_cases h with hp | ⟨b, bs, hc, hb⟩
  · exact hp
  · -- otherwise the quote would be a sign of the closer
    exfalso
    have hmem : quote ∈ k.closer := by
      rw [hc, (List.cons_prefix_cons.mp hb).1]
      simp
    rcases isQuote_iff.mp hq with rfl | rfl <;> cases k <;> revert hmem <;> decide

/-- No proper end of a closer is also its beginning. -/
theorem closer_borderless (k : Marker) :
    ∀ n < k.closer.length, n ≠ 0 → ¬ k.closer.drop n <+: k.closer := by
  cases k <;> decide

/-- A closer that begins in a word ends in it. -/
theorem closer_prefix_of_word {k : Marker} {xs rest : List Char} (hx : xs ≠ [])
    (hr : wordEnds (some k) rest = true) (h : k.closer <+: xs ++ rest) : k.closer <+: xs := by
  rcases prefix_append_cases h with hp | ⟨b, bs, hc, hb⟩
  · exact hp
  · -- otherwise the end of the closer would end the word, and so be the start of a closer
    exfalso
    obtain ⟨t, rfl⟩ := hb
    have hmem : b ∈ k.closer := by rw [hc]; simp
    have hblank : isBlank b = false := by
      cases k <;> simp only [Marker.closer, List.mem_cons, List.not_mem_nil, or_false] at hmem
      · rcases hmem with rfl | rfl <;> decide
      · rcases hmem with rfl | rfl | rfl <;> decide
    have hends : k.closer <+: b :: bs ++ t := by
      simpa [wordEnds, ends, Marker.closes, hblank] using hr
    have hle : (b :: bs).length ≤ k.closer.length := by rw [hc]; simp
    have hborder := List.prefix_of_prefix_length_le (List.prefix_append (b :: bs) t) hends hle
    refine closer_borderless k xs.length ?_ (by simpa using hx) ?_
    · rw [hc]
      simp
    · rwa [show k.closer.drop xs.length = b :: bs by rw [hc]; simp]

/-! ## Words -/

theorem wordEnds_drop_wordLength (m : Option Marker) (cs : List Char) :
    wordEnds m (cs.drop (wordLength m cs)) = true := by
  induction cs with
  | nil => rfl
  | cons c cs ih =>
    rw [wordLength]
    split
    · rename_i h
      exact h
    · exact ih

/-- A word reaches up to where words end, if no blank and no closer is in it. -/
theorem wordLength_append {m : Option Marker} {cs rest : List Char}
    (hb : ∀ c ∈ cs, isBlank c = false) (ha : Avoids m cs) (hr : wordEnds m rest = true) :
    wordLength m (cs ++ rest) = cs.length := by
  induction cs with
  | nil =>
    cases rest with
    | nil => rfl
    | cons c rest => simp [wordLength, hr]
  | cons c cs ih =>
    have hin : wordEnds m (c :: cs ++ rest) = false := by
      rw [Bool.eq_false_iff, ne_eq, List.cons_append, wordEnds, hb c (by simp), Bool.false_or,
        ends_iff]
      rintro ⟨k, hk, hp⟩
      obtain rfl := Option.mem_def.mp hk
      -- a closer that begins here ends in the word, where there is none
      exact ha k hk (closer_prefix_of_word (List.cons_ne_nil c cs) hr hp).isInfix
    have htail := ih (fun d hd => hb d (by simp [hd])) (ha.of_suffix (List.suffix_cons c cs))
    rw [List.cons_append, wordLength, ← List.cons_append, hin, if_neg (by simp), htail]
    rfl

/-! ## Raw literals -/

/-- Three bars that begin in the text of a raw literal or in the bars behind it are found there. -/
theorem bars_prefix_iff {c : Char} {text rest : List Char} :
    bars <+: c :: text ++ bars ++ rest ↔ bars <+: c :: text ++ ['|', '|'] := by
  have hle : bars.length ≤ (c :: text ++ ['|', '|']).length := by simp [bars]
  have hpre : c :: text ++ ['|', '|'] <+: c :: text ++ bars ++ rest :=
    ⟨'|' :: rest, by simp [bars]⟩
  exact ⟨fun h => List.prefix_of_prefix_length_le h hpre hle, fun h => h.trans hpre⟩

theorem beforeBars?_append {text : List Char} (rest : List Char)
    (h : ¬ bars <:+: text ++ ['|', '|']) :
    beforeBars? (text ++ bars ++ rest) = some text.length := by
  induction text with
  | nil => rfl
  | cons c text ih =>
    have hhere : ¬ bars <+: c :: text ++ bars ++ rest :=
      fun hp => h (bars_prefix_iff.mp hp).isInfix
    have hthere : ¬ bars <:+: text ++ ['|', '|'] :=
      fun hi => h (hi.trans (List.suffix_cons c _).isInfix)
    rw [← List.isPrefixOf_iff_prefix] at hhere
    simp only [List.cons_append] at hhere ⊢
    rw [beforeBars?, if_neg hhere, ih hthere]
    rfl

theorem beforeBars?_sound {cs : List Char} {n : Nat} (h : beforeBars? cs = some n) :
    ∃ text rest, cs = text ++ bars ++ rest ∧ text.length = n ∧ ¬ bars <:+: text ++ ['|', '|'] := by
  induction cs generalizing n with
  | nil => cases h
  | cons c cs ih =>
    rw [beforeBars?] at h
    split at h
    · rename_i hp
      obtain ⟨rest, hrest⟩ := List.isPrefixOf_iff_prefix.mp hp
      cases h
      exact ⟨[], rest, by simpa using hrest.symm, rfl, by decide⟩
    · rename_i hp
      obtain ⟨k, hk, rfl⟩ := Option.map_eq_some_iff.mp h
      obtain ⟨text, rest, rfl, rfl, htext⟩ := ih hk
      refine ⟨c :: text, rest, rfl, rfl, ?_⟩
      rw [List.cons_append, List.infix_cons_iff, not_or]
      refine ⟨fun hc => hp ?_, htext⟩
      exact List.isPrefixOf_iff_prefix.mpr (bars_prefix_iff.mpr hc)

/-- The text of a raw literal goes up to the first three bars. -/
theorem beforeBars?_eq_some_iff {cs : List Char} {n : Nat} :
    beforeBars? cs = some n ↔ ∃ text rest, cs = text ++ bars ++ rest ∧ text.length = n ∧
      ¬ bars <:+: text ++ ['|', '|'] := by
  constructor
  · exact beforeBars?_sound
  · rintro ⟨text, rest, rfl, rfl, htext⟩
    exact beforeBars?_append rest htext

/-! ## Quoted literals -/

/-- Where the closer neither is nor begins in the rest, it is nowhere. -/
theorem avoids_cons {m : Option Marker} {c : Char} {cs rest : List Char}
    (hc : ends m (c :: cs ++ rest) = false) (h : Avoids m cs) : Avoids m (c :: cs) := by
  intro k hk hi
  rcases List.infix_cons_iff.mp hi with hp | hi
  · rw [Bool.eq_false_iff, ne_eq, ends_iff] at hc
    exact hc ⟨k, hk, hp.trans (List.prefix_append _ rest)⟩
  · exact h k hk hi

/-- A closer that avoids the source does not begin in it. -/
theorem ends_eq_false_of_avoids {m : Option Marker} {quote : Char} {cs : List Char}
    (rest : List Char) (hq : isQuote quote = true) (h : Avoids m cs) :
    ends m (cs ++ quote :: rest) = false := by
  rw [Bool.eq_false_iff, ne_eq, ends_iff]
  rintro ⟨k, hk, hp⟩
  exact h k hk (closer_prefix_of_quote hq hp).isInfix

theorem quotedInside_complete {m : Option Marker} {quote : Char} {source text : List Char}
    (hq : isQuote quote = true) (hs : Quotes quote source text) (ha : Avoids m source)
    (rest : List Char) :
    quotedInside m quote (source ++ quote :: rest) = .ok (text, source.length + 1) := by
  have hne : quote ≠ '\\' := by rintro rfl; exact absurd hq (by decide)
  induction hs with
  | nil =>
    have hend : ends m (quote :: rest) = false := ends_eq_false_of_isQuote hq
    rw [List.nil_append, quotedInside.eq_def]
    simp [hend, hne]
  | @escaped e source text he _ ih =>
    have hend := ends_eq_false_of_avoids rest hq ha
    have htail := ih (ha.of_suffix ⟨['\\', e], rfl⟩)
    simp only [List.cons_append] at hend ⊢
    rw [quotedInside, hend, htail]
    simp [he, quotedInside.cons]
  | @backslash c source text hc hb _ ih =>
    have hend := ends_eq_false_of_avoids rest hq ha
    have htail := ih (ha.of_suffix (List.suffix_cons _ _))
    simp only [List.cons_append] at hend htail ⊢
    rw [quotedInside, hend, htail]
    simp [hc, hb, quotedInside.cons]
  | @plain c source text hc hb _ ih =>
    have hend := ends_eq_false_of_avoids rest hq ha
    have htail := ih (ha.of_suffix (List.suffix_cons _ _))
    simp only [List.cons_append] at hend ⊢
    rw [quotedInside.eq_def]
    simp [hend, hc, hb, htail, quotedInside.cons]

theorem quotedInside_sound {m : Option Marker} {quote : Char} {cs text : List Char} {n : Nat}
    (hq : isQuote quote = true) (h : quotedInside m quote cs = .ok (text, n)) :
    ∃ source rest, cs = source ++ quote :: rest ∧ n = source.length + 1 ∧
      Quotes quote source text ∧ Avoids m source := by
  fun_induction quotedInside m quote cs generalizing text n with
  | case1 => cases h
  | case2 => cases h
  | case3 e cs' he hend ih =>
    obtain ⟨t, k, hr, rfl, rfl⟩ := quotedInside.cons_eq_ok h
    obtain ⟨source, rest, rfl, rfl, hs, ha⟩ := ih hr
    simp only [Bool.or_eq_true, decide_eq_true_eq] at he
    refine ⟨'\\' :: e :: source, rest, rfl, rfl, .escaped he hs, ?_⟩
    -- two signs are passed over at once, and no closer begins at the second one
    have hescaped : ends m (e :: (source ++ quote :: rest)) = false := by
      rcases he with rfl | rfl
      · exact ends_eq_false_of_isQuote hq
      · exact ends_cons_eq_false (by decide) (by decide)
    exact avoids_cons (Bool.eq_false_iff.mpr hend) (avoids_cons hescaped ha)
  | case4 e cs' he hend ih =>
    obtain ⟨t, k, hr, rfl, rfl⟩ := quotedInside.cons_eq_ok h
    obtain ⟨source, rest, hcs, rfl, hs, ha⟩ := ih hr
    simp only [Bool.or_eq_true, decide_eq_true_eq, not_or] at he
    -- the backslash stands for itself, so the sign behind it is in the source and is not the quote
    cases source with
    | nil => exact absurd (List.cons.inj hcs).1 he.1
    | cons c source =>
      obtain ⟨rfl, rfl⟩ := List.cons.inj hcs
      exact ⟨'\\' :: e :: source, rest, rfl, rfl, .backslash he.1 he.2 hs,
        avoids_cons (Bool.eq_false_iff.mpr hend) ha⟩
  | case5 => cases h
  | case6 cs hend hb =>
    cases h
    exact ⟨[], cs, rfl, rfl, .nil, fun k _ hi => by cases k <;> revert hi <;> decide⟩
  | case7 c cs hend hb hc ih =>
    obtain ⟨t, k, hr, rfl, rfl⟩ := quotedInside.cons_eq_ok h
    obtain ⟨source, rest, rfl, rfl, hs, ha⟩ := ih hr
    exact ⟨c :: source, rest, rfl, rfl, .plain hc hb hs,
      avoids_cons (Bool.eq_false_iff.mpr hend) ha⟩

/-- The inside of a quoted literal is a source that the quote ends, without the closer. -/
theorem quotedInside_eq_ok_iff {m : Option Marker} {quote : Char} {cs text : List Char} {n : Nat}
    (hq : isQuote quote = true) :
    quotedInside m quote cs = .ok (text, n) ↔
      ∃ source rest, cs = source ++ quote :: rest ∧ n = source.length + 1 ∧
        Quotes quote source text ∧ Avoids m source := by
  constructor
  · exact quotedInside_sound hq
  · rintro ⟨source, rest, rfl, rfl, hs, ha⟩
    exact quotedInside_complete hq hs ha rest

end Literate.Directive
