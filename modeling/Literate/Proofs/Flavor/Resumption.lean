import Literate.Proofs.Directive.Skipping
import Literate.Proofs.Flavor.Placement

/-!
# Where a scan goes on behind a malformed directive

A directive that begins well, with a qualifier and some items (`Written.Front`), may still be malformed further
on. Skipping steps over its values as a whole (`Front.Formed.passesOver`), so a closer behind its items is found
behind all of them. Only when there is none does skipping go back to the opener: then it comes to the first closer
wherever it stands, be it between the bars of a raw literal, or to the end of the line.

So there is an exact condition under which skipping goes behind the items (`Front.Passed`), and under it nothing
that stands in their values is scanned again (`resumes_behind_items`).
-/

namespace Literate

namespace Directive

open Written (itemsChars qualifierChars)

variable {m : Marker} {cs ds rest : List Char} {n : Nat}

/-! ## The first closer -/

theorem throughAnyCloser?_eq_none_iff : throughAnyCloser? m cs = none ↔ ¬ m.closer <:+: cs := by
  induction cs with
  | nil => cases m <;> decide
  | cons c cs ih =>
    rw [throughAnyCloser?, List.infix_cons_iff, not_or]
    split
    · rename_i hcloses
      simp [List.isPrefixOf_iff_prefix.mp hcloses]
    · rename_i hcloses
      rw [Option.map_eq_none_iff, ih, ← List.isPrefixOf_iff_prefix]
      exact (and_iff_right hcloses).symm

/-- What is counted ends with the closer. -/
theorem closer_suffix_take (h : throughAnyCloser? m cs = some n) : m.closer <:+ cs.take n := by
  induction cs generalizing n with
  | nil => cases h
  | cons c cs ih =>
    rw [throughAnyCloser?] at h
    split at h
    · rename_i hcloses
      cases h
      exact ⟨[], List.prefix_iff_eq_take.mp (List.isPrefixOf_iff_prefix.mp hcloses)⟩
    · obtain ⟨k, hk, rfl⟩ := Option.map_eq_some_iff.mp h
      rw [List.take_succ_cons]
      exact (ih hk).trans (List.suffix_cons c _)

/-- The first closer of a text is the first one of every longer text. -/
theorem throughAnyCloser?_append (h : throughAnyCloser? m cs = some n) (ds : List Char) :
    throughAnyCloser? m (cs ++ ds) = some n := by
  induction cs generalizing n with
  | nil => cases h
  | cons c cs ih =>
    have hle := throughAnyCloser?_le h
    have hlong := (closer_suffix_take h).length_le
    have hcloses : m.closes (c :: cs ++ ds) = m.closes (c :: cs) := by
      rw [Bool.eq_iff_iff, Marker.closes, Marker.closes, List.isPrefixOf_iff_prefix,
        List.isPrefixOf_iff_prefix]
      refine ⟨fun hp => ?_, fun hp => hp.trans (List.prefix_append _ ds)⟩
      rw [List.length_take] at hlong
      exact List.prefix_of_prefix_length_le hp (List.prefix_append _ ds) (by omega)
    rw [throughAnyCloser?] at h
    rw [List.cons_append] at hcloses ⊢
    rw [throughAnyCloser?, hcloses]
    split at h
    · rename_i hhere
      rw [if_pos hhere]
      exact h
    · rename_i hhere
      obtain ⟨k, hk, rfl⟩ := Option.map_eq_some_iff.mp h
      rw [if_neg hhere, ih hk]
      rfl

/-- Behind a text that does not end with the closer, the first closer ends if none stands in that text, and only
then. -/
theorem length_le_throughAnyCloser?_iff (hend : ¬ m.closer <:+ cs)
    (h : throughAnyCloser? m (cs ++ ds) = some n) : cs.length ≤ n ↔ ¬ m.closer <:+: cs := by
  constructor
  · intro hle hinfix
    obtain ⟨k, hk⟩ := Option.ne_none_iff_exists'.mp fun hnone => throughAnyCloser?_eq_none_iff.mp hnone hinfix
    obtain rfl : k = n := Option.some.inj ((throughAnyCloser?_append hk ds).symm.trans h)
    have hsuffix := closer_suffix_take hk
    rw [List.take_of_length_le hle] at hsuffix
    exact hend hsuffix
  · intro hnone
    by_contra hlt
    have hsuffix := closer_suffix_take h
    rw [List.take_append_of_le_length (Nat.le_of_not_le hlt)] at hsuffix
    exact hnone (hsuffix.isInfix.trans (List.take_prefix n cs).isInfix)

theorem length_le_takeWhile_iff {c : Char} (cs ds : List Char) :
    cs.length ≤ ((cs ++ ds).takeWhile (· != c)).length ↔ c ∉ cs := by
  induction cs with
  | nil => simp
  | cons d cs ih =>
    by_cases hd : d = c
    · simp [hd]
    · simp [hd, Ne.symm hd, ih]

theorem closer_not_suffix_concat {c : Char} (hc : c ≠ '>') (cs : List Char) : ¬ m.closer <:+ cs ++ [c] := by
  rintro ⟨before, heq⟩
  have hlast := congrArg List.getLast? heq
  cases m <;> simp only [Marker.closer, List.getLast?_append, List.getLast?_singleton] at hlast <;>
    exact hc (Option.some.inj hlast).symm

/-- No value ends with the closer. -/
theorem closer_not_suffix_value {v : Written.Value} (h : v.Closed (some m)) : ¬ m.closer <:+ v.chars := by
  cases v with
  | raw text =>
    have hbar := closer_not_suffix_concat (m := m) (c := '|') (by decide) (bars ++ text ++ ['|', '|'])
    rwa [List.append_assoc] at hbar
  | quoted quote source =>
    refine closer_not_suffix_concat ?_ (quote :: source)
    rintro rfl
    exact absurd h.1 (by decide)
  | word cs => exact fun hsuffix => h.2.2 m rfl hsuffix.isInfix

/-- Nor does an item: no equals sign stands in a closer. -/
theorem closer_not_suffix_item {i : Written.Item} (h : i.Formed m) (cs : List Char) :
    ¬ m.closer <:+ cs ++ i.chars := by
  have hchars : cs ++ i.chars = cs ++ i.blanks ++ i.name ++ '=' :: i.value.chars := by
    simp [Written.Item.chars, Written.Item.lead]
  intro hsuffix
  rw [hchars] at hsuffix
  have hbehind : '=' ∉ m.closer := by cases m <;> decide
  -- a closer at the end would stand in the value or reach over the equals sign
  rcases List.suffix_or_suffix_of_suffix hsuffix (List.suffix_append _ _) with hin | hover
  · rcases List.suffix_cons_iff.mp hin with heq | hin
    · exact hbehind (heq ▸ List.mem_cons_self)
    · exact closer_not_suffix_value h.closed hin
  · exact hbehind (hover.subset List.mem_cons_self)

/-! ## The start of a directive -/

/-- The start of a directive: its opener, its qualifier and one or more of its items. -/
structure Written.Front where
  marker : Marker
  qualifier : Option (List Char)
  items : List Written.Item
  last : Written.Item

namespace Written.Front

/-- What stands behind the opener. -/
def inside (w : Front) : List Char := qualifierChars w.qualifier ++ itemsChars w.items ++ w.last.chars

def chars (w : Front) : List Char := w.marker.opener ++ w.inside

/-- Whether the parts can be told apart when `rest` follows them. -/
structure Formed (w : Front) (rest : List Char) : Prop where
  qualifier : ∀ q ∈ w.qualifier, (Value.word q).Closed (some w.marker)
  items : ∀ i ∈ w.items, i.Formed w.marker
  last : w.last.Formed w.marker
  ends : w.last.value.EndsBefore w.marker rest

/-- Whether something ends the directive behind its items: a closer that stands in no value; where there is none,
the first closer of all, which then does not end in them; where there is no closer at all, the end of the line. -/
def Passed (w : Front) (rest : List Char) : Prop :=
  (throughCloser? w.marker rest).isSome ∨
    ¬ w.marker.closer <:+: w.inside ∧ (w.marker.closer <:+: w.inside ++ rest ∨ '\n' ∉ w.inside)

variable {w : Front}

theorem Formed.wordEnds_items (h : w.Formed rest) :
    wordEnds (some w.marker) (itemsChars w.items ++ (w.last.chars ++ rest)) = true :=
  Directive.wordEnds_items h.items (wordEnds_item h.last rest)

theorem Formed.at?_chars (h : w.Formed rest) : Marker.at? (w.chars ++ rest) = some w.marker := by
  rw [chars, inside, List.append_assoc, List.append_assoc, List.append_assoc]
  apply at?_append
  cases hq : w.qualifier with
  | none => exact Or.inr h.wordEnds_items
  | some q => exact Or.inl rfl

/-- Skipping steps over the qualifier and the items as a whole. -/
theorem Formed.passesOver (h : w.Formed rest) : PassesOver w.marker w.inside rest := by
  have hqualifier := passesOver_qualifier h.qualifier h.wordEnds_items
  have hitems := passesOver_items h.items (wordEnds_item h.last rest)
  exact (hqualifier.append hitems).append (passesOver_item h.last h.ends)

theorem drop_opener (w : Front) (rest : List Char) :
    (w.chars ++ rest).drop w.marker.opener.length = w.inside ++ rest := by
  rw [chars, List.append_assoc, List.drop_left]

/-- How far skipping goes when it finds no closer behind the items: to the first closer of all, or to the end of
the line. -/
theorem Formed.skipLength_of_none (h : w.Formed rest) (hnone : throughCloser? w.marker rest = none) :
    skipLength (w.chars ++ rest) =
      match throughAnyCloser? w.marker (w.inside ++ rest) with
      | some n => w.marker.opener.length + n
      | none => ((w.chars ++ rest).takeWhile (· != '\n')).length := by
  rw [skipLength, h.at?_chars]
  simp only [drop_opener]
  rw [h.passesOver, hnone]
  rfl

theorem Formed.skipLength_of_some (h : w.Formed rest) (hsome : throughCloser? w.marker rest = some n) :
    skipLength (w.chars ++ rest) = w.chars.length + n := by
  rw [skipLength, h.at?_chars]
  simp only [drop_opener]
  rw [h.passesOver, hsome]
  simp only [Option.map_some, Option.orElse_some, chars, List.length_append]
  omega

theorem Formed.length_le_skipLength_iff (h : w.Formed rest) :
    w.chars.length ≤ skipLength (w.chars ++ rest) ↔ w.Passed rest := by
  cases hbehind : throughCloser? w.marker rest with
  | some n =>
    rw [h.skipLength_of_some hbehind]
    exact iff_of_true (Nat.le_add_right _ n) (Or.inl (by rw [hbehind]; rfl))
  | none =>
    rw [h.skipLength_of_none hbehind, Passed, hbehind]
    simp only [Option.isSome_none, Bool.false_eq_true, false_or]
    -- skipping starts again at the opener, now without regard to values
    cases hany : throughAnyCloser? w.marker (w.inside ++ rest) with
    | some n =>
      have hinfix : w.marker.closer <:+: w.inside ++ rest := by
        by_contra hno
        rw [throughAnyCloser?_eq_none_iff.mpr hno] at hany
        cases hany
      have hend : ¬ w.marker.closer <:+ w.inside := closer_not_suffix_item h.last _
      simp only [chars, List.length_append, Nat.add_le_add_iff_left, hinfix, true_or, and_true]
      exact length_le_throughAnyCloser?_iff hend hany
    | none =>
      have hinfix := throughAnyCloser?_eq_none_iff.mp hany
      have hinside : ¬ w.marker.closer <:+: w.inside := fun hin =>
        hinfix (hin.trans (List.prefix_append _ rest).isInfix)
      have hopener : '\n' ∉ w.marker.opener := by cases w.marker <;> decide
      simp only [length_le_takeWhile_iff, chars, List.mem_append, hopener, hinfix, hinside, false_or,
        not_false_eq_true, true_and]

end Written.Front

end Directive

namespace Flavor

open Directive (Marker Fault)
open Directive.Written (Front)

/-- Skipping goes behind the items that a directive begins with exactly if there is a closer or the end of the line
to go to (`Front.Passed`). If so, everything that a scan comes to when the directive is refused was found behind
these items. -/
theorem resumes_behind_items (f : Flavor) (text rest : List Char) (k : Nat) (w : Front)
    (htext : text.drop k = w.chars ++ rest) (hw : w.Formed rest) :
    (w.chars.length ≤ Directive.skipLength (text.drop k) ↔ w.Passed rest) ∧
    ∀ fault, Directive.readAt (.ofOffset text k) = .error fault → w.Passed rest →
      ∃ later found, f.scanFrom false (.ofOffset text k) = .rejected fault :: later ∧
        f.Finds text (k + w.chars.length) later found := by
  have hskip := hw.length_le_skipLength_iff
  rw [← htext] at hskip
  refine ⟨hskip, fun fault hread hpassed => ?_⟩
  have hopener : (Marker.at? (text.drop k)).isSome := by
    rw [htext, hw.at?_chars]
    rfl
  rw [scanFrom_inside, inline_of_opener hopener, hread]
  simp only [Cursor.rest_ofOffset, Cursor.advance_ofOffset]
  obtain ⟨found, hfound⟩ := scanFrom_finds f text (k + Directive.skipLength (text.drop k))
    Bool.false_ne_true.elim
  exact ⟨_, found, rfl, hfound.mono (Nat.add_le_add_left (hskip.mpr hpassed) k)⟩

/-- A heading and a closer in a raw literal. -/
def phantom : Front :=
  ⟨.instruction, none, [], ⟨[' '], "code".toList, .raw "?>\n# Phantom\n".toList⟩⟩

theorem phantom_formed (rest : List Char) : phantom.Formed rest where
  qualifier := nofun
  items := nofun
  last := ⟨by decide, by simp [phantom, Text.isBlank_space], Directive.isName_key (.payload .code),
    show ¬ Directive.bars <:+: _ by decide +kernel⟩
  ends := trivial

theorem resumes_behind_items_phantom :
    let text := "<?btxt code=|||?>\n# Phantom\n||| x ?>".toList
    let fault : Fault := ⟨.unknownKey "x", ⟨32, 33, 3⟩, "x"⟩
    text.drop 0 = phantom.chars ++ " x ?>".toList ∧ phantom.Formed " x ?>".toList ∧
      Directive.readAt (.ofOffset text 0) = .error fault ∧ phantom.Passed " x ?>".toList ∧
      31 ≤ Directive.skipLength (text.drop 0) ∧
      ∃ later found, github.scanFrom false (.ofOffset text 0) = .rejected fault :: later ∧
        github.Finds text 31 later found := by
  intro text fault
  have htext : text.drop 0 = phantom.chars ++ " x ?>".toList := by decide
  have hread : Directive.readAt (.ofOffset text 0) = .error fault := by decide +kernel
  have hpassed : phantom.Passed " x ?>".toList := Or.inl (by decide +kernel)
  have hformed := phantom_formed " x ?>".toList
  obtain ⟨hskip, hscan⟩ := resumes_behind_items github text " x ?>".toList 0 phantom htext hformed
  exact ⟨htext, hformed, hread, hpassed, hskip.mpr hpassed, hscan fault hread hpassed⟩

/-- From the closer in that literal on, a scan comes to the heading. -/
theorem scanFrom_phantom :
    github.scanFrom false ⟨17, 1, "\n# Phantom\n|||".toList⟩ =
      [.event (.heading 1 (some "Phantom") ⟨18, 2⟩)] := by
  have hline : (⟨18, 2, "# Phantom\n|||".toList⟩ : Cursor).rest =
      List.replicate 1 '#' ++ ' ' :: ("Phantom".toList ++ '\n' :: "|||".toList) := by decide
  have hbars : github.scanFrom true ⟨28, 3, "|||".toList⟩ = [] := by
    rw [scanFrom_unmarked (by decide) (not_headingLine_of_head (by simp)),
      scanFrom_plain (List.append_nil _).symm (by simp), scanFrom_done (by decide)]
  have hheading := scanFrom_heading (f := github) hline (by decide) (by simp) (by decide) (by decide)
  have hbehind : (⟨18, 2, "# Phantom\n|||".toList⟩ : Cursor).advance
      (1 + 1 + ("Phantom".toList.length + 1)) = ⟨28, 3, "|||".toList⟩ := by decide
  rw [hbehind, hbars] at hheading
  have hnewline : (⟨17, 1, "\n# Phantom\n|||".toList⟩ : Cursor).rest = '\n' :: "# Phantom\n|||".toList := by
    decide
  rw [scanFrom_newline hnewline]
  exact hheading

/-- Where nothing follows the item, which is one that is accepted, the heading in it is found: the closer between
its bars is the only one. -/
theorem resumes_inside_phantom :
    phantom.Formed [] ∧
      phantom.last.Accepted (some phantom.marker) (.payload .code "?>\n# Phantom\n") ∧
      Directive.readAt (.ofText phantom.chars) =
        .error ⟨.openDirective, ⟨0, 31, 1⟩, String.ofList phantom.chars⟩ ∧
      phantom.chars.length = 31 ∧ Directive.skipLength phantom.chars = 17 ∧
      github.scan (String.ofList phantom.chars) =
        [.rejected ⟨.openDirective, ⟨0, 31, 1⟩, String.ofList phantom.chars⟩,
          .event (.heading 1 (some "Phantom") ⟨18, 2⟩)] := by
  have hread : Directive.readAt (.ofText phantom.chars) =
      .error ⟨.openDirective, ⟨0, 31, 1⟩, String.ofList phantom.chars⟩ := by decide +kernel
  have hskip : Directive.skipLength phantom.chars = 17 := by decide +kernel
  have haccepted : phantom.last.Accepted (some phantom.marker) (.payload .code "?>\n# Phantom\n") :=
    ⟨by decide, (phantom_formed []).last.blank_of_mem, rfl, (phantom_formed []).last.closed, .payload rfl⟩
  have hopener : (Marker.at? (Cursor.ofText phantom.chars).rest).isSome := by decide
  have hcloser : (Cursor.ofText phantom.chars).advance 17 = ⟨17, 1, "\n# Phantom\n|||".toList⟩ := by decide
  refine ⟨phantom_formed [], haccepted, hread, by decide, hskip, ?_⟩
  have hmark : ∀ x ∈ phantom.chars.head?, x ≠ '#' := by
    rintro x ⟨⟩
    decide
  rw [scan, String.toList_ofList, scanFrom_unmarked (by decide) (not_headingLine_of_head hmark), scanFrom_inside,
    inline_of_opener hopener, hread]
  simp only [Cursor.ofText] at hcloser ⊢
  rw [hskip, hcloser, scanFrom_phantom]

end Flavor

end Literate
