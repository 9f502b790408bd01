import Literate.Text.Blank
import Mathlib.Data.List.DropRight

/-!
# Texts without the blanks at their ends

What is left of a text without the blanks at its ends is known from three facts: only blanks stand before it
and behind it, and neither end of it is blank (`Trims`). Stripping a text leaves just that (`strip_eq_iff`).
-/

namespace Literate.Text

variable {cs kept kept' : List Char} {c : Char}

/-- Whether a text is what is left of another one without the blanks at its ends. -/
structure Trims (cs kept : List Char) : Prop where
  split : ∃ before after, cs = before ++ kept ++ after ∧ (∀ c ∈ before, isBlank c = true) ∧
    ∀ c ∈ after, isBlank c = true
  first : ∀ c ∈ kept.head?, isBlank c = false
  last : ∀ c ∈ kept.getLast?, isBlank c = false

theorem dropWhile_isBlank (h : ∀ c ∈ cs.head?, isBlank c = false) : cs.dropWhile isBlank = cs := by
  cases cs with
  | nil => rfl
  | cons c cs =>
    have hc : isBlank c = false := h c rfl
    rw [List.dropWhile_cons_of_neg (by simp [hc])]

/-- Nothing is dropped from the end of a text exactly if that is no blank. -/
theorem rdropWhile_isBlank_iff :
    cs.rdropWhile isBlank = cs ↔ ∀ c ∈ cs.getLast?, isBlank c = false := by
  rw [List.rdropWhile_eq_self_iff]
  constructor
  · intro hlast c hc
    obtain ⟨before, rfl⟩ := List.getLast?_eq_some_iff.mp hc
    simpa using hlast (by simp)
  · intro hlast hne
    simpa using hlast _ (List.getLast?_eq_some_getLast hne)

/-- What is left without the blanks at the end does not end in one. -/
theorem isBlank_of_mem_rdropWhile (hc : c ∈ (cs.rdropWhile isBlank).getLast?) : isBlank c = false :=
  rdropWhile_isBlank_iff.mp (List.rdropWhile_idempotent isBlank cs) c hc

theorem trims_strip (cs : List Char) : Trims cs (strip cs) := by
  have hstrip : strip cs = (cs.dropWhile isBlank).rdropWhile isBlank := rfl
  rw [hstrip]
  refine ⟨⟨cs.takeWhile isBlank, (cs.dropWhile isBlank).rtakeWhile isBlank, ?_, ?_, ?_⟩, ?_, ?_⟩
  · rw [List.append_assoc, List.rdropWhile_append_rtakeWhile, List.takeWhile_append_dropWhile]
  · exact fun c => List.mem_takeWhile_imp
  · exact fun c => List.mem_rtakeWhile_imp
  · intro c hc
    -- the first character that is left is the first one behind the blanks
    obtain ⟨rest, hrest⟩ := List.head?_eq_some_iff.mp hc
    obtain ⟨more, hmore⟩ := List.rdropWhile_prefix isBlank (cs.dropWhile isBlank)
    have hfirst := List.head?_dropWhile_not isBlank cs
    rw [← hmore, hrest] at hfirst
    exact hfirst
  · exact fun c => isBlank_of_mem_rdropWhile

theorem exists_trims (text : String) : ∃ kept : String, Trims text.toList kept.toList :=
  ⟨String.ofList (strip text.toList), by simpa using trims_strip text.toList⟩

/-- Stripping a text leaves what is left without the blanks at its ends. -/
theorem strip_eq_iff : strip cs = kept ↔ Trims cs kept := by
  constructor
  · rintro rfl
    exact trims_strip cs
  · rintro ⟨⟨before, after, rfl, hbefore, hafter⟩, hfirst, hlast⟩
    have hstrip : strip (before ++ kept ++ after) =
        ((before ++ kept ++ after).dropWhile isBlank).rdropWhile isBlank := rfl
    have hbehind : (kept ++ after).rdropWhile isBlank = kept.rdropWhile isBlank := by
      rw [List.rdropWhile, List.reverse_append, List.dropWhile_append_of_pos (by simpa using hafter),
        ← List.rdropWhile]
    rw [hstrip, List.append_assoc, List.dropWhile_append_of_pos hbefore]
    cases kept with
    | nil =>
      rw [List.nil_append, List.dropWhile_eq_nil_iff.mpr hafter]
      rfl
    | cons c kept =>
      have hstart : (c :: kept ++ after).dropWhile isBlank = c :: kept ++ after :=
        dropWhile_isBlank hfirst
      rw [hstart, hbehind, rdropWhile_isBlank_iff.mpr hlast]

theorem Trims.unique (h : Trims cs kept) (h' : Trims cs kept') : kept = kept' :=
  (strip_eq_iff.mpr h).symm.trans (strip_eq_iff.mpr h')

/-- A text is left as it is if neither end of it is blank. -/
theorem trims_self (hfirst : ∀ c ∈ cs.head?, isBlank c = false)
    (hlast : ∀ c ∈ cs.getLast?, isBlank c = false) : Trims cs cs :=
  ⟨⟨[], [], by simp, nofun, nofun⟩, hfirst, hlast⟩

/-- A first character that is no blank is left. -/
theorem Trims.cons (h : Trims (c :: cs) kept) (hc : isBlank c = false) : ∃ rest, kept = c :: rest := by
  obtain ⟨⟨before, after, hsplit, hbefore, hafter⟩, -, -⟩ := h
  cases before with
  | nil =>
    cases kept with
    | nil =>
      obtain rfl : c :: cs = after := hsplit
      have hblank := hafter c List.mem_cons_self
      rw [hc] at hblank
      cases hblank
    | cons k rest =>
      obtain ⟨rfl, -⟩ := List.cons_eq_cons.mp hsplit
      exact ⟨rest, rfl⟩
  | cons b before =>
    obtain ⟨rfl, -⟩ := List.cons_eq_cons.mp hsplit
    have hblank := hbefore c List.mem_cons_self
    rw [hc] at hblank
    cases hblank

end Literate.Text
