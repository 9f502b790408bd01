import Literate.Proofs.Path.Outside
import Literate.Proofs.Text.Trimming

/-!
# The text of a location

A path leads through the names of files (`fileName_of_mem_locate`), and the text of the location that it leads
to names that location (`ofString_text_ofLocation`). If the last name does not end in a blank, there are no
blanks to be taken off the text (`ofString_trimmed`).
-/

namespace Literate.Path

open Text (isBlank Trims)

variable {cwd loc : Location} {name text kept : String} {names : List String}

/-- A name of something in a directory, in which there is no slash. -/
structure FileName (name : String) : Prop extends Proper name where
  unbroken : '/' ∉ name.toList

instance (name : String) : Decidable (FileName name) :=
  decidable_of_iff (Proper name ∧ '/' ∉ name.toList) ⟨fun ⟨h, h'⟩ => ⟨h, h'⟩, fun ⟨h, h'⟩ => ⟨h, h'⟩⟩

theorem FileName.exists_cons (h : FileName name) : ∃ c cs, name.toList = c :: cs ∧ c ≠ '/' := by
  obtain ⟨c, cs, hname⟩ := List.exists_cons_of_ne_nil (mt String.toList_eq_nil_iff.mp h.not_empty)
  refine ⟨c, cs, hname, ?_⟩
  rintro rfl
  exact h.unbroken (hname ▸ List.mem_cons_self)

/-! ## Where texts lead -/

theorem fileName_of_mem_foldl (hloc : ∀ name ∈ loc, FileName name)
    (hnames : ∀ name ∈ names, leads name = true ∧ '/' ∉ name.toList) :
    ∀ name ∈ names.foldl follow loc, FileName name := by
  induction names generalizing loc with
  | nil => exact hloc
  | cons name names ih =>
    rw [List.forall_mem_cons] at hnames
    refine ih ?_ hnames.2
    rw [follow]
    split
    · exact fun name' h => hloc name' (List.dropLast_subset loc h)
    · rename_i hup
      have hleads : name ≠ "" ∧ name ≠ "." := by simpa [leads] using hnames.1.1
      refine List.forall_mem_append.mpr ⟨hloc, List.forall_mem_singleton.mpr ?_⟩
      exact ⟨⟨hleads.1, hleads.2, hup⟩, hnames.1.2⟩

/-- A text leads to a location whose names are those of files. -/
theorem fileName_of_mem_locate (hcwd : ∀ name ∈ cwd, FileName name) (text : String) :
    ∀ name ∈ (ofString text).locate cwd, FileName name := by
  obtain ⟨pieces, hpieces⟩ := exists_spells text
  have hnames : ∀ name ∈ (ofString text).names, leads name = true ∧ '/' ∉ name.toList := by
    rw [hpieces.names_eq]
    intro name hname
    obtain ⟨hmem, hleads⟩ := List.mem_filter.mp hname
    exact ⟨hleads, hpieces.unbroken name hmem⟩
  rw [locate]
  refine fileName_of_mem_foldl ?_ hnames
  split
  · exact hcwd
  · exact List.forall_mem_nil _

/-! ## The text of a location -/

/-- Names with a slash in front of each. -/
def slashed (names : List String) : List Char := names.flatMap fun name => '/' :: name.toList

theorem slashed_concat (names : List String) (name : String) :
    slashed (names ++ [name]) = slashed names ++ '/' :: name.toList := by
  simp [slashed]

theorem slashed_eq_intercalate (names : List String) :
    slashed names = ['/'].intercalate (("" :: names).map String.toList) := by
  induction names with
  | nil => rfl
  | cons name names ih =>
    rw [List.map_cons, List.map_cons, List.intercalate_cons_cons] at *
    rw [slashed, List.flatMap_cons, ← slashed, ih]
    cases names with
    | nil => simp
    | cons next names => simp [List.intercalate_cons_cons]

theorem spells_slashed (hnames : ∀ name ∈ names, '/' ∉ name.toList) (htext : text.toList = slashed names) :
    Spells ("" :: names) text :=
  ⟨htext.trans (slashed_eq_intercalate names),
    List.forall_mem_cons.mpr ⟨List.not_mem_nil, hnames⟩⟩

theorem toList_text_ofLocation (h : loc ≠ []) : (ofLocation loc).text.toList = slashed loc := by
  obtain ⟨name, names, rfl⟩ := List.exists_cons_of_ne_nil h
  rw [slashed_eq_intercalate, List.map_cons, List.map_cons, List.intercalate_cons_cons]
  simp [ofLocation, Path.text, String.toList_intercalate]

theorem absolute_text_ofLocation (loc : Location) : ∃ cs, (ofLocation loc).text.toList = '/' :: cs := by
  simp [ofLocation, Path.text]

/-- The text of a location names the location. -/
theorem ofString_text_ofLocation (h : ∀ name ∈ loc, FileName name) :
    ofString (ofLocation loc).text = ofLocation loc := by
  cases loc with
  | nil => rfl
  | cons name names =>
    have htext := toList_text_ofLocation (List.cons_ne_nil name names)
    have hnames : (ofString (ofLocation (name :: names)).text).names = name :: names := by
      have hleads : ∀ n ∈ name :: names, leads n = true := fun n hn => (h n hn).leads
      rw [(spells_slashed (fun n hn => (h n hn).unbroken) htext).names_eq,
        List.filter_cons_of_neg (by decide), List.filter_eq_self.mpr hleads]
    have hanchor : (ofString (ofLocation (name :: names)).text).anchor = .top := by
      obtain ⟨c, cs, hname, hc⟩ := (h name List.mem_cons_self).exists_cons
      rw [ofString, htext, slashed, List.flatMap_cons, hname]
      simp only [List.cons_append]
      unfold anchorOf
      split <;> simp_all
    calc ofString (ofLocation (name :: names)).text
        = ⟨(ofString (ofLocation (name :: names)).text).anchor,
            (ofString (ofLocation (name :: names)).text).names⟩ := rfl
      _ = ofLocation (name :: names) := by rw [hanchor, hnames, ofLocation]

theorem getLast?_slashed (h : ∀ name ∈ names, FileName name) {c : Char} (hc : c ∈ (slashed names).getLast?) :
    ∃ name ∈ names.getLast?, c ∈ name.toList.getLast? := by
  cases names using List.reverseRecOn with
  | nil => cases hc
  | append_singleton names last =>
    refine ⟨last, List.getLast?_concat, ?_⟩
    obtain ⟨first, rest, hlast, -⟩ := (h last (by simp)).exists_cons
    rw [slashed_concat, List.getLast?_append_cons, hlast, List.getLast?_cons_cons] at hc
    rw [hlast]
    exact hc

/-- The text of a location whose last name does not end in a blank has no blanks at its ends. -/
theorem trims_text_ofLocation (h : ∀ name ∈ loc, FileName name)
    (hends : ∀ name ∈ loc.getLast?, ∀ c ∈ name.toList.getLast?, isBlank c = false) :
    Trims (ofLocation loc).text.toList (ofLocation loc).text.toList := by
  have hslash : isBlank '/' = false := by decide
  refine Text.trims_self ?_ ?_
  · obtain ⟨cs, hcs⟩ := absolute_text_ofLocation loc
    rw [hcs]
    rintro c ⟨⟩
    exact hslash
  · cases loc with
    | nil =>
      rintro c ⟨⟩
      exact hslash
    | cons first names =>
      rw [toList_text_ofLocation (List.cons_ne_nil first names)]
      intro c hc
      obtain ⟨name, hname, hlast⟩ := getLast?_slashed h hc
      exact hends name hname c hlast

/-- Without the blanks at its ends, the text of a location names the location if its last name does not end in
a blank. -/
theorem ofString_trimmed (h : ∀ name ∈ loc, FileName name)
    (hkept : Trims (ofLocation loc).text.toList kept.toList)
    (hends : ∀ name ∈ loc.getLast?, ∀ c ∈ name.toList.getLast?, isBlank c = false) :
    ofString kept = ofLocation loc := by
  rw [String.toList_inj.mp (hkept.unique (trims_text_ofLocation h hends)), ofString_text_ofLocation h]

end Literate.Path
