import Literate.Proofs.Path.Reduction

/-!
# The names in the text of a path

A text is names with slashes between them (`Spells`), and it is so in one way only, but for the empty text
(`splitSlashes_intercalate`, `intercalate_splitSlashes`). Its path has those of the names that lead anywhere
(`Spells.names_eq`), and starts at the top directory if the text starts with a slash
(`anchor_eq_relative_iff`).
-/

namespace Literate.Path

variable {text : String} {pieces : List String}

/-- Whether a text is some pieces with slashes between them. -/
structure Spells (pieces : List String) (text : String) : Prop where
  joined : text.toList = ['/'].intercalate (pieces.map String.toList)
  unbroken : ∀ piece ∈ pieces, '/' ∉ piece.toList

/-- Whether a text starts at the top directory. -/
def Absolute (text : String) : Prop := ∃ cs, text.toList = '/' :: cs

instance (text : String) : Decidable (Absolute text) :=
  decidable_of_iff (text.toList.head? = some '/') List.head?_eq_some_iff

theorem splitSlashes_ne_nil (cs : List Char) : splitSlashes cs ≠ [] := by
  cases cs with
  | nil => nofun
  | cons c cs =>
    rw [splitSlashes]
    split
    · nofun
    · split <;> nofun

theorem splitSlashes_of_not_mem {cs : List Char} (h : '/' ∉ cs) : splitSlashes cs = [cs] := by
  induction cs with
  | nil => rfl
  | cons c cs ih =>
    rw [List.mem_cons, not_or] at h
    rw [splitSlashes, if_neg (Ne.symm h.1), ih h.2]

theorem splitSlashes_append {cs : List Char} (h : '/' ∉ cs) (more : List Char) :
    splitSlashes (cs ++ '/' :: more) = cs :: splitSlashes more := by
  induction cs with
  | nil => rw [List.nil_append, splitSlashes, if_pos rfl]
  | cons c cs ih =>
    rw [List.mem_cons, not_or] at h
    rw [List.cons_append, splitSlashes, if_neg (Ne.symm h.1), ih h.2]

/-- Pieces with slashes between them are split into the pieces. -/
theorem splitSlashes_intercalate {piece : List Char} {pieces : List (List Char)}
    (h : ∀ p ∈ piece :: pieces, '/' ∉ p) :
    splitSlashes (['/'].intercalate (piece :: pieces)) = piece :: pieces := by
  induction pieces generalizing piece with
  | nil => rw [List.intercalate_singleton, splitSlashes_of_not_mem (h piece (by simp))]
  | cons next pieces ih =>
    rw [List.intercalate_cons_cons, List.append_assoc, List.singleton_append,
      splitSlashes_append (h piece (by simp)), ih fun p hp => h p (List.mem_cons_of_mem _ hp)]

/-- A text is the pieces that it is split into, with slashes between them. -/
theorem intercalate_splitSlashes (cs : List Char) : ['/'].intercalate (splitSlashes cs) = cs := by
  induction cs with
  | nil => rfl
  | cons c cs ih =>
    obtain ⟨piece, pieces, hsplit⟩ := List.exists_cons_of_ne_nil (splitSlashes_ne_nil cs)
    rw [splitSlashes]
    split
    · rename_i hc
      rw [hsplit, List.intercalate_cons_cons, ← hsplit, ih, hc]
      rfl
    · rw [hsplit] at ih ⊢
      cases pieces with
      | nil => simpa using ih
      | cons next pieces =>
        rw [List.intercalate_cons_cons] at ih ⊢
        rw [List.cons_append, List.cons_append, ih]

theorem slash_not_mem_of_mem_splitSlashes {cs piece : List Char} (h : piece ∈ splitSlashes cs) :
    '/' ∉ piece := by
  induction cs generalizing piece with
  | nil =>
    rw [splitSlashes, List.mem_singleton] at h
    simp [h]
  | cons c cs ih =>
    obtain ⟨first, pieces, hsplit⟩ := List.exists_cons_of_ne_nil (splitSlashes_ne_nil cs)
    rw [splitSlashes] at h
    split at h
    · rcases List.mem_cons.mp h with rfl | h
      · exact List.not_mem_nil
      · exact ih h
    · rename_i hc
      rw [hsplit] at h ih
      rcases List.mem_cons.mp h with rfl | h
      · rw [List.mem_cons, not_or]
        exact ⟨Ne.symm hc, ih (List.mem_cons_self ..)⟩
      · exact ih (List.mem_cons_of_mem _ h)

theorem exists_spells (text : String) : ∃ pieces, Spells pieces text := by
  refine ⟨(splitSlashes text.toList).map String.ofList, ?_, ?_⟩
  · simp [intercalate_splitSlashes]
  · simp only [List.mem_map, forall_exists_index, and_imp, forall_apply_eq_imp_iff₂,
      String.toList_ofList]
    exact fun piece => slash_not_mem_of_mem_splitSlashes

theorem leads_eq (piece : String) : (!piece.toList.isEmpty && piece.toList != ['.']) = leads piece := by
  have hhere : (piece.toList = ['.']) = (piece = ".") :=
    propext ⟨fun h => String.toList_inj.mp h, fun h => by rw [h]; rfl⟩
  have hempty : (piece.toList = []) = (piece = "") := propext String.toList_eq_nil_iff
  rw [Bool.eq_iff_iff]
  simp [leads, hhere, hempty]

/-- The path of a text has the names of the text that lead anywhere. -/
theorem Spells.names_eq (h : Spells pieces text) : (ofString text).names = pieces.filter leads := by
  rw [ofString, h.joined]
  cases pieces with
  | nil => rfl
  | cons piece pieces =>
    have hunbroken : ∀ p ∈ piece.toList :: pieces.map String.toList, '/' ∉ p := by
      rw [← List.map_cons]
      simpa using h.unbroken
    rw [List.map_cons, splitSlashes_intercalate hunbroken, ← List.map_cons, List.filter_map,
      List.map_map]
    have hleads : ((fun p => !p.isEmpty && p != ['.']) ∘ String.toList) = leads := funext leads_eq
    have hsame : String.ofList ∘ String.toList = id := funext fun s => String.ofList_toList
    rw [hleads, hsame, List.map_id]

theorem mem_intercalate_iff {c : Char} (hc : c ≠ '/') (pieces : List (List Char)) :
    c ∈ ['/'].intercalate pieces ↔ ∃ piece ∈ pieces, c ∈ piece := by
  induction pieces with
  | nil => simp
  | cons piece pieces ih =>
    cases pieces with
    | nil => simp
    | cons next pieces =>
      rw [List.intercalate_cons_cons, List.mem_append, List.mem_append, ih]
      simp [hc]

/-- A text is made of the characters of its pieces and slashes. -/
theorem Spells.mem_iff {c : Char} (h : Spells pieces text) (hc : c ≠ '/') :
    c ∈ text.toList ↔ ∃ piece ∈ pieces, c ∈ piece.toList := by
  rw [h.joined, mem_intercalate_iff hc]
  simp

/-- A path has a name that no file can have exactly if the character is in its text. -/
theorem hasNul_ofString_iff : (ofString text).hasNul = true ↔ '\x00' ∈ text.toList := by
  obtain ⟨pieces, hpieces⟩ := exists_spells text
  rw [hpieces.mem_iff (by decide), hasNul, hpieces.names_eq, List.any_eq_true]
  constructor
  · rintro ⟨name, hname, hnul⟩
    exact ⟨name, (List.mem_filter.mp hname).1, List.contains_iff_mem.mp hnul⟩
  · rintro ⟨piece, hpiece, hnul⟩
    refine ⟨piece, List.mem_filter.mpr ⟨hpiece, ?_⟩, List.contains_iff_mem.mpr hnul⟩
    -- neither of the pieces that lead nowhere holds the character
    have hnot : piece ≠ "" ∧ piece ≠ "." := by
      constructor <;> rintro rfl <;> exact absurd hnul (by decide)
    simpa [leads] using hnot

theorem hasNul_ofString_eq_false_iff : (ofString text).hasNul = false ↔ '\x00' ∉ text.toList := by
  rw [← hasNul_ofString_iff, Bool.not_eq_true]

theorem anchor_eq_relative_iff : (ofString text).anchor = .relative ↔ ¬ Absolute text := by
  rw [ofString, Absolute]
  generalize text.toList = cs
  unfold anchorOf
  split
  · exact iff_of_false nofun (not_not_intro ⟨_, rfl⟩)
  · exact iff_of_false nofun (not_not_intro ⟨_, rfl⟩)
  · exact iff_of_false nofun (not_not_intro ⟨_, rfl⟩)
  · rename_i hno
    exact iff_of_true rfl fun ⟨cs, heq⟩ => hno cs heq

end Literate.Path
