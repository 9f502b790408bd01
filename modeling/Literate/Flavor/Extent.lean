import Literate.Flavor.Scan

/-!
# Nested documents are smaller

The content of a fence is shorter than the text that the fence stands in, so documents nested in
documents come to an end.
-/

namespace Literate.Flavor

theorem length_nested_lt {f : Flavor} {language content : List Char} {place p : Position}
    {id inside : String} (h : f.fenceEvent language content place = .nested id inside p) :
    inside.toList = content := by
  unfold fenceEvent at h
  split at h
  · split at h
    · cases h; simp
    · cases h
  · cases h

theorem not_nested_mem_headingSteps {c : Cursor} {id inside : String} {p : Position} :
    Step.event (.nested id inside p) ∉ (headingSteps c).1 := by
  unfold headingSteps
  split <;> simp

theorem not_nested_mem_text {f : Flavor} {c : Cursor} {steps : List Step} {n : Nat}
    {id inside : String} {p : Position} (h : f.lineStart c = .text steps n) :
    Step.event (.nested id inside p) ∉ steps := by
  unfold lineStart at h
  split at h
  · cases h
  · cases h
    simpa using not_nested_mem_headingSteps
  · cases h
    exact not_nested_mem_headingSteps

/-- A nested document that is scanned out of a text is shorter than the text. -/
theorem length_lt_of_mem_scanFrom {f : Flavor} {atStart : Bool} {c : Cursor} {id inside : String}
    {p : Position} (h : Step.event (.nested id inside p) ∈ f.scanFrom atStart c) :
    inside.toList.length < c.rest.length := by
  fun_induction scanFrom f atStart c with
  | case1 c e n hl ih =>
    simp only [List.mem_cons, Step.event.injEq] at h
    rcases h with h | h
    · unfold lineStart at hl
      split at hl
      · rename_i language content k hf
        have hlt := (fenceLine_length hf).2
        cases hl
        rw [length_nested_lt h.symm]
        exact hlt
      · cases hl
      · cases hl
    · have := ih h
      simp only [Cursor.rest_advance, List.length_drop] at this
      omega
  | case2 c steps n hl ih =>
    rcases List.mem_append.mp h with h | h
    · exact absurd h (not_nested_mem_text hl)
    · have := ih h
      simp only [Cursor.rest_advance, List.length_drop] at this
      omega
  | case3 => simp at h
  | case4 c _ ih =>
    have := ih h
    simp only [Cursor.rest_advance, List.length_drop] at this
    omega
  | case5 c _ ih =>
    have := ih h
    simp only [Cursor.rest_advance, List.length_drop] at this
    omega
  | case6 c d stop hd ih =>
    simp only [List.mem_cons, Step.event.injEq, reduceCtorEq, false_or] at h
    have := ih h
    have := Directive.readAt_length_lt (inline_directive hd)
    omega
  | case7 c fault n hr ih =>
    simp only [List.mem_cons, reduceCtorEq, false_or] at h
    have := ih h
    simp only [Cursor.rest_advance, List.length_drop] at this
    omega

theorem length_lt_of_mem_scan {f : Flavor} {text id inside : String} {p : Position}
    (h : Step.event (.nested id inside p) ∈ f.scan text) :
    inside.toList.length < text.toList.length :=
  length_lt_of_mem_scanFrom h

end Literate.Flavor
