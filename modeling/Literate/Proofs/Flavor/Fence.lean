import Literate.Proofs.Flavor.Composition

/-!
# What a closed fence consists of

A fence that is closed is an opening line, whole lines of content none of which would have closed it, and
the closing line with its newline, if the text goes on behind it (`fenceLine_parts`). So the content of a
fence is made of lines of the text around it, and the line that closes the fence is one of those lines as
well, but none of its content.
-/

namespace Literate.Flavor

open Text (isSpaceOrTab)

variable {fence cs language content line : List Char} {n k : Nat}

/-- The line that opens a fence has its newline. -/
theorem opening?_terminated {o : Opening} (h : opening? fence cs = some o) :
    Terminated (cs.take o.length) := by
  unfold opening? at h
  split at h
  · rename_i hfence
    obtain ⟨rest, rfl⟩ := List.isPrefixOf_iff_prefix.mp hfence
    obtain ⟨line, hline⟩ : ∃ line, line = rest.takeWhile (· != '\n') := ⟨_, rfl⟩
    have hrest : rest = line ++ rest.dropWhile (· != '\n') := by
      rw [hline, List.takeWhile_append_dropWhile]
    simp only [List.drop_left, ← hline] at h
    split at h
    · cases h
    · rename_i hmore
      cases h
      cases hend : rest.dropWhile (· != '\n') with
      | nil =>
        rw [hend, List.append_nil] at hrest
        exact absurd (by simp [hrest]) hmore
      | cons x behind =>
        have hx : x = '\n' := by
          have hstop := List.head_dropWhile_not (· != '\n') (l := rest) (by simp [hend])
          simpa [hend] using hstop
        have htext : fence ++ rest = (fence ++ line ++ [x]) ++ behind := by
          rw [hrest, hend]
          simp
        rw [htext, List.take_left' (by simp; omega), hx]
        exact List.suffix_append _ _
  · cases h

/-! ## The content -/

/-- The content of a fence goes up to the start of a line. -/
theorem contentLength?_ends {atStart : Bool} (h : contentLength? fence atStart cs = some n) :
    n = 0 ∧ atStart = true ∨ Terminated (cs.take n) := by
  fun_induction contentLength? fence atStart cs generalizing n with
  | case1 atStart cs hcloses =>
    cases h
    rw [Bool.and_eq_true] at hcloses
    exact Or.inl ⟨rfl, hcloses.1⟩
  | case2 => cases h
  | case3 atStart x cs _ ih =>
    obtain ⟨k, hk, rfl⟩ := Option.map_eq_some_iff.mp h
    rw [List.take_succ_cons]
    rcases ih hk with ⟨rfl, hx⟩ | hends
    · rw [beq_iff_eq.mp hx]
      exact Or.inr List.suffix_rfl
    · exact Or.inr (List.suffix_cons_iff.mpr (Or.inr hends))

/-- A fence is not closed where a line of its content starts. -/
theorem contentLength?_first {atStart : Bool} (h : contentLength? fence atStart cs = some n)
    (hk : k < n) (hline : k = 0 ∧ atStart = true ∨ Terminated (cs.take k)) :
    closesFence fence (cs.drop k) = false := by
  fun_induction contentLength? fence atStart cs generalizing n k with
  | case1 =>
    cases h
    omega
  | case2 => cases h
  | case3 atStart x cs hopen ih =>
    obtain ⟨j, hj, rfl⟩ := Option.map_eq_some_iff.mp h
    cases k with
    | zero =>
      have hstart : atStart = true := by
        rcases hline with ⟨-, hstart⟩ | hends
        · exact hstart
        · exact absurd rfl hends.ne_nil
      simpa [hstart] using hopen
    | succ k =>
      -- a line that starts behind the first character starts at once or further on in the rest
      refine ih hj (by omega) ?_
      have hends : Terminated (x :: cs.take k) := hline.resolve_left (by omega)
      cases htake : cs.take k with
      | nil =>
        have hlength := (contentLength?_closes hj).1
        have hzero : k = 0 := by
          rcases List.take_eq_nil_iff.mp htake with hzero | rfl
          · exact hzero
          · rw [List.length_nil] at hlength
            omega
        rw [htake] at hends
        obtain rfl : x = '\n' := (List.mem_singleton.mp hends.newline_mem).symm
        exact Or.inl ⟨hzero, rfl⟩
      | cons y taken =>
        rw [htake] at hends
        have hbehind : Terminated ([x] ++ y :: taken) := hends
        exact Or.inr ((Terminated.append_iff (List.cons_ne_nil y taken)).mp hbehind)

/-! ## The closing line -/

theorem closingLength_line {rest : List Char} (hline : ClosingLine fence line)
    (hrest : ∀ x ∈ rest.head?, x = '\n') : closingLength fence (line ++ rest) = line.length := by
  obtain ⟨blanks, hblanks, rfl⟩ := hline
  have hnone : rest.takeWhile isSpaceOrTab = [] := by
    cases rest with
    | nil => rfl
    | cons x rest =>
      obtain rfl : x = '\n' := hrest x rfl
      rfl
  rw [closingLength, List.append_assoc, List.drop_left, List.takeWhile_append_of_pos hblanks, hnone,
    List.append_nil, List.length_append]

/-- Where a line starts, the fence is closed by that line or not at all. -/
theorem closesFence_of_line {after : List Char} (hline : ClosingLine fence line)
    (hafter : ∀ x ∈ after.head?, x = '\n') : closesFence fence (line ++ after) = true :=
  closesFence_iff.mpr ⟨line, after, hline, rfl, hafter⟩

/-! ## The parts of a fence -/

/-- The parts of a text that starts with a closed fence of some length: the line that opens the fence, what
is inside, the line that closes it, and what is behind that line. -/
structure Parts (fence cs content : List Char) (n : Nat) (opening line after : List Char) : Prop where
  text : cs = opening ++ (content ++ (line ++ after))
  opened : Terminated opening
  whole : WholeLines content
  closing : ClosingLine fence line
  ends : ∀ x ∈ after.head?, x = '\n'
  /-- The newline of the closing line belongs to the fence. -/
  length : n = opening.length + content.length + line.length + min after.length 1
  /-- No line of the content closes the fence. -/
  first : ∀ before rest, content = before ++ rest → rest ≠ [] → WholeLines before →
    closesFence fence (rest ++ (line ++ after)) = false

theorem fenceLine_parts (h : fenceLine fence cs = .closed language content n) :
    ∃ opening line after, Parts fence cs content n opening line after := by
  unfold fenceLine at h
  split at h
  · cases h
  · rename_i o ho
    have hopening := (opening?_length ho).2
    simp only at h
    split at h
    · cases h
    · rename_i k hk
      obtain ⟨hle, hcloses⟩ := contentLength?_closes hk
      obtain ⟨line, after, hline, hbehind, hafter⟩ := closesFence_iff.mp hcloses
      obtain ⟨inside, hinside⟩ : ∃ inside, inside = cs.drop o.length := ⟨_, rfl⟩
      rw [← hinside] at h hk hle hbehind
      have hlength : (inside.take k).length = k := by
        rw [List.length_take]
        omega
      cases h
      refine ⟨cs.take o.length, line, after, ?_, opening?_terminated ho, ?_, hline, hafter, ?_, ?_⟩
      · rw [← hbehind, List.take_append_drop, hinside, List.take_append_drop]
      · rcases contentLength?_ends hk with ⟨rfl, -⟩ | hends
        · exact Or.inl List.take_zero
        · exact Or.inr hends
      · rw [← List.drop_drop, hbehind, closingLength_line hline hafter, List.drop_left]
        cases after <;> simp [hlength] <;> omega
      · intro before rest hcontent hrest hbefore
        have hpos := List.length_pos_iff.mpr hrest
        have hbound : before.length < k := by
          rw [← hlength, hcontent, List.length_append]
          omega
        have htext : inside = before ++ (rest ++ (line ++ after)) := by
          rw [← List.append_assoc, ← hcontent, ← hbehind, List.take_append_drop]
        have hstart : before.length = 0 ∧ true = true ∨ Terminated (inside.take before.length) := by
          rw [htext, List.take_left]
          rcases hbefore with rfl | hends
          · exact Or.inl ⟨rfl, rfl⟩
          · exact Or.inr hends
        have hfirst := contentLength?_first hk hbound hstart
        rwa [htext, List.drop_left] at hfirst

variable {opening after : List Char}

/-- A fence ends at the end of the text or just after a newline. -/
theorem Parts.wholeLines (h : Parts fence cs content n opening line after) :
    cs.drop n = [] ∨ Terminated (cs.take n) := by
  obtain ⟨rfl, -, -, -, hends, rfl, -⟩ := h
  cases after with
  | nil =>
    left
    exact List.drop_eq_nil_of_le (by simp; omega)
  | cons x after =>
    obtain rfl : x = '\n' := hends x rfl
    right
    have htext : opening ++ (content ++ (line ++ '\n' :: after)) =
        (opening ++ content ++ line ++ ['\n']) ++ after := by simp
    rw [htext, List.take_left' (by simp; omega)]
    exact List.suffix_append _ _

/-- No line of the content is a closing line. -/
theorem Parts.not_closingLine (h : Parts fence cs content n opening line after) (hne : fence ≠ [])
    {inside : List Char} (hinside : inside ∈ content.splitOn '\n') : ¬ ClosingLine fence inside := by
  intro hclosing
  have hsome : inside ≠ [] := by
    obtain ⟨blanks, -, rfl⟩ := hclosing
    simp [hne]
  obtain ⟨before, later, hcontent, hbefore⟩ := h.whole.newline_behind hinside hsome
  have hopen := h.first before (inside ++ '\n' :: later) (by rw [hcontent, List.append_assoc])
    (by simp) hbefore
  rw [List.append_assoc, closesFence_of_line hclosing (by simp)] at hopen
  cases hopen

end Literate.Flavor
