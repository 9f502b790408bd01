import Mathlib.Data.List.TakeWhile

/-!
# Whole lines

A text that ends in a newline consists of whole lines (`Terminated`). Whatever is looked for from
a place in it and cannot reach over a newline ends in the text: more text behind it makes no
difference, and what is left of the text consists of whole lines again.
-/

namespace Literate

/-- A text whose last line has its newline. -/
def Terminated (cs : List Char) : Prop := ['\n'] <:+ cs

/-- A text of lines that all have their newlines, or of none: what follows it starts a line. -/
def WholeLines (cs : List Char) : Prop := cs = [] ∨ Terminated cs

namespace Terminated

variable {cs xs ys : List Char} {p : Char → Bool}

theorem newline_mem (h : Terminated cs) : '\n' ∈ cs := h.subset List.mem_cons_self

theorem ne_nil (h : Terminated cs) : cs ≠ [] := List.ne_nil_of_mem h.newline_mem

theorem append_iff (hys : ys ≠ []) : Terminated (xs ++ ys) ↔ Terminated ys := by
  refine ⟨fun h => ?_, List.suffix_append_of_suffix⟩
  rcases List.suffix_or_suffix_of_suffix h (List.suffix_append xs ys) with hends | hends
  · exact hends
  · rcases List.suffix_cons_iff.mp hends with rfl | hnil
    · exact List.suffix_rfl
    · exact absurd (List.suffix_nil.mp hnil) hys

/-- What stands behind a part of the text that does not end in a newline goes on to one. -/
theorem behind (h : Terminated (xs ++ ys)) (hxs : ¬ Terminated xs) : Terminated ys := by
  by_cases hys : ys = []
  · rw [hys, List.append_nil] at h
    exact absurd h hxs
  · exact (append_iff hys).mp h

theorem drop (h : Terminated cs) (n : Nat) : cs.drop n = [] ∨ Terminated (cs.drop n) := by
  by_cases hnil : cs.drop n = []
  · exact Or.inl hnil
  · rw [← List.take_append_drop n cs] at h
    exact Or.inr ((append_iff hnil).mp h)

theorem drop_append {n : Nat} (h : Terminated (cs.drop n)) (tail : List Char) :
    (cs ++ tail).drop n = cs.drop n ++ tail := by
  have hlt := List.length_pos_iff.mpr h.ne_nil
  rw [List.length_drop] at hlt
  exact List.drop_append_of_le_length (by omega)

/-- A word without newlines stands at the start of the text or it does not, whatever follows. -/
theorem isPrefixOf_append (h : Terminated cs) (hxs : '\n' ∉ xs) (tail : List Char) :
    xs.isPrefixOf (cs ++ tail) = xs.isPrefixOf cs := by
  rw [Bool.eq_iff_iff, List.isPrefixOf_iff_prefix, List.isPrefixOf_iff_prefix]
  refine ⟨fun hp => ?_, fun hp => hp.trans (List.prefix_append cs tail)⟩
  rcases List.prefix_or_prefix_of_prefix hp (List.prefix_append cs tail) with hword | htext
  · exact hword
  · exact absurd (htext.subset h.newline_mem) hxs

theorem drop_of_isPrefixOf (h : Terminated cs) (hxs : '\n' ∉ xs) (hp : xs.isPrefixOf cs = true) :
    Terminated (cs.drop xs.length) := by
  obtain ⟨ys, rfl⟩ := List.isPrefixOf_iff_prefix.mp hp
  rw [List.drop_left]
  exact h.behind fun hends => hxs hends.newline_mem

theorem dropWhile (h : Terminated cs) (hp : p '\n' = false) : Terminated (cs.dropWhile p) := by
  rw [← List.takeWhile_append_dropWhile (p := p) (l := cs)] at h
  refine h.behind fun hends => ?_
  have := List.mem_takeWhile_imp hends.newline_mem
  rw [hp] at this
  cases this

theorem dropWhile_append (h : Terminated cs) (hp : p '\n' = false) (tail : List Char) :
    (cs ++ tail).dropWhile p = cs.dropWhile p ++ tail := by
  rw [List.dropWhile_append, if_neg]
  rw [List.isEmpty_iff]
  exact (h.dropWhile hp).ne_nil

theorem takeWhile_append (h : Terminated cs) (hp : p '\n' = false) (tail : List Char) :
    (cs ++ tail).takeWhile p = cs.takeWhile p := by
  rw [List.takeWhile_append, if_neg]
  intro hlength
  have hne := List.length_pos_iff.mpr (h.dropWhile hp).ne_nil
  have hsum := congrArg List.length (List.takeWhile_append_dropWhile (p := p) (l := cs))
  rw [List.length_append] at hsum
  omega

theorem drop_takeWhile (h : Terminated cs) (hp : p '\n' = false) :
    Terminated (cs.drop (cs.takeWhile p).length) := by
  have hdrop : (cs.takeWhile p ++ cs.dropWhile p).drop (cs.takeWhile p).length =
      cs.dropWhile p := List.drop_left
  rw [List.takeWhile_append_dropWhile] at hdrop
  rw [hdrop]
  exact h.dropWhile hp

end Terminated

namespace WholeLines

variable {cs xs ys line before after : List Char}

theorem nil : WholeLines [] := Or.inl rfl

theorem append (hxs : WholeLines xs) (hys : WholeLines ys) : WholeLines (xs ++ ys) := by
  rcases hys with rfl | hys
  · rwa [List.append_nil]
  · exact Or.inr ((Terminated.append_iff hys.ne_nil).mpr hys)

end WholeLines

/-- The lines of a text are what stands without newlines between the start of a line and its end. -/
theorem mem_splitOn_iff {cs line : List Char} : line ∈ cs.splitOn '\n' ↔ '\n' ∉ line ∧
    ∃ before after, cs = before ++ line ++ after ∧ WholeLines before ∧ ∀ x ∈ after.head?, x = '\n' := by
  constructor
  · intro h
    obtain ⟨n, hn⟩ : ∃ n, cs.length = n := ⟨_, rfl⟩
    induction n using Nat.strongRecOn generalizing cs with
    | ind n ih =>
      by_cases hnewline : '\n' ∈ cs
      · -- the first line, or one of those behind its newline
        obtain ⟨first, later, rfl, hfirst⟩ := List.eq_append_cons_of_mem hnewline
        rw [List.splitOn_append_cons_self_of_not_mem hfirst] at h
        rcases List.mem_cons.mp h with rfl | h
        · exact ⟨hfirst, [], '\n' :: later, by simp, .nil, by simp⟩
        · have hlater : later.length < n := by
            rw [← hn, List.length_append, List.length_cons]
            omega
          obtain ⟨hline, before, after, rfl, hbefore, hafter⟩ := ih _ hlater h rfl
          refine ⟨hline, first ++ ['\n'] ++ before, after, by simp, ?_, hafter⟩
          exact .append (Or.inr (List.suffix_append first _)) hbefore
      · rw [List.splitOn_eq_singleton hnewline, List.mem_singleton] at h
        subst h
        exact ⟨hnewline, [], [], by simp, .nil, by simp⟩
  · rintro ⟨hline, before, after, rfl, hbefore, hafter⟩
    have hfirst : line ∈ (line ++ after).splitOn '\n' := by
      cases after with
      | nil => rw [List.append_nil, List.splitOn_eq_singleton hline, List.mem_singleton]
      | cons x after =>
        obtain rfl : x = '\n' := hafter x rfl
        rw [List.splitOn_append_cons_self_of_not_mem hline]
        exact List.mem_cons_self
    rcases hbefore with rfl | ⟨earlier, rfl⟩
    · exact hfirst
    · have htext : earlier ++ ['\n'] ++ line ++ after = earlier ++ '\n' :: (line ++ after) := by simp
      rw [htext, List.splitOn_append_cons_self]
      exact List.mem_append_right _ hfirst

namespace WholeLines

variable {cs line : List Char}

/-- A line that is not the empty rest behind the last newline has its own newline. -/
theorem newline_behind (h : WholeLines cs) (hline : line ∈ cs.splitOn '\n') (hne : line ≠ []) :
    ∃ before after, cs = before ++ line ++ '\n' :: after ∧ WholeLines before := by
  obtain ⟨hnewline, before, after, rfl, hbefore, hafter⟩ := mem_splitOn_iff.mp hline
  cases after with
  | cons x after =>
    obtain rfl : x = '\n' := hafter x rfl
    exact ⟨before, after, rfl, hbefore⟩
  | nil =>
    rw [List.append_nil] at h
    rcases h with hnil | hends
    · exact absurd (List.append_eq_nil_iff.mp hnil).2 hne
    · exact absurd ((Terminated.append_iff hne).mp hends).newline_mem hnewline

end WholeLines

/-- A part of a text that consists of lines of it. -/
def LinesOf (cs part : List Char) : Prop :=
  ∃ before after, cs = before ++ part ++ after ∧ WholeLines before ∧ WholeLines part

theorem LinesOf.mem_splitOn {cs part line : List Char} (h : LinesOf cs part)
    (hline : line ∈ part.splitOn '\n') (hne : line ≠ []) : line ∈ cs.splitOn '\n' := by
  obtain ⟨before, after, rfl, hbefore, hpart⟩ := h
  have hnewline := (mem_splitOn_iff.mp hline).1
  obtain ⟨earlier, later, rfl, hearlier⟩ := hpart.newline_behind hline hne
  exact mem_splitOn_iff.mpr
    ⟨hnewline, before ++ earlier, '\n' :: later ++ after, by simp, hbefore.append hearlier, by simp⟩

end Literate
