import Literate.Text.Lowercase

/-!
# Names in any case

A text whose lower case is an ASCII name consists of the letters of that name, each in one case or
the other (`lowercase_eq_iff`). The one letter for which this fails is `k`: the Kelvin sign is
another capital of it.
-/

namespace Literate.Text

theorem toNat_ofNat {n : Nat} (h : n.isValidChar) : (Char.ofNat n).toNat = n := by
  rw [Char.ofNat, dif_pos h]
  rfl

/-- Whether lower case leads from this run to ASCII, other than from the run's own ASCII part and
from the Kelvin sign. -/
def CaseRun.staysOut (run : CaseRun) : Bool :=
  run.last < 128 || (run.first == 8490 && run.last == 8490 && run.shift == -8383) ||
    (128 ≤ run.first + run.shift &&
      (run.last + run.shift < 0xD800 ||
        (0xE000 ≤ run.first + run.shift && run.last + run.shift < 0x110000)))

theorem staysOut_of_mem : ∀ run ∈ caseRuns, run.staysOut = true := by decide +kernel

theorem toNat_lower {run : CaseRun} {n : Nat} (h : run.staysOut = true)
    (hc : run.covers n = true) (hn : 128 ≤ n) :
    128 ≤ (Char.ofNat (run.lower n)).toNat ∨ Char.ofNat (run.lower n) = 'k' := by
  simp only [CaseRun.covers, Bool.and_eq_true, decide_eq_true_eq] at hc
  simp only [CaseRun.staysOut, Bool.or_eq_true, Bool.and_eq_true, decide_eq_true_eq,
    beq_iff_eq] at h
  rcases h with (h | ⟨⟨hf, hl⟩, hs⟩) | ⟨hlo, hhi⟩
  · omega
  · have hn' : n = 8490 := by omega
    right
    simp [CaseRun.lower, hs, hn']
  · have hv : (run.lower n).isValidChar := by
      simp only [Nat.isValidChar, CaseRun.lower]
      omega
    left
    rw [toNat_ofNat hv, CaseRun.lower]
    omega

/-- A character outside ASCII has a lower case outside ASCII, or is the Kelvin sign. -/
theorem exists_mem_lowerChar {c : Char} (h : 128 ≤ c.toNat) :
    ∃ d ∈ lowerChar c, 128 ≤ d.toNat ∨ d = 'k' := by
  simp only [lowerChar, Nat.not_lt.mpr h, if_false]
  split
  · exact ⟨Char.ofNat 0x307, by simp, by decide⟩
  · split
    · rename_i run hrun
      have hout := staysOut_of_mem run (List.mem_of_find?_eq_some hrun)
      have hcov : run.covers c.toNat = true := by simpa using List.find?_some hrun
      exact ⟨_, List.mem_singleton_self _, toNat_lower hout hcov h⟩
    · exact ⟨c, List.mem_singleton_self _, Or.inl h⟩

theorem ascii_of_lowerAfter {cs before : List Char}
    (h : ∀ d ∈ lowerAfter before cs, d.toNat < 128 ∧ d ≠ 'k') : ∀ c ∈ cs, c.toNat < 128 := by
  induction cs generalizing before with
  | nil => simp
  | cons c cs ih =>
    simp only [lowerAfter, List.mem_append] at h
    have hrest : ∀ d ∈ cs, d.toNat < 128 := ih fun d hd => h d (Or.inr hd)
    have hhere : c.toNat < 128 := by
      rcases Nat.lt_or_ge c.toNat 128 with hlt | hge
      · exact hlt
      · exfalso
        by_cases hs : c.toNat = 0x3A3
        · -- a sigma stays a sigma, final or not
          have := h _ (Or.inl (by rw [if_pos hs]; exact List.mem_singleton_self _))
          revert this
          split <;> decide
        · obtain ⟨d, hd, hout⟩ := exists_mem_lowerChar hge
          have := h d (Or.inl (by rw [if_neg hs]; exact hd))
          rcases hout with hout | hout
          · omega
          · exact this.2 hout
    intro d hd
    rcases List.mem_cons.mp hd with rfl | hd
    · exact hhere
    · exact hrest d hd

theorem toNat_toLower_lt {c : Char} (h : c.toLower.toNat < 128) : c.toNat < 128 := by
  unfold Char.toLower at h
  split at h
  · rename_i hup
    have := hup.2
    simp only [Char.toNat, UInt32.le_iff_toNat_le] at *
    have : ('Z'.val).toNat = 90 := rfl
    omega
  · exact h

/-- The lower case of a word is an ASCII name without `k` exactly if the word spells that name. -/
theorem lowercase_eq_iff {word name : String}
    (hname : ∀ c ∈ name.toList, c.toNat < 128 ∧ c ≠ 'k') :
    lowercase word = name ↔ word.toList.map Char.toLower = name.toList := by
  have hlist : lowercase word = name ↔ lowerAfter [] word.toList = name.toList := by
    rw [← String.toList_inj, lowercase, String.toList_ofList]
  rw [hlist]
  constructor
  · intro h
    have hascii := ascii_of_lowerAfter (by rw [h]; exact hname)
    rw [← lowerAfter_of_ascii hascii [], h]
  · intro h
    have hascii : ∀ c ∈ word.toList, c.toNat < 128 := by
      intro c hc
      have hmem : c.toLower ∈ name.toList := by
        rw [← h]
        exact List.mem_map_of_mem hc
      exact toNat_toLower_lt (hname _ hmem).1
    rw [lowerAfter_of_ascii hascii, h]

end Literate.Text
