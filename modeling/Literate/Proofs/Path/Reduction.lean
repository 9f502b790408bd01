import Literate.Path
import Mathlib.Data.List.Induction
import Mathlib.Logic.Relation

/-!
# Names that cancel

On the way along the names of a path an empty name and `.` lead nowhere, and `..` takes back the name
before it. Leaving such names out (`Cancels`) changes nothing about where the names lead
(`Cancels.reach_eq`), and in the end there are some `..` in front and names that lead into directories behind
(`exists_reduces`). So where names lead is known from these two parts (`Reduces.reach_eq`).
-/

namespace Literate.Path

/-- A name of something in a directory. -/
structure Proper (name : String) : Prop where
  not_empty : name ≠ ""
  not_here : name ≠ "."
  not_up : name ≠ ".."

instance (name : String) : Decidable (Proper name) :=
  decidable_of_iff (name ≠ "" ∧ name ≠ "." ∧ name ≠ "..")
    ⟨fun ⟨h, h', h''⟩ => ⟨h, h', h''⟩, fun ⟨h, h', h''⟩ => ⟨h, h', h''⟩⟩

/-- One name that leads nowhere is left out, or one name with the `..` behind it. -/
inductive Cancels : List String → List String → Prop where
  | still {name : String} (before after : List String) (h : name = "" ∨ name = ".") :
      Cancels (before ++ name :: after) (before ++ after)
  | back {name : String} (before after : List String) (h : Proper name) :
      Cancels (before ++ name :: ".." :: after) (before ++ after)

/-- Whether names come to `k` times `..` and some proper names, once all that cancels is left out. -/
structure Reduces (names : List String) (k : Nat) (rest : List String) : Prop where
  cancels : Relation.ReflTransGen Cancels names (List.replicate k ".." ++ rest)
  proper : ∀ name ∈ rest, Proper name

theorem Cancels.append {names names' : List String} (h : Cancels names names') (more : List String) :
    Cancels (names ++ more) (names' ++ more) := by
  cases h with
  | still before after h => simpa using Cancels.still before (after ++ more) h
  | back before after h => simpa using Cancels.back before (after ++ more) h

/-- All names come to some `..` and proper names. -/
theorem exists_reduces (names : List String) : ∃ k rest, Reduces names k rest := by
  induction names using List.reverseRecOn with
  | nil => exact ⟨0, [], .refl, nofun⟩
  | append_singleton names name ih =>
    obtain ⟨k, rest, hcancels, hproper⟩ := ih
    have hbefore : Relation.ReflTransGen Cancels (names ++ [name])
        (List.replicate k ".." ++ rest ++ [name]) :=
      hcancels.lift (· ++ [name]) fun _ _ h => h.append [name]
    by_cases hstill : name = "" ∨ name = "."
    · refine ⟨k, rest, hbefore.tail ?_, hproper⟩
      simpa using Cancels.still (List.replicate k ".." ++ rest) [] hstill
    · by_cases hup : name = ".."
      · subst hup
        cases rest using List.reverseRecOn with
        | nil => exact ⟨k + 1, [], by simpa [List.replicate_succ'] using hbefore, nofun⟩
        | append_singleton rest last =>
          have hlast : Proper last := hproper last (by simp)
          refine ⟨k, rest, hbefore.tail ?_, fun name hname => hproper name (by simp [hname])⟩
          simpa using Cancels.back (List.replicate k ".." ++ rest) [] hlast
      · refine ⟨k, rest ++ [name], by simpa using hbefore, ?_⟩
        intro name' hname'
        rcases List.mem_append.mp hname' with hrest | hlast
        · exact hproper name' hrest
        · rw [List.mem_singleton.mp hlast]
          exact ⟨fun h => hstill (Or.inl h), fun h => hstill (Or.inr h), hup⟩

/-! ## Where names lead -/

/-- Whether a name leads anywhere. -/
def leads (name : String) : Bool := name != "" && name != "."

theorem Proper.leads {name : String} (h : Proper name) : leads name = true := by
  simp [Path.leads, h.not_empty, h.not_here]

/-- Where names lead from a location. -/
def reach (loc : Location) (names : List String) : Location := (names.filter leads).foldl follow loc

theorem reach_append (loc : Location) (names names' : List String) :
    reach loc (names ++ names') = reach (reach loc names) names' := by
  rw [reach, List.filter_append, List.foldl_append, reach, reach]

theorem reach_still {name : String} (h : name = "" ∨ name = ".") (loc : Location)
    (names : List String) : reach loc (name :: names) = reach loc names := by
  rcases h with rfl | rfl <;> rfl

theorem reach_proper {name : String} (h : Proper name) (loc : Location) (names : List String) :
    reach loc (name :: names) = reach (loc ++ [name]) names := by
  rw [reach, List.filter_cons_of_pos h.leads, List.foldl_cons, follow, if_neg h.not_up]
  rfl

theorem reach_up (loc : Location) (names : List String) :
    reach loc (".." :: names) = reach loc.dropLast names := rfl

/-- What cancels changes nothing about where names lead. -/
theorem Cancels.reach_eq {names names' : List String} (h : Cancels names names') (loc : Location) :
    reach loc names = reach loc names' := by
  cases h with
  | still before after h => rw [reach_append, reach_append, reach_still h]
  | back before after h =>
    rw [reach_append, reach_append, reach_proper h, reach_up, List.dropLast_concat]

/-- Going up more often than there are directories ends at the top. -/
theorem reach_ups (loc : Location) (k : Nat) :
    reach loc (List.replicate k "..") = loc.take (loc.length - k) := by
  induction k generalizing loc with
  | zero => simp [reach]
  | succ k ih =>
    rw [List.replicate_succ, reach_up, ih, List.dropLast_eq_take, List.take_take, List.length_take]
    congr 1
    omega

theorem reach_names {names : List String} (h : ∀ name ∈ names, Proper name) (loc : Location) :
    reach loc names = loc ++ names := by
  induction names generalizing loc with
  | nil => simp [reach]
  | cons name names ih =>
    rw [reach_proper (h name (by simp)), ih fun name' hname' => h name' (by simp [hname'])]
    simp

/-- Names lead as far up as there are `..` left, and from there along the proper names. -/
theorem Reduces.reach_eq {names rest : List String} {k : Nat} (h : Reduces names k rest)
    (loc : Location) : reach loc names = loc.take (loc.length - k) ++ rest := by
  have hsame : ∀ names', Relation.ReflTransGen Cancels names names' →
      reach loc names = reach loc names' := by
    intro names' hcancels
    induction hcancels with
    | refl => rfl
    | tail _ hstep ih => rw [ih, hstep.reach_eq]
  rw [hsame _ h.cancels, reach_append, reach_ups, reach_names h.proper]

/-- From the top directory nothing leads up. -/
theorem Reduces.reach_top {names rest : List String} {k : Nat} (h : Reduces names k rest) :
    reach [] names = rest := by
  rw [h.reach_eq, List.take_nil, List.nil_append]

end Literate.Path
