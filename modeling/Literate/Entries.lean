/-!
# Entries in order of arrival

A finite map as the list of its entries, in the order in which their keys first came. Putting a key
that is there replaces its value and keeps its place. Lookup is `List.lookup`.
-/

namespace Literate

/-- A finite map that remembers the order of its keys. -/
abbrev Entries (κ ν : Type) := List (κ × ν)

namespace Entries

variable {κ ν : Type} [BEq κ]

/-- The map with `value` under `key`. -/
def put (key : κ) (value : ν) : Entries κ ν → Entries κ ν
  | [] => [(key, value)]
  | (k, v) :: rest => if key == k then (k, value) :: rest else (k, v) :: put key value rest

/-- The map with the value under `key` computed from the one that is there, if any. -/
def update (key : κ) (f : Option ν → ν) : Entries κ ν → Entries κ ν
  | [] => [(key, f none)]
  | (k, v) :: rest => if key == k then (k, f (some v)) :: rest else (k, v) :: update key f rest

variable [LawfulBEq κ]

theorem lookup_put (key k : κ) (value : ν) (m : Entries κ ν) :
    (put key value m).lookup k = if k == key then some value else m.lookup k := by
  induction m with
  | nil => simp only [put, List.lookup_cons, List.lookup_nil]; split <;> simp_all
  | cons e rest ih =>
    obtain ⟨k', v'⟩ := e
    by_cases h : key = k'
    · subst h
      by_cases hk : k = key
      · simp [put, hk]
      · simp [put, List.lookup_cons, beq_false_of_ne hk]
    · simp only [put, beq_false_of_ne h, Bool.false_eq_true, if_false, List.lookup_cons, ih]
      by_cases hk : k = k'
      · simp [hk, Ne.symm h]
      · simp [beq_false_of_ne hk]

theorem lookup_put_self (key : κ) (value : ν) (m : Entries κ ν) :
    (put key value m).lookup key = some value := by simp [lookup_put]

theorem lookup_put_of_ne {key k : κ} (h : k ≠ key) (value : ν) (m : Entries κ ν) :
    (put key value m).lookup k = m.lookup k := by simp [lookup_put, h]

theorem lookup_update (key k : κ) (f : Option ν → ν) (m : Entries κ ν) :
    (update key f m).lookup k = if k == key then some (f (m.lookup key)) else m.lookup k := by
  induction m with
  | nil => simp only [update, List.lookup_cons, List.lookup_nil]; split <;> simp_all
  | cons e rest ih =>
    obtain ⟨k', v'⟩ := e
    by_cases h : key = k'
    · subst h
      by_cases hk : k = key
      · simp [update, hk]
      · simp [update, List.lookup_cons, beq_false_of_ne hk]
    · simp only [update, beq_false_of_ne h, Bool.false_eq_true, if_false, List.lookup_cons, ih]
      by_cases hk : k = k'
      · simp [hk, Ne.symm h]
      · simp [beq_false_of_ne hk]

end Entries

end Literate
