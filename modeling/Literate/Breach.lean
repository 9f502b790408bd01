/-!
# Broken promises between parts of the program

A `Breach` is no fault of a document or of its reader: it says that one part of the program handed
another one something it must never hand over.
-/

namespace Literate

/-- A fault that no document can cause: a broken promise between two parts of the program, with
the values that were at hand. -/
structure Breach where
  reason : String
  env : List (String × String)
deriving DecidableEq, Repr

namespace Breach

/-- A breach with the given reason; an empty one gets a default wording. -/
def because (reason : String) (env : List (String × String)) : Breach :=
  ⟨if reason.isEmpty then "never() marker reached" else reason, env⟩

/-- A value that must be there. -/
def require {α : Type} (value : Option α) (reason : String) (env : List (String × String)) :
    Except Breach α :=
  match value with
  | some a => .ok a
  | none => .error (because (if reason.isEmpty then "required value is None" else reason) env)

end Breach

end Literate
