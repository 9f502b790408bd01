import Literate.Directive.Basic

/-!
# Replaying operations on the bytes of a file

An operation appends its content to what is there, or discards what is there first. Operations compose
(`replay_append`), and once one of them discards, what was there before does not matter
(`replay_eq_of_any`).
-/

namespace Literate

/-- Content and what it does to what was there before. -/
structure Operation where
  content : ByteArray
  mode : Mode

namespace Operation

/-- What is there after one operation. -/
def apply (bytes : ByteArray) (op : Operation) : ByteArray :=
  match op.mode with
  | .append => bytes ++ op.content
  | .overwrite => op.content

/-- What is there after all operations. -/
def replay (bytes : ByteArray) (ops : List Operation) : ByteArray := ops.foldl apply bytes

/-- Whether some operation discards what was there. -/
def anyOverwrite (ops : List Operation) : Bool := ops.any (·.mode = .overwrite)

@[simp] theorem replay_nil (bytes : ByteArray) : replay bytes [] = bytes := rfl

@[simp] theorem replay_cons (bytes : ByteArray) (op : Operation) (ops : List Operation) :
    replay bytes (op :: ops) = replay (op.apply bytes) ops := rfl

theorem replay_append (bytes : ByteArray) (xs ys : List Operation) :
    replay bytes (xs ++ ys) = replay (replay bytes xs) ys := by
  simp [replay, List.foldl_append]

/-- With an overwrite among the operations the old bytes do not matter. -/
theorem replay_eq_of_any {ops : List Operation} (h : anyOverwrite ops = true)
    (bytes bytes' : ByteArray) : replay bytes ops = replay bytes' ops := by
  induction ops generalizing bytes bytes' with
  | nil => simp [anyOverwrite] at h
  | cons op ops ih =>
    simp only [replay_cons]
    cases hm : op.mode with
    | overwrite => simp [apply, hm]
    | append =>
      have : anyOverwrite ops = true := by simpa [anyOverwrite, hm] using h
      exact ih this _ _

end Operation

end Literate
