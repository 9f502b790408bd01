/-!
# Control sequences

A control sequence is an escape character and an opening bracket, then parameters, then a letter. A
terminal takes it for a command and shows nothing; output that does not go to a terminal is rid of
it. One pass is made: what the removal of a sequence brings together stays.
-/

namespace Literate.Text

/-- Characters between the bracket and the letter of a control sequence. -/
def isParameter (c : Char) : Bool := c.isDigit || c == ';' || c == '?'

/-- What follows the control sequence at the start of the text. -/
def afterControl? : List Char → Option (List Char)
  | '\x1b' :: '[' :: cs =>
    match cs.dropWhile isParameter with
    | c :: rest => if c.isAlpha then some rest else none
    | [] => none
  | _ => none

theorem length_afterControl? {cs rest : List Char} (h : afterControl? cs = some rest) :
    rest.length < cs.length := by
  unfold afterControl? at h
  split at h
  · rename_i cs
    have hle := (List.dropWhile_sublist (l := cs) isParameter).length_le
    split at h
    · rename_i hd
      split at h
      · cases h
        simp only [hd, List.length_cons] at hle ⊢
        omega
      · cases h
    · cases h
  · cases h

/-- The text without its control sequences. -/
def withoutControls (cs : List Char) : List Char :=
  match cs with
  | [] => []
  | c :: tail =>
    match _h : afterControl? (c :: tail) with
    | some rest => withoutControls rest
    | none => c :: withoutControls tail
termination_by cs.length
decreasing_by
  · exact length_afterControl? _h
  · simp

/-- A line as it is printed. -/
def printed (line : String) : String := String.ofList (withoutControls line.toList)

end Literate.Text
