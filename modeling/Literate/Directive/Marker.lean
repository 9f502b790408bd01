import Literate.Directive.Basic
import Literate.Text.Blank

/-!
# Where a directive starts and ends

A directive stands in an instruction `<?btxt … ?>` or in a comment `<!--btxt … -->`. What looks like an
opener is one only when a qualifier, a blank, its own closer or the end of the text follows it.
-/

namespace Literate.Directive

open Text (isBlank)

/-- The two pairs of markers that enclose a directive. -/
inductive Marker where
  | instruction
  | comment
deriving DecidableEq, Repr

namespace Marker

def opener : Marker → List Char
  | instruction => ['<', '?', 'b', 't', 'x', 't']
  | comment => ['<', '!', '-', '-', 'b', 't', 'x', 't']

def closer : Marker → List Char
  | instruction => ['?', '>']
  | comment => ['-', '-', '>']

/-- Whether the text starts with the closer. -/
def closes (m : Marker) (cs : List Char) : Bool := m.closer.isPrefixOf cs

/-- Whether what follows an opener lets it open a directive. -/
def admits (m : Marker) : List Char → Bool
  | [] => true
  | c :: cs => c == '+' || isBlank c || m.closes (c :: cs)

/-- Whether the text starts with a directive between these markers. -/
def opens (m : Marker) (cs : List Char) : Bool :=
  m.opener.isPrefixOf cs && m.admits (cs.drop m.opener.length)

/-- The markers of the directive that the text starts with. -/
def at? (cs : List Char) : Option Marker :=
  if instruction.opens cs then some instruction
  else if comment.opens cs then some comment
  else none

theorem opens_of_at? {cs : List Char} {m : Marker} (h : at? cs = some m) : m.opens cs = true := by
  unfold at? at h
  split at h
  · cases h; assumption
  · split at h
    · cases h; assumption
    · cases h

theorem opener_prefix_of_at? {cs : List Char} {m : Marker} (h : at? cs = some m) :
    m.opener <+: cs := by
  have := opens_of_at? h
  simp only [opens, Bool.and_eq_true, List.isPrefixOf_iff_prefix] at this
  exact this.1

theorem length_opener_le {cs : List Char} {m : Marker} (h : at? cs = some m) :
    m.opener.length ≤ cs.length :=
  (opener_prefix_of_at? h).length_le

theorem opener_pos (m : Marker) : 0 < m.opener.length := by cases m <;> decide

theorem closer_pos (m : Marker) : 0 < m.closer.length := by cases m <;> decide

theorem at?_nil : at? [] = none := rfl

end Marker

/-- Whether the text starts with the closer that ends the directive, if there is one to look for. -/
def ends (m : Option Marker) (cs : List Char) : Bool :=
  match m with
  | none => false
  | some m => m.closes cs

/-- Whether a word ends here: at the end of the text, at a blank or at the closer. -/
def wordEnds (m : Option Marker) : List Char → Bool
  | [] => true
  | c :: cs => isBlank c || ends m (c :: cs)

/-- How long the word at the start of the text is. -/
def wordLength (m : Option Marker) : List Char → Nat
  | [] => 0
  | c :: cs => if wordEnds m (c :: cs) then 0 else wordLength m cs + 1

/-- The three bars that enclose a raw literal. -/
def bars : List Char := ['|', '|', '|']

/-- How many characters stand before the first three bars. -/
def beforeBars? : List Char → Option Nat
  | [] => none
  | c :: cs => if bars.isPrefixOf (c :: cs) then some 0 else (beforeBars? cs).map (· + 1)

/-- A quote, single or double. -/
def isQuote (c : Char) : Bool := c == '\'' || c == '"'

theorem wordLength_le (m : Option Marker) (cs : List Char) : wordLength m cs ≤ cs.length := by
  induction cs with
  | nil => simp [wordLength]
  | cons c cs ih =>
    rw [wordLength, List.length_cons]
    split <;> omega

theorem beforeBars?_le {cs : List Char} {n : Nat} (h : beforeBars? cs = some n) :
    n + 3 ≤ cs.length := by
  induction cs generalizing n with
  | nil => simp [beforeBars?] at h
  | cons c cs ih =>
    unfold beforeBars? at h
    split at h
    · rename_i hp
      cases h
      have := (List.isPrefixOf_iff_prefix.mp hp).length_le
      simpa [bars] using this
    · obtain ⟨k, hk, rfl⟩ := Option.map_eq_some_iff.mp h
      have := ih hk
      simp; omega

end Literate.Directive
