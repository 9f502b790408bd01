/-!
# Blanks

The characters that separate words in a directive and that are trimmed from the ends of a
title or of a setting: the Unicode white space characters together with the four information
separators U+001C to U+001F.
-/

namespace Literate.Text

/-- A Unicode white space character or an information separator. -/
def isBlank (c : Char) : Bool :=
  let n := c.toNat
  (9 ≤ n && n ≤ 13) || (28 ≤ n && n ≤ 32) || n == 0x85 || n == 0xA0 || n == 0x1680 ||
    (0x2000 ≤ n && n ≤ 0x200A) || n == 0x2028 || n == 0x2029 || n == 0x202F ||
    n == 0x205F || n == 0x3000

/-- The text without the blanks at its two ends. -/
def strip (cs : List Char) : List Char :=
  ((cs.dropWhile isBlank).reverse.dropWhile isBlank).reverse

/-- A space or a tab, the only blanks that count inside a heading or fence line. -/
def isSpaceOrTab (c : Char) : Bool := c == ' ' || c == '\t'

theorem isBlank_space : isBlank ' ' = true := by decide

theorem isBlank_newline : isBlank '\n' = true := by decide

end Literate.Text
