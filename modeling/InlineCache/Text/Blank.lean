/-!
# Blank characters

White space is the property `White_Space` of the Unicode standard. Inside a line only spaces and
tabs are skipped; lines end as that standard lists line ends.
-/

namespace InlineCache.Text

/-- `White_Space`. -/
def isBlank (c : Char) : Bool :=
  let n := c.toNat
  (0x9 ≤ n && n ≤ 0xd) || n == 0x20 || n == 0x85 || n == 0xa0 || n == 0x1680
    || (0x2000 ≤ n && n ≤ 0x200a) || n == 0x2028 || n == 0x2029 || n == 0x202f || n == 0x205f
    || n == 0x3000

/-- Blanks inside a line. -/
def isSpacing (c : Char) : Bool :=
  c == ' ' || c == '\t'

/-- Characters that end a line. A carriage return and a line feed after it are one line end. -/
def isLineEnd (c : Char) : Bool :=
  let n := c.toNat
  (0xa ≤ n && n ≤ 0xd) || n == 0x85 || n == 0x2028 || n == 0x2029

end InlineCache.Text
