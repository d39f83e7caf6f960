import ProtoLisp.Text.Range

/-!
# Blanks

The characters with the Unicode property White_Space.  They separate tokens and are trimmed from
both ends of a command.
-/

namespace ProtoLisp.Text

/-- The blanks beyond ASCII. -/
def blankRanges : Ranges :=
  [(0x85, 0x85), (0xa0, 0xa0), (0x1680, 0x1680), (0x2000, 0x200a), (0x2028, 0x2029), (0x202f, 0x202f),
  (0x205f, 0x205f), (0x3000, 0x3000)]

/-- A character that only separates others. -/
def isBlank (c : Char) : Bool :=
  if c.toNat < 0x80 then c == ' ' || (0x09 ≤ c.toNat && c.toNat ≤ 0x0d) else blankRanges.holds c

/-- The characters without the blanks at both ends. -/
def trim (cs : List Char) : List Char :=
  ((cs.dropWhile isBlank).reverse.dropWhile isBlank).reverse

end ProtoLisp.Text
