/-!
# White space

The characters with the Unicode property White_Space: the class that type names must avoid and that
spelled dates may contain. It is wider than `Char.isWhitespace`, which knows ASCII only.
-/

namespace MetadataArchive.Text

/-- The ranges of code points with the property White_Space, both ends included. -/
def whitespaceRanges : List (Nat × Nat) :=
  [(0x09, 0x0D), (0x20, 0x20), (0x85, 0x85), (0xA0, 0xA0), (0x1680, 0x1680), (0x2000, 0x200A),
    (0x2028, 0x2029), (0x202F, 0x202F), (0x205F, 0x205F), (0x3000, 0x3000)]

/-- Whether a character has the Unicode property White_Space. -/
def isWhitespace (c : Char) : Bool :=
  whitespaceRanges.any fun r => r.1 ≤ c.toNat && c.toNat ≤ r.2

/-- The text after its leading white space. -/
def skipWhitespace (cs : List Char) : List Char :=
  cs.dropWhile isWhitespace

end MetadataArchive.Text
