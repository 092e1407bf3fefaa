import KeyOrder.Text.Basic

/-!
# White space

The Unicode property `White_Space`, and the run of white space that ends at an offset. Such runs are
the indentation of a member and the gap before a comment.
-/

namespace KeyOrder

/-- Inclusive ranges of code points with the Unicode property `White_Space`. -/
def blankRanges : List (Nat × Nat) :=
  [(0x09, 0x0D), (0x20, 0x20), (0x85, 0x85), (0xA0, 0xA0), (0x1680, 0x1680), (0x2000, 0x200A),
   (0x2028, 0x2029), (0x202F, 0x202F), (0x205F, 0x205F), (0x3000, 0x3000)]

/-- Whether a character is white space. -/
def isBlank (c : Char) : Bool :=
  blankRanges.any fun (low, high) => low ≤ c.toNat && c.toNat ≤ high

namespace Text

/-- The text without the white space at its end. -/
def trimEnd (text : Text) : Text :=
  (text.reverse.dropWhile isBlank).reverse

/-- Offset at which the white space that ends at `position` starts. -/
def blankStart (text : Text) (position : Nat) : Nat :=
  byteLength (trimEnd (takeBytes text position))

/-- White space immediately before `position`. -/
def blankBefore (text : Text) (position : Nat) : Text :=
  slice text (blankStart text position) position

end Text

end KeyOrder
