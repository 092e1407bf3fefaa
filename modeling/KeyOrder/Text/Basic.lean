/-!
# Texts and byte offsets

A text is its list of characters. Positions in it are **byte offsets of its UTF-8 form**, the unit
in which spans and edits are given, so `slice` cuts by bytes and never through a character: an
offset that falls inside a character counts as the end of that character.
-/

namespace KeyOrder

/-- A source text, or a piece of one. -/
abbrev Text := List Char

namespace Text

/-- Number of bytes of the text in UTF-8. -/
def byteLength : Text → Nat
  | [] => 0
  | c :: rest => c.utf8Size + byteLength rest

/-- The text from byte `n` on. -/
def dropBytes : Text → Nat → Text
  | [], _ => []
  | c :: rest, n => if n = 0 then c :: rest else dropBytes rest (n - c.utf8Size)

/-- The characters that start before byte `n`. -/
def takeBytes : Text → Nat → Text
  | [], _ => []
  | c :: rest, n => if n = 0 then [] else c :: takeBytes rest (n - c.utf8Size)

/-- The text between two byte offsets. -/
def slice (text : Text) (start stop : Nat) : Text :=
  takeBytes (dropBytes text start) (stop - start)

/-- Whether byte `n` is the start of a character or the end of the text. -/
def isBoundary : Text → Nat → Bool
  | [], n => n == 0
  | c :: rest, n => n == 0 || (c.utf8Size ≤ n && isBoundary rest (n - c.utf8Size))

/-- The text between two byte offsets, if they are in order and no character is cut. -/
def slice? (text : Text) (start stop : Nat) : Option Text :=
  if start ≤ stop && isBoundary text start && isBoundary text stop then
    some (slice text start stop)
  else
    none

/-- Whether `pattern` occurs somewhere in the text. -/
def occursIn (pattern : Text) : Text → Bool
  | [] => pattern.isEmpty
  | c :: rest => pattern.isPrefixOf (c :: rest) || occursIn pattern rest

@[simp] theorem byteLength_nil : byteLength [] = 0 := rfl

@[simp] theorem byteLength_cons (c : Char) (rest : Text) :
    byteLength (c :: rest) = c.utf8Size + byteLength rest := rfl

@[simp] theorem byteLength_append (a b : Text) :
    byteLength (a ++ b) = byteLength a + byteLength b := by
  induction a with
  | nil => simp
  | cons c rest ih => simp [ih, Nat.add_assoc]

@[simp] theorem dropBytes_zero (text : Text) : dropBytes text 0 = text := by
  cases text <;> simp [dropBytes]

@[simp] theorem takeBytes_zero (text : Text) : takeBytes text 0 = [] := by
  cases text <;> simp [takeBytes]

/-- Dropping the bytes of a leading piece leaves the rest. -/
@[simp] theorem dropBytes_append (a b : Text) : dropBytes (a ++ b) (byteLength a) = b := by
  induction a with
  | nil => simp
  | cons c rest ih =>
    have h : c.utf8Size ≠ 0 := Nat.ne_of_gt c.utf8Size_pos
    simp [dropBytes, h, ih]

/-- Taking the bytes of a leading piece gives that piece. -/
@[simp] theorem takeBytes_append (a b : Text) : takeBytes (a ++ b) (byteLength a) = a := by
  induction a with
  | nil => simp
  | cons c rest ih =>
    have h : c.utf8Size ≠ 0 := Nat.ne_of_gt c.utf8Size_pos
    simp [takeBytes, h, ih]

/-- **A slice is the middle piece** when its ends are the lengths of the pieces around it. -/
theorem slice_append (a b c : Text) :
    slice (a ++ b ++ c) (byteLength a) (byteLength a + byteLength b) = b := by
  simp [slice, List.append_assoc]

end Text

end KeyOrder
