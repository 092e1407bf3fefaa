import KeyOrder.Text.Basic

/-!
# Natural order

Two names are read in step. Where both stand at a digit from 1 to 9 the whole runs of digits are
compared by value, so `"2"` comes before `"11"`; everywhere else one character is compared with one
character by its collation code. The end of a name counts as code 0, which is also the code of
`U+0000`: a name is read up to its end or its first `U+0000`.
-/

namespace KeyOrder

/-- Collation code of a character: punctuation first, then the hyphen, digits, capitals and small
letters; all other characters by code point. -/
def collationCode (c : Char) : Nat :=
  let code := c.toNat
  if code ≤ 44 then code
  else if code = 45 then 65
  else if code ≤ 47 then code - 1
  else if code ≤ 57 then code + 18
  else if code ≤ 64 then code - 11
  else if code ≤ 90 then code + 11
  else if code ≤ 96 then code - 37
  else if code ≤ 122 then code + 5
  else if code ≤ 127 then code - 63
  else code

/-- A digit from 1 to 9, which starts a number. -/
def startsNumber (c : Char) : Bool := '1' ≤ c ∧ c ≤ '9'

/-- A digit from 0 to 9, which continues a number. -/
def isDigit (c : Char) : Bool := '0' ≤ c ∧ c ≤ '9'

/-- Lexicographic order of texts by code point. -/
def compareChars : Text → Text → Ordering
  | [], [] => .eq
  | [], _ :: _ => .lt
  | _ :: _, [] => .gt
  | c :: cs, d :: ds => (compare c.toNat d.toNat).then (compareChars cs ds)

/-- Order of two runs of digits without leading zeros by value: the longer run is the greater one,
and runs of one length compare digit by digit. -/
def compareRuns (a b : Text) : Ordering :=
  (compare a.length b.length).then (compareChars a b)

theorem length_dropWhile_le (p : Char → Bool) (text : Text) :
    (text.dropWhile p).length ≤ text.length :=
  (List.dropWhile_sublist p).length_le

/-- Natural order of two names. -/
def naturalCompare : Text → Text → Ordering
  | [], [] => .eq
  | [], d :: _ => compare 0 (collationCode d)
  | c :: _, [] => compare (collationCode c) 0
  | c :: cs, d :: ds =>
    if startsNumber c && startsNumber d then
      match compareRuns (c :: cs.takeWhile isDigit) (d :: ds.takeWhile isDigit) with
      | .eq => naturalCompare (cs.dropWhile isDigit) (ds.dropWhile isDigit)
      | decided => decided
    else
      match compare (collationCode c) (collationCode d) with
      | .eq => if collationCode d = 0 then .eq else naturalCompare cs ds
      | decided => decided
termination_by a => a.length
decreasing_by
  · have := length_dropWhile_le isDigit cs
    simp only [List.length_cons]
    omega
  · simp

end KeyOrder
