import KeyOrder.Decimal.Binary64
import KeyOrder.Text.Basic

/-!
# Numbers as keys

A numeric key names the same property as the decimal text of its value: `0x10` and `1e1` are the
keys `16` and `10`. Texts that are no number of a supported form are their own key.
-/

namespace KeyOrder

namespace NumericKey

/-- The value of a digit in bases up to 36. -/
def digitValue? (c : Char) : Option Nat :=
  if '0' ≤ c ∧ c ≤ '9' then some (c.toNat - '0'.toNat)
  else if 'a' ≤ c ∧ c ≤ 'z' then some (c.toNat - 'a'.toNat + 10)
  else if 'A' ≤ c ∧ c ≤ 'Z' then some (c.toNat - 'A'.toNat + 10)
  else none

/-- Reads digits of a base on top of the value read so far. -/
def readDigits? (base : Nat) (value : Nat) : Text → Option Nat
  | [] => some value
  | c :: rest => do
    let digit ← digitValue? c
    if digit < base then readDigits? base (value * base + digit) rest else none

/-- A number of a base that fits into 64 bits; a plus sign may stand in front. -/
def readWord? (base : Nat) (text : Text) : Option Nat := do
  let digits := match text with
    | '+' :: rest => rest
    | other => other
  if digits.isEmpty then none
  else
    let value ← readDigits? base 0 digits
    if value < Nat.pow 2 64 then some value else none

/-- Whether a character is a decimal digit. -/
def isDecimalDigit (c : Char) : Bool := '0' ≤ c ∧ c ≤ '9'

/-- The value of decimal digits. -/
def decimalValue (digits : Text) : Nat :=
  digits.foldl (fun value c => value * 10 + (c.toNat - '0'.toNat)) 0

/-- Reads the exponent of a decimal number, if one is written. -/
def readExponent? : Text → Option Int
  | [] => some 0
  | c :: rest =>
    if c = 'e' ∨ c = 'E' then
      let (negative, digits) := match rest with
        | '-' :: digits => (true, digits)
        | '+' :: digits => (false, digits)
        | digits => (false, digits)
      if digits.isEmpty || !digits.all isDecimalDigit then none
      else
        let value : Int := decimalValue digits
        some (if negative then -value else value)
    else none

/-- A decimal number: digits with at most one point, and perhaps an exponent. -/
def readDecimal? (text : Text) : Option Decimal := do
  let whole := text.takeWhile isDecimalDigit
  let rest := text.dropWhile isDecimalDigit
  let (places, rest) := match rest with
    | '.' :: after => (after.takeWhile isDecimalDigit, after.dropWhile isDecimalDigit)
    | other => ([], other)
  if whole.isEmpty && places.isEmpty then none
  else
    let exponent ← readExponent? rest
    some ⟨decimalValue (whole ++ places), exponent - places.length⟩

/-- The double nearest to a decimal; there is none if it is too large. The magnitude is looked at
first, so that numbers far out of range are not written out. -/
def nearest? (x : Decimal) : Option Binary64 :=
  if x.digits = 0 then some ⟨0, 0⟩
  else
    let magnitude : Int := (Nat.toDigits 10 x.digits).length + x.exponent
    if 400 < magnitude then none
    else if magnitude < -400 then some ⟨0, 0⟩
    else
      let (n, d) := scaledFraction x.digits 10 x.exponent
      Binary64.ofFraction? n d

/-- The key of a number that is not negative. -/
def decimalKey? (text : Text) : Option String := do
  let value ← nearest? (← readDecimal? text)
  let (n, d) := value.fraction
  if value.isWhole && n < Nat.pow 10 15 * d then some (toString (n / d))
  else some value.shortest.positional

/-- The key of a decimal number with an optional sign. Zero has no sign. -/
def signedKey? : Text → Option String
  | '-' :: rest => do
    let key ← decimalKey? rest
    some (if key = "0" then key else "-" ++ key)
  | '+' :: rest => decimalKey? rest
  | text => decimalKey? text

/-- The base that the first two characters of a number call for. -/
def base? : Text → Option Nat
  | '0' :: c :: _ =>
    if c = 'x' ∨ c = 'X' then some 16
    else if c = 'o' ∨ c = 'O' then some 8
    else if c = 'b' ∨ c = 'B' then some 2
    else none
  | _ => none

/-- The key that a number names. -/
def ofText (text : Text) : String :=
  let digits := text.filter (· != '_')
  let key? := match base? digits with
    | some base => (readWord? base (digits.drop 2)).map toString
    | none => signedKey? digits
  key?.getD (String.ofList text)

end NumericKey

end KeyOrder
