import KeyOrder.Data.Value
import KeyOrder.Syntax.NumericKey

/-!
# Reading JSON

A strict reader of JSON texts: nothing may follow the value, numbers have no leading zeros and
must fit a double, strings hold no raw control characters and no lone surrogates, and values nest
less than 128 levels deep. Repeated keys are kept; what they mean is for the user of the value to
decide.
-/

namespace KeyOrder.Json

/-- White space between tokens. -/
def isSpace (c : Char) : Bool := c == ' ' || c == '\n' || c == '\t' || c == '\r'

/-- The text without the white space in front. -/
def skipSpace (text : Text) : Text := text.dropWhile isSpace

/-- Values nest less deep than this. -/
def depthLimit : Nat := 128

/-- The number that four hexadecimal digits stand for, and the text behind them. -/
def readHex4? : Text → Option (Nat × Text)
  | a :: b :: c :: d :: rest => do
    let value ← NumericKey.readDigits? 16 0 [a, b, c, d]
    some (value, rest)
  | _ => none

/-- The character that an escape stands for, given the text behind the backslash. A character beyond
`U+FFFF` is written as two escapes. -/
def readEscape? : Text → Option (Char × Text)
  | '"' :: rest => some ('"', rest)
  | '\\' :: rest => some ('\\', rest)
  | '/' :: rest => some ('/', rest)
  | 'b' :: rest => some ('\x08', rest)
  | 'f' :: rest => some ('\x0c', rest)
  | 'n' :: rest => some ('\n', rest)
  | 'r' :: rest => some ('\r', rest)
  | 't' :: rest => some ('\t', rest)
  | 'u' :: rest => do
    let (unit, rest) ← readHex4? rest
    if 0xD800 ≤ unit && unit < 0xDC00 then
      match rest with
      | '\\' :: 'u' :: rest =>
        let (low, rest) ← readHex4? rest
        if 0xDC00 ≤ low && low < 0xE000 then
          some (Char.ofNat (0x10000 + (unit - 0xD800) * 0x400 + (low - 0xDC00)), rest)
        else none
      | _ => none
    else if 0xDC00 ≤ unit && unit < 0xE000 then none
    else some (Char.ofNat unit, rest)
  | _ => none

/-- Reads a string up to its closing quote on top of the characters read so far, which are in
reverse order. -/
def readString? (fuel : Nat) (read : List Char) (text : Text) : Option (String × Text) :=
  match fuel with
  | 0 => none
  | fuel + 1 =>
    match text with
    | [] => none
    | '"' :: rest => some (String.ofList read.reverse, rest)
    | '\\' :: rest => do
      let (c, rest) ← readEscape? rest
      readString? fuel (c :: read) rest
    | c :: rest => if c.toNat < 0x20 then none else readString? fuel (c :: read) rest

/-- Whether digits are written without a leading zero. -/
def isPlainWhole (digits : Text) : Bool :=
  match digits with
  | [] => false
  | ['0'] => true
  | '0' :: _ => false
  | _ => true

/-- Reads a number: its sign, its whole part, its places and its exponent. -/
def readNumber? (text : Text) : Option (Value × Text) := do
  let (sign, text) := match text with
    | '-' :: rest => (['-'], rest)
    | other => ([], other)
  let whole := text.takeWhile NumericKey.isDecimalDigit
  let rest := text.dropWhile NumericKey.isDecimalDigit
  if !isPlainWhole whole then none
  else
    let (places, rest) ← match rest with
      | '.' :: after =>
        let places := after.takeWhile NumericKey.isDecimalDigit
        if places.isEmpty then none
        else some ('.' :: places, after.dropWhile NumericKey.isDecimalDigit)
      | other => some ([], other)
    let (exponent, rest) ← match rest with
      | c :: after =>
        if c == 'e' || c == 'E' then
          let (mark, after) := match after with
            | '+' :: after => (['+'], after)
            | '-' :: after => (['-'], after)
            | other => ([], other)
          let digits := after.takeWhile NumericKey.isDecimalDigit
          if digits.isEmpty then none
          else some (c :: mark ++ digits, after.dropWhile NumericKey.isDecimalDigit)
        else some ([], rest)
      | [] => some ([], rest)
    let magnitude := whole ++ places ++ exponent
    let _ ← NumericKey.nearest? (← NumericKey.readDecimal? magnitude)
    some (.number (String.ofList (sign ++ magnitude)), rest)

/-- The text behind a word that it starts with. -/
def readWord? (word : String) (text : Text) : Option Text :=
  if word.toList.isPrefixOf text then some (text.drop word.length) else none

mutual

/-- Reads a value that may nest `depth` levels deep. -/
def readValue? (fuel depth : Nat) (text : Text) : Option (Value × Text) :=
  match fuel with
  | 0 => none
  | fuel + 1 =>
    match skipSpace text with
    | '"' :: rest => do
      let (string, rest) ← readString? (rest.length + 1) [] rest
      some (.string string, rest)
    | '[' :: rest =>
      if depth ≤ 1 then none
      else
        match skipSpace rest with
        | ']' :: rest => some (.array [], rest)
        | rest => do
          let (items, rest) ← readItems? fuel (depth - 1) rest
          some (.array items, rest)
    | '\x7b' :: rest =>
      if depth ≤ 1 then none
      else
        match skipSpace rest with
        | '\x7d' :: rest => some (.table [], rest)
        | rest => do
          let (entries, rest) ← readEntries? fuel (depth - 1) rest
          some (.table entries, rest)
    | 't' :: rest => (readWord? "rue" rest).map fun rest => (.boolean true, rest)
    | 'f' :: rest => (readWord? "alse" rest).map fun rest => (.boolean false, rest)
    | 'n' :: rest => (readWord? "ull" rest).map fun rest => (.null, rest)
    | text => readNumber? text

/-- Reads the items of an array, of which there is at least one, and the closing bracket. -/
def readItems? (fuel depth : Nat) (text : Text) : Option (List Value × Text) :=
  match fuel with
  | 0 => none
  | fuel + 1 => do
    let (item, rest) ← readValue? fuel depth text
    match skipSpace rest with
    | ',' :: rest =>
      let (items, rest) ← readItems? fuel depth rest
      some (item :: items, rest)
    | ']' :: rest => some ([item], rest)
    | _ => none

/-- Reads the entries of an object, of which there is at least one, and the closing brace. -/
def readEntries? (fuel depth : Nat) (text : Text) : Option (List (String × Value) × Text) :=
  match fuel with
  | 0 => none
  | fuel + 1 =>
    match skipSpace text with
    | '"' :: rest => do
      let (key, rest) ← readString? (rest.length + 1) [] rest
      match skipSpace rest with
      | ':' :: rest =>
        let (value, rest) ← readValue? fuel depth rest
        match skipSpace rest with
        | ',' :: rest =>
          let (entries, rest) ← readEntries? fuel depth rest
          some ((key, value) :: entries, rest)
        | '\x7d' :: rest => some ([(key, value)], rest)
        | _ => none
      | _ => none
    | _ => none

end

/-- The value of a JSON text. -/
def read? (text : Text) : Option Value := do
  -- Every second call at least consumes a character.
  let (value, rest) ← readValue? (2 * text.length + 2) depthLimit text
  if (skipSpace rest).isEmpty then some value else none

end KeyOrder.Json
