import KeyOrder.Data.Value
import KeyOrder.Syntax.NumericKey

/-!
# Reading TOML

A reader of TOML 1.0 documents. A document is read line by line into a tree of tables, which knows
how each table came about: a table is opened by a header once, and neither a header nor a dotted
key adds to a table that is complete.
-/

namespace KeyOrder.Toml

/-! ## The tree of tables -/

/-- How a table came about. -/
inductive TableOrigin where
  /-- Named on the way to another table. -/
  | implied
  /-- Named on the way of a dotted key. -/
  | dotted
  /-- Opened by a header. -/
  | opened
deriving DecidableEq, Repr

/-- A node of a document that is being read. -/
inductive Node where
  | value (value : Value)
  | table (origin : TableOrigin) (entries : List (String × Node))
  /-- Tables that are opened one after another under one name. -/
  | tables (items : List (List (String × Node)))

/-- The entries of a table. -/
abbrev Entries := List (String × Node)

/-- Entries with the one of a key replaced, or added at the end. -/
def setEntry (entries : Entries) (key : String) (node : Node) : Entries :=
  if entries.any (·.1 == key) then
    entries.map fun entry => if entry.1 == key then (key, node) else entry
  else entries ++ [(key, node)]

/-- Changes the table at the end of a path that a header names. Missing tables on the way are
implied; of several tables under one name the last is meant. -/
def alter? (path : List String) (change : Entries → Option Entries) (entries : Entries) :
    Option Entries :=
  match path with
  | [] => change entries
  | key :: rest =>
    match entries.lookup key with
    | none => do
      let inner ← alter? rest change []
      some (setEntry entries key (.table .implied inner))
    | some (.table origin inner) => do
      let inner ← alter? rest change inner
      some (setEntry entries key (.table origin inner))
    | some (.tables items) =>
      match items.reverse with
      | [] => none
      | last :: earlier => do
        let last ← alter? rest change last
        some (setEntry entries key (.tables (earlier.reverse ++ [last])))
    | some (.value _) => none

/-- Opens a table by a header. -/
def openTable? (key : String) (entries : Entries) : Option Entries :=
  match entries.lookup key with
  | none => some (setEntry entries key (.table .opened []))
  | some (.table .implied inner) => some (setEntry entries key (.table .opened inner))
  | _ => none

/-- Opens one more table under a name. -/
def openItem? (key : String) (entries : Entries) : Option Entries :=
  match entries.lookup key with
  | none => some (setEntry entries key (.tables [[]]))
  | some (.tables items) => some (setEntry entries key (.tables (items ++ [[]])))
  | _ => none

/-- Gives a value to a dotted key. -/
def assign? (path : List String) (value : Value) (entries : Entries) : Option Entries :=
  match path with
  | [] => none
  | [key] =>
    if (entries.lookup key).isSome then none else some (setEntry entries key (.value value))
  | key :: rest =>
    match entries.lookup key with
    | none => do
      let inner ← assign? rest value []
      some (setEntry entries key (.table .dotted inner))
    | some (.table .opened _) => none
    | some (.table origin inner) => do
      let inner ← assign? rest value inner
      some (setEntry entries key (.table origin inner))
    | _ => none

mutual

/-- The value that a node stands for. -/
def Node.toValue : Node → Value
  | .value value => value
  | .table _ entries => .table (toValues entries)
  | .tables items => .array (tablesToValues items)

/-- The values of the entries of a table. -/
def toValues : List (String × Node) → List (String × Value)
  | [] => []
  | (key, node) :: rest => (key, node.toValue) :: toValues rest

/-- The values of tables under one name. -/
def tablesToValues : List (List (String × Node)) → List Value
  | [] => []
  | item :: rest => .table (toValues item) :: tablesToValues rest

end

/-! ## Characters and strings -/

/-- A blank inside a line. -/
def isSpace (c : Char) : Bool := c == ' ' || c == '\t'

/-- The text without the blanks in front. -/
def skipSpace (text : Text) : Text := text.dropWhile isSpace

/-- Whether a character may stand in a comment or a string. -/
def isPlain (c : Char) : Bool := c == '\t' || (0x20 ≤ c.toNat && c.toNat != 0x7F)

/-- Whether a character may stand in a bare key. -/
def isBare (c : Char) : Bool :=
  (c.isAlphanum && c.toNat < 128) || c == '_' || c == '-'

/-- The text behind a line end. -/
def lineEnd? : Text → Option Text
  | '\n' :: rest => some rest
  | '\r' :: '\n' :: rest => some rest
  | _ => none

/-- The text behind a comment, up to the end of its line, if one stands here. -/
def skipComment? (text : Text) : Option Text :=
  match text with
  | '#' :: rest =>
    let after := rest.dropWhile isPlain
    if after.isEmpty || (lineEnd? after).isSome then some after else none
  | other => some other

/-- The text behind blanks, comments and line ends. -/
def skipLines? (fuel : Nat) (text : Text) : Option Text :=
  match fuel with
  | 0 => none
  | fuel + 1 => do
    let text ← skipComment? (skipSpace text)
    match lineEnd? text with
    | some rest => skipLines? fuel rest
    | none => some text

/-- The character with a code, unless it is no character. -/
def charOfCode? (code : Nat) : Option Char :=
  if code < 0xD800 || (0xE000 ≤ code && code < 0x110000) then some (Char.ofNat code) else none

/-- The character that an escape stands for, given the text behind the backslash. -/
def readEscape? : Text → Option (Char × Text)
  | 'b' :: rest => some ('\x08', rest)
  | 't' :: rest => some ('\t', rest)
  | 'n' :: rest => some ('\n', rest)
  | 'f' :: rest => some ('\x0c', rest)
  | 'r' :: rest => some ('\r', rest)
  | '"' :: rest => some ('"', rest)
  | '\\' :: rest => some ('\\', rest)
  | 'u' :: rest => readCode? 4 rest
  | 'U' :: rest => readCode? 8 rest
  | _ => none
where
  /-- The character whose code is written in a number of hexadecimal digits. -/
  readCode? (count : Nat) (text : Text) : Option (Char × Text) := do
    if text.length < count then none
    else
      let code ← NumericKey.readDigits? 16 0 (text.take count)
      let c ← charOfCode? code
      some (c, text.drop count)

/-- Reads a string on one line up to its closing quote, on top of the characters read so far,
which are in reverse order. -/
def readLine? (fuel : Nat) (quote : Char) (escapes : Bool) (read : Text) (text : Text) :
    Option (String × Text) :=
  match fuel with
  | 0 => none
  | fuel + 1 =>
    match text with
    | [] => none
    | c :: rest =>
      if c = quote then some (String.ofList read.reverse, rest)
      else if c = '\\' && escapes then do
        let (c, rest) ← readEscape? rest
        readLine? fuel quote escapes (c :: read) rest
      else if isPlain c then readLine? fuel quote escapes (c :: read) rest
      else none

/-- Reads a string on several lines up to its three closing quotes; up to two more quotes are part
of the string. A backslash at the end of a line leaves out what follows up to the next character.
-/
def readLines? (fuel : Nat) (quote : Char) (escapes : Bool) (read : Text) (text : Text) :
    Option (String × Text) :=
  match fuel with
  | 0 => none
  | fuel + 1 =>
    match text with
    | [] => none
    | '\r' :: '\n' :: rest => readLines? fuel quote escapes ('\n' :: read) rest
    | '\n' :: rest => readLines? fuel quote escapes ('\n' :: read) rest
    | c :: rest =>
      let quotes := (text.takeWhile (· == quote)).length
      if 3 ≤ quotes then
        let extra := quotes - 3
        if 2 < extra then none
        else some (String.ofList ((List.replicate extra quote) ++ read).reverse, text.drop quotes)
      else if c = '\\' && escapes then
        let blanks := skipSpace rest
        match lineEnd? blanks with
        | some after =>
          readLines? fuel quote escapes read
            (after.dropWhile fun c => c == ' ' || c == '\t' || c == '\n' || c == '\r')
        | none => do
          let (c, rest) ← readEscape? rest
          readLines? fuel quote escapes (c :: read) rest
      else if isPlain c then readLines? fuel quote escapes (c :: read) rest
      else none

/-- Reads a string of any of the four forms. -/
def readString? (text : Text) : Option (String × Text) :=
  match text with
  | c :: rest =>
    if c = '"' || c = '\'' then
      let escapes := c = '"'
      if [c, c, c].isPrefixOf text then
        let body := text.drop 3
        readLines? (text.length + 1) c escapes [] ((lineEnd? body).getD body)
      else readLine? (text.length + 1) c escapes [] rest
    else none
  | [] => none

/-! ## Keys -/

/-- Reads one part of a key. -/
def readKeyPart? (text : Text) : Option (String × Text) :=
  match text with
  | c :: rest =>
    if c = '"' || c = '\'' then readLine? (text.length + 1) c (c = '"') [] rest
    else
      let bare := text.takeWhile isBare
      if bare.isEmpty then none else some (String.ofList bare, text.drop bare.length)
  | [] => none

/-- Reads a key, whose parts are separated by dots. -/
def readKey? (fuel : Nat) (text : Text) : Option (List String × Text) :=
  match fuel with
  | 0 => none
  | fuel + 1 => do
    let (part, rest) ← readKeyPart? (skipSpace text)
    match skipSpace rest with
    | '.' :: rest =>
      let (parts, rest) ← readKey? fuel rest
      some (part :: parts, rest)
    | rest => some ([part], rest)

/-! ## Numbers and dates -/

/-- Digits of a class with single underscores between them. -/
def isGrouped (isDigit : Char → Bool) : Text → Bool
  | [] => false
  | [c] => isDigit c
  | c :: '_' :: rest => isDigit c && isGrouped isDigit rest
  | c :: rest => isDigit c && isGrouped isDigit rest

/-- Whether a character is a digit of a base. -/
def isDigitOf (base : Nat) (c : Char) : Bool := (NumericKey.digitValue? c).any (· < base)

/-- A whole number in decimal digits without leading zeros. -/
def isWhole (text : Text) : Bool :=
  isGrouped NumericKey.isDecimalDigit text && (text.length = 1 || text.head? ≠ some '0')

/-- The text without a sign in front. -/
def dropSign : Text → Text
  | '+' :: rest => rest
  | '-' :: rest => rest
  | text => text

/-- The exponent of a number with places or without. -/
def isExponent : Text → Bool
  | c :: rest => (c = 'e' || c = 'E') && isGrouped NumericKey.isDecimalDigit (dropSign rest)
  | [] => false

/-- Whether a text is a number. -/
def isNumber (text : Text) : Bool :=
  let digits := dropSign text
  let isPart (c : Char) : Bool := NumericKey.isDecimalDigit c || c == '_'
  match text with
  | '0' :: 'x' :: rest => isGrouped (isDigitOf 16) rest
  | '0' :: 'o' :: rest => isGrouped (isDigitOf 8) rest
  | '0' :: 'b' :: rest => isGrouped (isDigitOf 2) rest
  | _ =>
    let whole := digits.takeWhile isPart
    digits = "inf".toList || digits = "nan".toList ||
      (isWhole whole &&
        match digits.dropWhile isPart with
        | [] => true
        | '.' :: rest =>
          let places := rest.takeWhile isPart
          let after := rest.dropWhile isPart
          isGrouped NumericKey.isDecimalDigit places && (after.isEmpty || isExponent after)
        | rest => isExponent rest)

/-- Whether a text has the shape of a pattern in which `d` stands for a digit. -/
def hasShape (shape : String) (text : Text) : Bool :=
  shape.length = text.length &&
    (shape.toList.zip text).all fun (p, c) =>
      if p = 'd' then NumericKey.isDecimalDigit c else p = c

/-- The number that some of the digits of a text make. -/
def digitsAt (text : Text) (start count : Nat) : Nat :=
  NumericKey.decimalValue ((text.drop start).take count)

/-- Whether a text is a time of day. A minute may have sixty-one seconds. -/
def isTime (text : Text) : Bool :=
  hasShape "dd:dd:dd" (text.take 8) && digitsAt text 0 2 ≤ 24 && digitsAt text 3 2 ≤ 59 &&
    digitsAt text 6 2 ≤ 60 &&
    match text.drop 8 with
    | [] => true
    | '.' :: places => !places.isEmpty && places.all NumericKey.isDecimalDigit
    | _ => false

/-- Whether a text is a time of day with a time zone. -/
def isZonedTime (text : Text) : Bool :=
  let body := text.take (text.length - 6)
  let zone := text.drop (text.length - 6)
  (isTime text.dropLast && (text.getLast? = some 'Z' || text.getLast? = some 'z')) ||
    (isTime body && (hasShape "+dd:dd" zone || hasShape "-dd:dd" zone))

/-- Number of days of a month. -/
def daysIn (year month : Nat) : Nat :=
  if month = 2 then
    if year % 4 = 0 && (year % 100 ≠ 0 || year % 400 = 0) then 29 else 28
  else if month = 4 || month = 6 || month = 9 || month = 11 then 30
  else 31

/-- Whether a text is a day of the calendar. -/
def isDay (text : Text) : Bool :=
  let (month, day) := (digitsAt text 5 2, digitsAt text 8 2)
  hasShape "dddd-dd-dd" text && 1 ≤ month && month ≤ 12 && 1 ≤ day &&
    day ≤ daysIn (digitsAt text 0 4) month

/-- Whether a text is a date, a time or both. -/
def isDate (text : Text) : Bool :=
  let front := isDay (text.take 10)
  let separator := (text.drop 10).head?
  isTime text || (front && text.length = 10) ||
    (front && (separator = some 'T' || separator = some 't' || separator = some ' ') &&
      (isTime (text.drop 11) || isZonedTime (text.drop 11)))

/-- Reads a word, a number or a date. A blank between a date and a time is part of it. -/
def readPlain? (text : Text) : Option (Value × Text) :=
  let isPart (c : Char) : Bool := isBare c || c == '+' || c == '.' || c == ':'
  let first := text.takeWhile isPart
  let rest := text.dropWhile isPart
  let (word, rest) := match rest with
    | ' ' :: c :: after =>
      if hasShape "dddd-dd-dd" first && NumericKey.isDecimalDigit c then
        (first ++ ' ' :: (c :: after).takeWhile isPart, (c :: after).dropWhile isPart)
      else (first, rest)
    | _ => (first, rest)
  if word = "true".toList then some (.boolean true, rest)
  else if word = "false".toList then some (.boolean false, rest)
  else if isNumber word then some (.number (String.ofList word), rest)
  else if isDate word then some (.date (String.ofList word), rest)
  else none

/-! ## Values -/

mutual

/-- Reads a value. -/
def readValue? (fuel : Nat) (text : Text) : Option (Value × Text) :=
  match fuel with
  | 0 => none
  | fuel + 1 =>
    match text with
    | '[' :: rest => do
      let (items, rest) ← readItems? fuel rest
      some (.array items, rest)
    | '\x7b' :: rest =>
      match skipSpace rest with
      | '\x7d' :: rest => some (.table [], rest)
      | rest => do
        let (entries, rest) ← readInline? fuel [] rest
        some (.table (toValues entries), rest)
    | c :: _ =>
      if c = '"' || c = '\'' then
        (readString? text).map fun (string, rest) => (.string string, rest)
      else readPlain? text
    | [] => none

/-- Reads the items of an array and the closing bracket. -/
def readItems? (fuel : Nat) (text : Text) : Option (List Value × Text) :=
  match fuel with
  | 0 => none
  | fuel + 1 => do
    let text ← skipLines? (text.length + 1) text
    match text with
    | ']' :: rest => some ([], rest)
    | text =>
      let (item, rest) ← readValue? fuel text
      let rest ← skipLines? (rest.length + 1) rest
      match rest with
      | ',' :: rest =>
        let (items, rest) ← readItems? fuel rest
        some (item :: items, rest)
      | ']' :: rest => some ([item], rest)
      | _ => none

/-- Reads the entries of a table on one line and the closing brace. -/
def readInline? (fuel : Nat) (entries : List (String × Node)) (text : Text) :
    Option (List (String × Node) × Text) :=
  match fuel with
  | 0 => none
  | fuel + 1 => do
    let (key, rest) ← readKey? (text.length + 1) text
    match rest with
    | '=' :: rest =>
      let (value, rest) ← readValue? fuel (skipSpace rest)
      let entries ← assign? key value entries
      match skipSpace rest with
      | ',' :: rest => readInline? fuel entries rest
      | '\x7d' :: rest => some (entries, rest)
      | _ => none
    | _ => none

end

/-! ## Documents -/

/-- A document that is being read: its tables, and the path of the table that is open. -/
structure Document where
  entries : Entries := []
  path : List String := []

/-- Reads a header, given the text behind its first bracket. -/
def readHeader? (document : Document) (text : Text) : Option (Document × Text) := do
  let (isItem, text) := match text with
    | '[' :: rest => (true, rest)
    | other => (false, other)
  let (path, rest) ← readKey? (text.length + 1) text
  let key ← path.getLast?
  let (openIt?, rest) ← match isItem, rest with
    | true, ']' :: ']' :: rest => some (openItem? key, rest)
    | false, ']' :: rest => some (openTable? key, rest)
    | _, _ => none
  let entries ← alter? path.dropLast openIt? document.entries
  some ({ entries, path }, rest)

/-- Reads a key and its value. -/
def readAssignment? (document : Document) (text : Text) : Option (Document × Text) := do
  let (key, rest) ← readKey? (text.length + 1) text
  match rest with
  | '=' :: rest =>
    let (value, rest) ← readValue? (2 * rest.length + 2) (skipSpace rest)
    let entries ← alter? document.path (assign? key value) document.entries
    some ({ document with entries }, rest)
  | _ => none

/-- Reads the lines of a document. -/
def readDocument? (fuel : Nat) (document : Document) (text : Text) : Option Document :=
  match fuel with
  | 0 => none
  | fuel + 1 => do
    let text ← skipLines? (text.length + 1) text
    match text with
    | [] => some document
    | c :: rest =>
      let (document, rest) ←
        if c = '[' then readHeader? document rest else readAssignment? document text
      let rest ← skipComment? (skipSpace rest)
      if rest.isEmpty then some document
      else readDocument? fuel document (← lineEnd? rest)

/-- The value of a TOML document; a byte order mark in front is passed over. -/
def read? (text : Text) : Option Value := do
  let text := match text with
    | c :: rest => if c.toNat = 0xFEFF then rest else text
    | [] => []
  let document ← readDocument? (text.length + 1) {} text
  some (.table (toValues document.entries))

end KeyOrder.Toml
