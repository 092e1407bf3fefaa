import KeyOrder.Syntax.Node

/-!
# Tokens of TypeScript

A reader of one token at a time. A place is what is left of the source together with its offset
and its row; behind every place stand white space and comments, then a token. Which token that is
does not depend on the grammar, with four exceptions that the grammar asks for by themselves:
pieces of templates, text between the tags of an element, regular expressions and the braces with
a bar.
-/

namespace KeyOrder.TypeScript

/-- A place in a source. -/
structure Place where
  rest : Text
  offset : Nat
  row : Nat

namespace Place

/-- The start of a source. -/
def start (source : Text) : Place := ⟨source, 0, 0⟩

/-- The place behind the next character. -/
def next (place : Place) : Place :=
  match place.rest with
  | [] => place
  | c :: rest => ⟨rest, place.offset + c.utf8Size, if c = '\n' then place.row + 1 else place.row⟩

/-- The place behind the next `count` characters. -/
def skip (place : Place) : Nat → Place
  | 0 => place
  | count + 1 => place.next.skip count

/-- The span between two places. -/
def spanTo (first last : Place) : Span := ⟨first.offset, last.offset, first.row, last.row⟩

end Place

/-! ## Character classes -/

/-- Inclusive ranges of the Unicode category of spaces. -/
def spaceSeparatorRanges : List (Nat × Nat) :=
  [(0x20, 0x20), (0xA0, 0xA0), (0x1680, 0x1680), (0x2000, 0x200A), (0x202F, 0x202F),
   (0x205F, 0x205F), (0x3000, 0x3000)]

/-- White space of ASCII. -/
def isAsciiSpace (c : Char) : Bool := c == ' ' || (9 ≤ c.toNat && c.toNat ≤ 13)

/-- Characters between tokens: white space, line separators, the byte order mark and two marks
without width. -/
def isSpace (c : Char) : Bool :=
  isAsciiSpace c || spaceSeparatorRanges.any (fun (low, high) => low ≤ c.toNat && c.toNat ≤ high) ||
    [0x2028, 0x2029, 0xFEFF, 0x2060, 0x200B].contains c.toNat

/-- Characters that stand in no name. -/
def isMark (c : Char) : Bool :=
  ":;`\"'@#.,|^&<=>+-*/\\%?!~()[]\x7b\x7d".toList.contains c

/-- Characters that continue a name. -/
def isWordChar (c : Char) : Bool := !(c.toNat < 0x20 || isSpace c || isMark c)

/-- Characters that start a name. -/
def isWordStart (c : Char) : Bool := isWordChar c && !('0' ≤ c && c ≤ '9')

/-- A decimal digit or the mark between digits. -/
def isNumberChar (c : Char) : Bool := ('0' ≤ c && c ≤ '9') || c == '_'

/-! ## Lengths of tokens

Each function gives the number of characters of a token at the start of a text. -/

/-- Length of a block comment whose opening mark has been read, or of the whole text if it is not
closed. -/
def blockCommentLength : Text → Nat
  | [] => 0
  | '*' :: '/' :: _ => 2
  | _ :: rest => blockCommentLength rest + 1

/-- Whether a block comment whose opening mark has been read is closed. -/
def blockCommentCloses (text : Text) : Bool := Text.occursIn ['*', '/'] text

/-- Characters that end a line comment. -/
def endsLineComment (c : Char) : Bool :=
  c == '\n' || c == '\r' || c.toNat == 0x2028 || c.toNat == 0x2029

/-- Length of a comment, if there is one. -/
def commentLength? : Text → Option Nat
  | '/' :: '/' :: rest => some (2 + (rest.takeWhile fun c => !endsLineComment c).length)
  | '/' :: '*' :: rest =>
    if blockCommentCloses rest then some (2 + blockCommentLength rest) else none
  | _ => none

/-- Length of a string up to its closing quote, if it is closed on its line. A backslash takes the
next character with it. -/
def quotedLength? (quote : Char) : Text → Option Nat
  | [] => none
  | '\\' :: _ :: rest => (quotedLength? quote rest).map (· + 2)
  | c :: rest =>
    if c = quote then some 1
    else if c = '\n' then none
    else (quotedLength? quote rest).map (· + 1)

/-- Length of the exponent of a number. -/
def exponentLength : Text → Nat
  | c :: rest =>
    if c = 'e' ∨ c = 'E' then
      let (sign, digits) := match rest with
        | '+' :: digits => (1, digits)
        | '-' :: digits => (1, digits)
        | digits => (0, digits)
      let count := (digits.takeWhile isNumberChar).length
      if count = 0 then 0 else 1 + sign + count
    else 0
  | [] => 0

/-- Length of a number without a base mark: digits, places, exponent, and the mark of a big
number. -/
def decimalLength (text : Text) : Nat :=
  let whole := (text.takeWhile isNumberChar).length
  let afterWhole := text.drop whole
  let places := match afterWhole with
    | '.' :: rest => 1 + (rest.takeWhile isNumberChar).length
    | _ => 0
  let exponent := exponentLength (afterWhole.drop places)
  let length := whole + places + exponent
  if places = 0 ∧ exponent = 0 ∧ (text.drop length).head? = some 'n' then length + 1 else length

/-- Length of a number. -/
def numberLength : Text → Nat
  | '0' :: c :: rest =>
    if "xXoObB".toList.contains c then
      2 + (rest.takeWhile fun d => d.isAlphanum || d == '_').length
    else decimalLength ('0' :: c :: rest)
  | text => decimalLength text

/-- Marks of more than one character, longer ones before their beginnings. A right angle bracket is
always a mark by itself, because types end with several of them. -/
def longMarks : List String :=
  ["===", "!==", "**=", "<<=", "&&=", "||=", "??=", "...", "=>", "==", "!=", "<=", "<<", "&&", "||",
   "??", "?.", "++", "--", "**", "+=", "-=", "*=", "/=", "%=", "&=", "|=", "^="]

/-- Length of a mark. A question mark before a place such as `.5` is a mark by itself. -/
def markLength (text : Text) : Nat :=
  match text with
  | '?' :: '.' :: c :: _ => if '0' ≤ c && c ≤ '9' then 1 else 2
  | _ =>
    match longMarks.find? fun mark => mark.toList.isPrefixOf text with
    | some mark => mark.length
    | none => 1

/-- Length of a regular expression whose opening slash has been read, up to its closing slash;
slashes in brackets do not close it. -/
def patternLength? (inBrackets : Bool) : Text → Option Nat
  | [] => none
  | '\\' :: _ :: rest => (patternLength? inBrackets rest).map (· + 2)
  | c :: rest =>
    if c = '\n' then none
    else if c = '/' && !inBrackets then some 1
    else (patternLength? (c = '[' || (inBrackets && c ≠ ']')) rest).map (· + 1)

/-- Length of a regular expression with its flags, if there is one. -/
def regexLength? : Text → Option Nat
  | '/' :: rest => do
    let length ← patternLength? false rest
    some (1 + length + ((rest.drop length).takeWhile isWordChar).length)
  | _ => none

/-- Length of the text of a template up to its end or its next substitution. -/
def templateLength : Text → Nat
  | [] => 0
  | '\\' :: _ :: rest => templateLength rest + 2
  | '$' :: c :: rest => if c = '\x7b' then 0 else templateLength (c :: rest) + 1
  | c :: rest => if c.toNat = 0x60 then 0 else templateLength rest + 1

/-! ## Tokens -/

/-- What a token is. -/
inductive TokenClass where
  | word
  | privateName
  | number
  | string
  /-- Punctuation, and characters without a meaning of their own. -/
  | mark
  | endOfSource
deriving DecidableEq, Repr

/-- The class and the length of the token at the start of a text. -/
def classify (text : Text) : TokenClass × Nat :=
  match text with
  | [] => (.endOfSource, 0)
  | c :: rest =>
    let digitFollows := rest.head?.any fun d => '0' ≤ d && d ≤ '9'
    if isWordStart c then (.word, (text.takeWhile isWordChar).length)
    else if '0' ≤ c && c ≤ '9' then (.number, numberLength text)
    else if c = '.' && digitFollows then (.number, numberLength text)
    else if c = '#' && rest.head?.any isWordStart then
      (.privateName, 1 + (rest.takeWhile isWordChar).length)
    else if c = '"' || c = '\'' then
      match quotedLength? c rest with
      | some length => (.string, 1 + length)
      | none => (.mark, 1)
    else (.mark, markLength text)

/-- What stands behind a place: comments and then a token. -/
structure Lookahead where
  /-- The comments, in source order. -/
  comments : List SyntaxNode
  /-- Whether a line ends before the token. -/
  lineBreak : Bool
  tokenClass : TokenClass
  text : String
  /-- Where the token starts. -/
  start : Place
  /-- Where it ends. -/
  stop : Place

/-- A leaf of the syntax tree. -/
def leaf (kind : NodeKind) (isNamed : Bool) (first last : Place) : SyntaxNode :=
  .node kind .none (first.spanTo last) isNamed false []

/-- Skips white space and comments, of which those skipped so far are in reverse order. `fuel`
bounds the number of steps; each one skips a character at least. -/
def skipTrivia (fuel : Nat) (comments : List SyntaxNode) (lineBreak : Bool) (place : Place) :
    List SyntaxNode × Bool × Place :=
  match fuel with
  | 0 => (comments.reverse, lineBreak, place)
  | fuel + 1 =>
    match place.rest with
    | [] => (comments.reverse, lineBreak, place)
    | c :: _ =>
      if isSpace c then skipTrivia fuel comments (lineBreak || c = '\n') place.next
      else
        match commentLength? place.rest with
        | some length =>
          let stop := place.skip length
          skipTrivia fuel (leaf .comment true place stop :: comments)
            (lineBreak || place.row < stop.row) stop
        | none => (comments.reverse, lineBreak, place)

/-- What stands behind a place. -/
def Place.lookahead (place : Place) : Lookahead :=
  let (comments, lineBreak, start) := skipTrivia (place.rest.length + 1) [] false place
  let (tokenClass, length) := classify start.rest
  { comments, lineBreak, tokenClass
    text := String.ofList (start.rest.take length)
    start
    stop := start.skip length }

/-! ## Line ends that stand for a semicolon -/

/-- Whether a line that starts with this text may continue the line before it: no semicolon is put
between them. -/
def continuesLine : Text → Bool
  | [] => false
  | '+' :: rest => rest.head? ≠ some '+'
  | '-' :: rest => rest.head? ≠ some '-'
  | '!' :: rest => rest.head? = some '='
  | 'i' :: 'n' :: rest =>
    if !(rest.head?.any Char.isAlpha) then true
    else "stanceof".toList.isPrefixOf rest && !((rest.drop 8).head?.any Char.isAlpha)
  | c :: _ => "`,.;*%><=?^|&/:".toList.contains c

/-- Whether the source behind a place ends a statement or a member without a semicolon: at a
closing brace, at the end of the source, or at a line end unless the next line continues this one.
Only white space of ASCII is looked through before the line end; comments are passed over. -/
def endsWithoutMark (fuel : Nat) (place : Place) : Bool :=
  match fuel with
  | 0 => false
  | fuel + 1 =>
    match place.rest with
    | [] => true
    | c :: _ =>
      if c = '\x7d' then true
      else if c = '\n' then !continuesLine (place.next.lookahead).start.rest
      else if isAsciiSpace c then endsWithoutMark fuel place.next
      else
        match commentLength? place.rest with
        | some length => endsWithoutMark fuel (place.skip length)
        | none => false

end KeyOrder.TypeScript
