import KeyOrder.Text.Basic

/-!
# Glob patterns

Patterns over paths, which are read byte by byte. A star stands for any bytes but slashes, a
question mark for one of them, brackets for one byte of a class. Two stars that fill the space
between slashes stand for any number of directories.
-/

namespace KeyOrder

/-- A part of a glob pattern. -/
inductive GlobToken where
  | literal (c : Char)
  /-- One character, but no slash. -/
  | anyChar
  /-- Characters, but no slash. -/
  | anyChars
  /-- Any number of directories in front. -/
  | directoriesInFront
  /-- A slash, or slashes with anything between them. -/
  | directoriesBetween
  /-- A slash and anything. -/
  | everythingBelow
  /-- One character inside, or if negated outside, inclusive ranges. -/
  | oneOf (negated : Bool) (ranges : List (Char × Char))
deriving DecidableEq, Repr

namespace Glob

/-- The bytes of a text, each as the character with its number. -/
def bytesOf (text : Text) : Text :=
  text.flatMap fun c => (String.utf8EncodeChar c).map fun byte => Char.ofNat byte.toNat

/-- Reads the ranges of a class up to its closing bracket; a bracket at the very front is part of
it. -/
def readRanges (fuel : Nat) (isFirst : Bool) (text : Text) : Option (List (Char × Char) × Text) :=
  match fuel with
  | 0 => none
  | fuel + 1 =>
    match text with
    | [] => none
    | ']' :: rest =>
      if isFirst then do
        let (ranges, rest) ← readRanges fuel false rest
        some ((']', ']') :: ranges, rest)
      else some ([], rest)
    | low :: '-' :: high :: rest =>
      if high = ']' then do
        let (ranges, rest) ← readRanges fuel false ('-' :: high :: rest)
        some ((low, low) :: ranges, rest)
      else do
        let (ranges, rest) ← readRanges fuel false rest
        some ((low, high) :: ranges, rest)
    | c :: rest => do
      let (ranges, rest) ← readRanges fuel false rest
      some ((c, c) :: ranges, rest)

/-- Reads a pattern on top of the tokens read so far, which are in reverse order. `before` is the
character in front. There is no pattern if a class is not closed. -/
def readFrom (fuel : Nat) (tokens : List GlobToken) (before : Option Char) (text : Text) :
    Option (List GlobToken) :=
  match fuel with
  | 0 => none
  | fuel + 1 =>
    match text with
    | [] => some tokens.reverse
    | '\\' :: c :: rest => readFrom fuel (.literal c :: tokens) (some c) rest
    | '?' :: rest => readFrom fuel (.anyChar :: tokens) (some '?') rest
    | '*' :: '*' :: rest =>
      let plain := readFrom fuel (.anyChars :: .anyChars :: tokens) (some '*') rest
      if tokens.isEmpty then
        match rest with
        | [] => readFrom fuel [.directoriesInFront] (some '*') []
        | '/' :: rest => readFrom fuel [.directoriesInFront] (some '/') rest
        | _ => plain
      else if before = some '/' then
        -- The slash in front is part of the token, unless it already belongs to one.
        let (earlier, front) := match tokens with
          | .directoriesInFront :: _ => (tokens, true)
          | .everythingBelow :: _ => (tokens, true)
          | .literal '/' :: earlier => (earlier, false)
          | other => (other, false)
        match rest with
        | [] => readFrom fuel (if front then earlier else .everythingBelow :: earlier) (some '*') []
        | '/' :: rest =>
          readFrom fuel (if front then earlier else .directoriesBetween :: earlier) (some '/') rest
        | _ => plain
      else plain
    | '*' :: rest => readFrom fuel (.anyChars :: tokens) (some '*') rest
    | '[' :: rest => do
      let (negated, rest) := match rest with
        | '!' :: rest => (true, rest)
        | '^' :: rest => (true, rest)
        | other => (false, other)
      let (ranges, rest) ← readRanges (rest.length + 1) true rest
      readFrom fuel (.oneOf negated ranges :: tokens) (some ']') rest
    | c :: rest => readFrom fuel (.literal c :: tokens) (some c) rest

/-- Reads a pattern. Two stars alone match everything. -/
def read? (text : Text) : Option (List GlobToken) :=
  if text = "**".toList then some [.directoriesInFront, .anyChars]
  else readFrom (text.length + 1) [] none text

/-- Whether one of the ends of a text, found by leaving out characters from the front as long as
they pass the test, passes `match?`. -/
def anySuffix (match? : Text → Bool) (skippable : Char → Bool) : Text → Bool
  | [] => match? []
  | c :: rest => match? (c :: rest) || (skippable c && anySuffix match? skippable rest)

/-- Whether what follows one of the slashes of a text passes `match?`. -/
def anyAfterSlash (match? : Text → Bool) : Text → Bool
  | [] => false
  | c :: rest => (c = '/' && match? rest) || anyAfterSlash match? rest

/-- Whether a pattern matches a whole text. -/
def isMatch : List GlobToken → Text → Bool
  | [], text => text.isEmpty
  | .literal c :: tokens, text =>
    match text with
    | d :: rest => c = d && isMatch tokens rest
    | [] => false
  | .anyChar :: tokens, text =>
    match text with
    | d :: rest => d ≠ '/' && isMatch tokens rest
    | [] => false
  | .oneOf negated ranges :: tokens, text =>
    match text with
    | d :: rest =>
      let inside := ranges.any fun (low, high) => low ≤ d && d ≤ high
      d ≠ '/' && inside ≠ negated && isMatch tokens rest
    | [] => false
  | .anyChars :: tokens, text => anySuffix (isMatch tokens) (· ≠ '/') text
  | .directoriesInFront :: tokens, text =>
    let bare := isMatch tokens text
    bare || anyAfterSlash (isMatch tokens) text
  | .directoriesBetween :: tokens, text =>
    match text with
    | '/' :: rest => isMatch tokens rest || anyAfterSlash (isMatch tokens) rest
    | _ => false
  | .everythingBelow :: tokens, text =>
    match text with
    | '/' :: rest => anySuffix (isMatch tokens) (fun _ => true) rest
    | _ => false

end Glob

end KeyOrder
