import KeyOrder.Files.Glob
import KeyOrder.Text.Blank

/-!
# Ignore files

An ignore file holds one pattern a line, and **the last pattern that matches a path decides**. A
pattern behind an exclamation mark lets a path in again, one that ends with a slash is for
directories only, and one without a slash in it matches at any depth.
-/

namespace KeyOrder

/-- A line of an ignore file. -/
structure IgnorePattern where
  tokens : List GlobToken
  /-- Lets matching paths in. -/
  allows : Bool
  onlyDirectories : Bool
deriving DecidableEq, Repr

/-- What ignore rules say about a path. -/
inductive Verdict where
  | ignored
  | allowed
deriving DecidableEq, Repr

namespace IgnorePattern

/-- The text without a character at its front, and whether that character was there. -/
def stripFront (c : Char) (text : Text) : Bool × Text :=
  match text with
  | d :: rest => if c = d then (true, rest) else (false, text)
  | [] => (false, [])

/-- Whether two stars and a slash, or two stars alone, are in front. -/
def startsWithDirectories (line : Text) : Bool :=
  "**/".toList.isPrefixOf line || line = "**".toList

/-- Reads a line; there is no pattern in empty lines, comments and lines that are no pattern. -/
def ofLine? (line : Text) : Option IgnorePattern := do
  if line.head? = some '#' then none
  else
    let line := if "\\ ".toList.isSuffixOf line then line else line.trimEnd
    if line.isEmpty then none
    else
      let (allows, anchored, line) :=
        match line with
        | '\\' :: '!' :: rest => (false, false, '!' :: rest)
        | '\\' :: '#' :: rest => (false, false, '#' :: rest)
        | _ =>
          let (allows, line) := stripFront '!' line
          let (anchored, line) := stripFront '/' line
          (allows, anchored, line)
      let onlyDirectories := line.getLast? = some '/'
      let line := if onlyDirectories then line.dropLast else line
      let line := if onlyDirectories && line.getLast? = some '\\' then line.dropLast else line
      let line :=
        if !anchored && !line.contains '/' && !startsWithDirectories line then "**/".toList ++ line
        else line
      let line := if "/**".toList.isSuffixOf line then line ++ "/*".toList else line
      let tokens ← Glob.read? (Glob.bytesOf line)
      some { tokens, allows, onlyDirectories }

end IgnorePattern

/-- The patterns of an ignore file, in their order. -/
abbrev IgnoreFile := List IgnorePattern

namespace IgnoreFile

/-- The lines of a text; a carriage return before a line feed is part of the line end. -/
def linesFrom (current : Text) : Text → List Text
  | [] => if current.isEmpty then [] else [current.reverse]
  | '\r' :: '\n' :: rest => current.reverse :: linesFrom [] rest
  | '\n' :: rest => current.reverse :: linesFrom [] rest
  | c :: rest => linesFrom (c :: current) rest

/-- Reads an ignore file; a byte order mark in front is passed over. -/
def ofText (text : Text) : IgnoreFile :=
  let text := match text with
    | c :: rest => if c.toNat = 0xFEFF then rest else text
    | [] => []
  (linesFrom [] text).filterMap IgnorePattern.ofLine?

/-- What the file says about a path, given relative to the directory of the file. -/
def verdict? (file : IgnoreFile) (path : Text) (isDirectory : Bool) : Option Verdict :=
  let bytes := Glob.bytesOf path
  let decides (pattern : IgnorePattern) : Bool :=
    (isDirectory || !pattern.onlyDirectories) && Glob.isMatch pattern.tokens bytes
  (file.reverse.find? decides).map fun pattern =>
    if pattern.allows then .allowed else .ignored

end IgnoreFile

end KeyOrder
