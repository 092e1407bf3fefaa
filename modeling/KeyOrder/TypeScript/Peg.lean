import KeyOrder.TypeScript.Token

/-!
# Parsing expressions

A grammar is data: a parsing expression for each of its symbols. Choice is ordered, so an expression
matches in at most one way, and what it matches is a forest of syntax nodes. Comments in front of a
token come out in front of its leaf, and in front of a node that starts with it.
-/

namespace KeyOrder.TypeScript

/-- What one token can be asked to be. -/
inductive Terminal where
  /-- A mark. -/
  | mark (text : String)
  /-- A word with this spelling. -/
  | word (text : String)
  /-- Any word, reserved or not. -/
  | anyWord
  /-- A word that is not reserved. -/
  | identifier
  | privateName
  | number
  | string
  /-- Exactly these characters, behind white space and comments. -/
  | exact (text : String)
  /-- Exactly these characters, right here. -/
  | adjacent (text : String)
  | regex
  /-- The text of a template up to its end or its next substitution. -/
  | templateText
  /-- The text of an element up to its next tag or braces. -/
  | elementText
  /-- Any token. -/
  | anyToken
  | endOfSource

/-- A parsing expression over the symbols `σ`. -/
inductive Peg (σ : Type) where
  /-- Matches without consuming anything. -/
  | empty
  /-- One token. It becomes a leaf of the given kind, or else of the kind of its text. -/
  | token (terminal : Terminal) (kind : Option NodeKind)
  | symbol (name : σ)
  | seq (first second : Peg σ)
  | choice (first second : Peg σ)
  /-- As often as possible. -/
  | many (item : Peg σ)
  /-- Matches if the item does, and consumes nothing. -/
  | ahead (item : Peg σ)
  /-- Matches if the item does not, and consumes nothing. -/
  | notAhead (item : Peg σ)
  /-- The next token stands on the same line. -/
  | sameLine
  /-- A statement or a member may end here without a mark. -/
  | endWithoutMark
  /-- Puts what the item matches under one node. -/
  | node (kind : NodeKind) (item : Peg σ)
  /-- Puts what the item matches under a node that is a syntax error. -/
  | broken (item : Peg σ)
  /-- Gives a role to what the item matches. -/
  | role (part : NodeRole) (item : Peg σ)

/-- Words that are no identifiers of expressions. -/
def reservedWords : List String :=
  ["break", "case", "catch", "class", "const", "continue", "debugger", "default", "delete", "do",
   "else", "enum", "export", "extends", "finally", "for", "function", "if", "import", "in",
   "instanceof", "new", "return", "super", "switch", "this", "throw", "try", "typeof", "var",
   "void", "while", "with"]

/-- A place together with what stands behind it. -/
structure Cursor where
  place : Place
  lookahead : Lookahead

/-- The cursor at a place. -/
def Cursor.at (place : Place) : Cursor := ⟨place, place.lookahead⟩

/-- Syntax nodes in source order. -/
abbrev Forest := List SyntaxNode

namespace Cursor

/-- The leaf from one place to another with the comments in front of it, and the cursor behind it.
-/
def take (comments : Forest) (kind : NodeKind) (isNamed : Bool) (first last : Place) :
    Forest × Cursor :=
  (comments ++ [leaf kind isNamed first last], Cursor.at last)

/-- Takes the next token if a test holds of it. -/
def takeIf (cursor : Cursor) (kind : Option NodeKind) (test : Bool) : Option (Forest × Cursor) :=
  let next := cursor.lookahead
  if test then
    some (take next.comments (kind.getD (.other next.text)) kind.isSome next.start next.stop)
  else none

/-- Takes a number of characters, which must not be zero, from a place on. -/
def takeLength (comments : Forest) (kind : Option NodeKind) (first : Place) (length : Nat) :
    Option (Forest × Cursor) :=
  if length = 0 then none
  else some (take comments (kind.getD (.other "")) kind.isSome first (first.skip length))

/-- Takes one token. -/
def accept (cursor : Cursor) (terminal : Terminal) (kind : Option NodeKind) :
    Option (Forest × Cursor) :=
  let next := cursor.lookahead
  match terminal with
  | .mark text =>
    if next.tokenClass = .mark && next.text == text then
      some (take next.comments (NodeKind.ofName text) false next.start next.stop)
    else none
  | .word text => cursor.takeIf kind (next.tokenClass = .word && next.text == text)
  | .anyWord => cursor.takeIf kind (next.tokenClass = .word)
  | .identifier =>
    cursor.takeIf kind (next.tokenClass = .word && !reservedWords.contains next.text)
  | .privateName => cursor.takeIf kind (next.tokenClass = .privateName)
  | .number => cursor.takeIf kind (next.tokenClass = .number)
  | .string => cursor.takeIf kind (next.tokenClass = .string)
  | .exact text =>
    if text.toList.isPrefixOf next.start.rest then
      some (take next.comments (NodeKind.ofName text) false next.start
        (next.start.skip text.length))
    else none
  | .adjacent text =>
    if text.toList.isPrefixOf cursor.place.rest then
      takeLength [] kind cursor.place text.length
    else none
  | .regex => do takeLength next.comments kind next.start (← regexLength? next.start.rest)
  | .templateText => takeLength [] kind cursor.place (templateLength cursor.place.rest)
  | .elementText =>
    takeLength [] kind cursor.place
      (cursor.place.rest.takeWhile fun c => c != '<' && c != '\x7b').length
  | .anyToken => cursor.takeIf kind (next.tokenClass ≠ .endOfSource)
  | .endOfSource =>
    if next.tokenClass = .endOfSource then some (next.comments, Cursor.at next.start) else none

end Cursor

/-- Puts nodes under a new node, which spans them; comments in front stay outside. -/
def wrap (kind : NodeKind) (isError : Bool) (forest : Forest) : Forest :=
  let outside := forest.takeWhile SyntaxNode.isComment
  let inside := forest.dropWhile SyntaxNode.isComment
  match inside.head?, inside.getLast? with
  | some first, some last =>
    let span := SyntaxNode.spanning first.span last.span
    outside ++ [.node kind .none span true (isError || inside.any SyntaxNode.hasError) inside]
  | _, _ => forest

/-- Gives a role to a node. -/
def withRole (role : NodeRole) : SyntaxNode → SyntaxNode
  | .node kind _ span isNamed hasError children => .node kind role span isNamed hasError children

/-- Gives a role to the last of some nodes. -/
def assignRole (role : NodeRole) (forest : Forest) : Forest :=
  match forest.reverse with
  | [] => []
  | last :: earlier => (withRole role last :: earlier).reverse

namespace Peg

/-- Matches a parsing expression at a cursor. `fuel` bounds the depth of the search; it fails when
that is used up. -/
def run {σ : Type} (grammar : σ → Peg σ) : Nat → Peg σ → Cursor → Option (Forest × Cursor)
  | 0, _, _ => none
  | fuel + 1, peg, cursor =>
    match peg with
    | .empty => some ([], cursor)
    | .token terminal kind => cursor.accept terminal kind
    | .symbol name => run grammar fuel (grammar name) cursor
    | .seq first second =>
      match run grammar fuel first cursor with
      | none => none
      | some (forest, middle) =>
        match run grammar fuel second middle with
        | none => none
        | some (others, after) => some (forest ++ others, after)
    | .choice first second =>
      match run grammar fuel first cursor with
      | some result => some result
      | none => run grammar fuel second cursor
    | .many item =>
      match run grammar fuel item cursor with
      | none => some ([], cursor)
      | some (forest, middle) =>
        -- An item that consumes nothing would match for ever.
        if middle.place.offset ≤ cursor.place.offset then some ([], cursor)
        else
          match run grammar fuel (.many item) middle with
          | none => some (forest, middle)
          | some (others, after) => some (forest ++ others, after)
    | .ahead item => (run grammar fuel item cursor).map fun _ => ([], cursor)
    | .notAhead item =>
      match run grammar fuel item cursor with
      | some _ => none
      | none => some ([], cursor)
    | .sameLine => if cursor.lookahead.lineBreak then none else some ([], cursor)
    | .endWithoutMark =>
      if endsWithoutMark (cursor.place.rest.length + 1) cursor.place then some ([], cursor)
      else none
    | .node kind item =>
      (run grammar fuel item cursor).map fun (forest, after) => (wrap kind false forest, after)
    | .broken item =>
      (run grammar fuel item cursor).map fun (forest, after) =>
        (wrap (.other "ERROR") true forest, after)
    | .role part item =>
      (run grammar fuel item cursor).map fun (forest, after) => (assignRole part forest, after)

variable {σ : Type}

instance : Append (Peg σ) := ⟨.seq⟩

instance : OrElse (Peg σ) := ⟨fun first second => .choice first (second ())⟩

/-- The item or nothing. -/
def opt (item : Peg σ) : Peg σ := item <|> .empty

/-- The first of several expressions that matches. -/
def oneOf : List (Peg σ) → Peg σ
  | [] => .notAhead .empty
  | [last] => last
  | item :: items => item <|> oneOf items

/-- Expressions one after another. -/
def inOrder : List (Peg σ) → Peg σ
  | [] => .empty
  | [last] => last
  | item :: items => item ++ inOrder items

/-- One item or more with a separator between them. -/
def separated (separator item : Peg σ) : Peg σ := item ++ .many (separator ++ item)

/-- A mark. -/
def m (text : String) : Peg σ := .token (.mark text) none

/-- A word with a given spelling. -/
def w (text : String) : Peg σ := .token (.word text) none

/-- One of several marks. -/
def marks (texts : List String) : Peg σ := oneOf (texts.map m)

/-- One of several words. -/
def words (texts : List String) : Peg σ := oneOf (texts.map w)

end Peg

end KeyOrder.TypeScript
