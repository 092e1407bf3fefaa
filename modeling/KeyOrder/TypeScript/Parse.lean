import KeyOrder.TypeScript.Grammar

/-!
# Parsing TypeScript

From a source text to its syntax tree. Every text has one: what is not TypeScript is under nodes
marked as syntax errors.
-/

namespace KeyOrder.TypeScript

/-- The place behind a first line that names an interpreter. -/
def skipInterpreterLine (source : Text) : Place :=
  let place := Place.start source
  match source with
  | '#' :: '!' :: _ => place.skip (source.takeWhile (· != '\n')).length
  | _ => place

/-- Bound on the depth of the search through the grammar: more than is needed for each character of
the source. -/
def searchDepth (source : Text) : Nat := 200 * (source.length + 20)

/-- The syntax tree of a source. -/
def parse (dialect : Dialect) (source : Text) : SyntaxNode :=
  let start := skipInterpreterLine source
  let whole : Span := (Place.start source).spanTo ((Place.start source).skip source.length)
  match (Peg.symbol Symbol.source).run (grammar dialect) (searchDepth source) (Cursor.at start) with
  | some (forest, _) =>
    .node (.other "program") .none whole true (forest.any SyntaxNode.hasError) forest
  | none => .node (.other "program") .none whole true true []

end KeyOrder.TypeScript
