import KeyOrder.Span

/-!
# Syntax trees

A concrete syntax tree: every token, comments included, is a leaf with its place in the source. Of
the kinds of nodes only those are told apart that decide where member lists are and what their
members are called.
-/

namespace KeyOrder

/-- What a node is. -/
inductive NodeKind where
  | interfaceBody
  | objectType
  | enumBody
  /-- A brace that opens a body, also the one with a bar. -/
  | opening
  /-- A brace that closes a body, also the one with a bar. -/
  | closing
  /-- A comma or a semicolon. -/
  | separator
  | comment
  | propertySignature
  | methodSignature
  | indexSignature
  | callSignature
  | constructSignature
  | enumAssignment
  | mappedTypeClause
  | questionMark
  | identifier
  | propertyIdentifier
  | privatePropertyIdentifier
  | string
  | number
  | computedPropertyName
  | templateString
  | templateSubstitution
  /-- Any other kind, by its name in the grammar. -/
  | other (name : String)
deriving DecidableEq, Repr

/-- The kind with a given name in the grammar. -/
def NodeKind.ofName : String → NodeKind
  | "interface_body" => .interfaceBody
  | "object_type" => .objectType
  | "enum_body" => .enumBody
  | "\x7b" | "\x7b|" => .opening
  | "\x7d" | "|\x7d" => .closing
  | "," | ";" => .separator
  | "comment" => .comment
  | "property_signature" => .propertySignature
  | "method_signature" => .methodSignature
  | "index_signature" => .indexSignature
  | "call_signature" => .callSignature
  | "construct_signature" => .constructSignature
  | "enum_assignment" => .enumAssignment
  | "mapped_type_clause" => .mappedTypeClause
  | "?" => .questionMark
  | "identifier" => .identifier
  | "property_identifier" => .propertyIdentifier
  | "private_property_identifier" => .privatePropertyIdentifier
  | "string" => .string
  | "number" => .number
  | "computed_property_name" => .computedPropertyName
  | "template_string" => .templateString
  | "template_substitution" => .templateSubstitution
  | name => .other name

/-- The part that a node plays in its parent. -/
inductive NodeRole where
  | name
  | value
  /-- No part that matters here. -/
  | none
deriving DecidableEq, Repr

/-- The role with a given name in the grammar. -/
def NodeRole.ofName : String → NodeRole
  | "name" => .name
  | "value" => .value
  | _ => .none

/-- A node of a syntax tree. -/
inductive SyntaxNode where
  | node (kind : NodeKind) (role : NodeRole) (span : Span) (isNamed hasError : Bool)
      (children : List SyntaxNode)
deriving Repr

namespace SyntaxNode

/-- What the node is. -/
def kind : SyntaxNode → NodeKind
  | .node kind _ _ _ _ _ => kind

/-- The part that the node plays in its parent. -/
def role : SyntaxNode → NodeRole
  | .node _ role _ _ _ _ => role

/-- The place of the node. -/
def span : SyntaxNode → Span
  | .node _ _ span _ _ _ => span

/-- Whether the node is more than a mark or a keyword. -/
def isNamed : SyntaxNode → Bool
  | .node _ _ _ isNamed _ _ => isNamed

/-- Whether the node or one below it is a syntax error. -/
def hasError : SyntaxNode → Bool
  | .node _ _ _ _ hasError _ => hasError

/-- The nodes directly below the node, in source order. -/
def children : SyntaxNode → List SyntaxNode
  | .node _ _ _ _ _ children => children

/-- Whether the node covers no bytes. -/
def isEmpty (node : SyntaxNode) : Bool := node.span.start = node.span.stop

/-- Whether the node is a comment. -/
def isComment (node : SyntaxNode) : Bool := node.kind = .comment

/-- The first child with a role. -/
def childByRole? (node : SyntaxNode) (role : NodeRole) : Option SyntaxNode :=
  node.children.find? (·.role = role)

/-- The first child of a kind. -/
def childByKind? (node : SyntaxNode) (kind : NodeKind) : Option SyntaxNode :=
  node.children.find? (·.kind = kind)

/-- The source text of the node. -/
def text (node : SyntaxNode) (source : Text) : Text := node.span.text source

/-- The span from the start of one span to the end of another. -/
def spanning (first last : Span) : Span := ⟨first.start, last.stop, first.startRow, last.endRow⟩

mutual

/-- The span from the first to the last token of a node, comments at its ends left out. -/
def coreSpan : SyntaxNode → Span
  | .node _ _ span _ _ children =>
    match coreSpans children with
    | [] => span
    | first :: rest => spanning first (rest.getLast?.getD first)

/-- The core spans of those nodes that are no comments. -/
def coreSpans : List SyntaxNode → List Span
  | [] => []
  | child :: rest => if child.isComment then coreSpans rest else coreSpan child :: coreSpans rest

end

end SyntaxNode

end KeyOrder
