import KeyOrder.Syntax.Comments
import KeyOrder.Syntax.NumericKey

/-!
# Member lists of a syntax tree

Interface bodies, object types and enum bodies become member lists, an outer list before the lists
inside it. A body with a syntax error in it, a body without braces and the body of a mapped type are
left out; the bodies below them are not.
-/

namespace KeyOrder

/-- The text without its first and its last byte; empty where that would cut a character. -/
def Text.unquote (text : Text) : Text :=
  (text.slice? 1 (text.byteLength - 1)).getD []

namespace SyntaxNode

/-- The name of a key inside brackets that is a literal. -/
def literalKey? (source : Text) (key : SyntaxNode) : Option String :=
  match key.kind with
  | .string => some (String.ofList (key.text source).unquote)
  | .number => some (NumericKey.ofText (key.text source))
  | .templateString =>
    if (key.childByKind? .templateSubstitution).isSome then none
    else some (String.ofList (key.text source).unquote)
  | _ => none

/-- The name that a key gives to a property, if it is known without running the program. -/
def propertyName? (source : Text) (key : SyntaxNode) : Option String :=
  match key.kind with
  | .identifier | .propertyIdentifier | .privatePropertyIdentifier =>
    some (String.ofList (key.text source))
  | .string => some (String.ofList (key.text source).unquote)
  | .number => some (NumericKey.ofText (key.text source))
  | .computedPropertyName =>
    match key.children.filter fun child => child.isNamed && !child.isComment with
    | [inner] => inner.literalKey? source
    | _ => none
  | _ => none

/-- The kind and the name of a member of an interface or an object type. -/
def typeMemberKey (source : Text) (node : SyntaxNode) : MemberKind × Option String :=
  let named := (node.childByRole? .name).bind (propertyName? source)
  match node.kind with
  | .propertySignature => (.property, named)
  | .methodSignature => (.method, named)
  | .indexSignature =>
    let parameter? := node.childByRole? .name <|> node.childByKind? .identifier
    (.indexSignature, parameter?.map fun parameter => indexSignatureName (parameter.text source))
  | .callSignature => (.callSignature, none)
  | .constructSignature => (.constructSignature, none)
  | _ => (.other, none)

/-- A member of an interface or an object type. -/
def typeMember (source : Text) (node : SyntaxNode) : Member :=
  let (kind, name) := typeMemberKey source node
  { kind, name
    optional := (node.childByKind? .questionMark).isSome
    declaration := node.coreSpan
    terminator := none }

/-- A member of an enum. -/
def enumMember (source : Text) (node : SyntaxNode) : Member :=
  let name := if node.kind = .enumAssignment then
      (node.childByRole? .name).bind (propertyName? source)
    else
      propertyName? source node
  { kind := .enumMember, name, optional := false, declaration := node.coreSpan, terminator := none }

/-- The member of a list of a kind that a node is read as. -/
def memberOf (source : Text) (kind : ListKind) (node : SyntaxNode) : Member :=
  if kind = .enumeration then enumMember source node else typeMember source node

/-- Whether a node is the content of a mapped type. -/
def isMappedType (node : SyntaxNode) : Bool :=
  node.kind = .indexSignature && (node.childByKind? .mappedTypeClause).isSome

/-- Whether a node is an enum member with a string literal as its value. -/
def isStringValued (node : SyntaxNode) : Bool :=
  node.kind = .enumAssignment && (node.childByRole? .value).any (·.kind = .string)

/-- The kind of list that a node is the body of. -/
def listKind? (node : SyntaxNode) : Option ListKind :=
  match node.kind with
  | .interfaceBody => some .interface
  | .objectType => some .typeLiteral
  | .enumBody => some .enumeration
  | _ => none

/-- Gives a separator to the last of the members read so far, which are in reverse order, unless it
has one. -/
def terminateLast (terminator : Span) : List Member → List Member
  | [] => []
  | last :: earlier =>
    if last.terminator.isSome then last :: earlier
    else { last with terminator := some terminator } :: earlier

/-- Reads members and separators on top of the members read so far, which are in reverse order. -/
def readMembers (source : Text) (kind : ListKind) (read : List Member) :
    List SyntaxNode → List Member
  | [] => read.reverse
  | child :: rest =>
    match child.kind with
    | .comment => readMembers source kind read rest
    | .separator =>
      readMembers source kind (if child.isEmpty then read else terminateLast child.span read) rest
    | _ => readMembers source kind (child.memberOf source kind :: read) rest

/-- The member list of a body, given all comments of the source and the span of the node around
it. -/
def memberList? (source : Text) (comments : List Comment) (parent : Option Span) (kind : ListKind)
    (body : SyntaxNode) : Option MemberList := do
  let opening ← body.childByKind? .opening
  let closing ← body.children.reverse.find? (·.kind = .closing)
  let inside := body.children.filter fun child =>
    opening.span.stop ≤ child.span.start && child.span.stop ≤ closing.span.start
  let entries := inside.filter fun child => !child.isComment && child.kind ≠ .separator
  if kind ≠ .enumeration && entries.any isMappedType then none
  else
    let members := readMembers source kind [] inside
    let inner : Span := ⟨opening.span.stop, closing.span.start, 0, 0⟩
    some {
      kind
      opening := opening.span
      closing := closing.span
      parent := if kind = .typeLiteral then body.span else parent.getD body.span
      members
      comments := freeComments comments inner (members.map Member.declaration)
      stringValued := kind = .enumeration && !entries.isEmpty && entries.all isStringValued }

mutual

/-- The member lists of a node, given the span of its parent. -/
def listsBelow (source : Text) (comments : List Comment) (parent : Option Span) :
    SyntaxNode → List MemberList
  | .node kind role span isNamed hasError children =>
    let node := SyntaxNode.node kind role span isNamed hasError children
    let own := match node.listKind? with
      | some listKind => if hasError then none else node.memberList? source comments parent listKind
      | none => none
    own.toList ++ listsBelowAll source comments (some span) children

/-- The member lists of nodes with a common parent. -/
def listsBelowAll (source : Text) (comments : List Comment) (parent : Option Span) :
    List SyntaxNode → List MemberList
  | [] => []
  | child :: rest =>
    listsBelow source comments parent child ++ listsBelowAll source comments parent rest

end

/-- The member lists of a syntax tree, outer lists first. -/
def memberLists (root : SyntaxNode) (source : Text) : List MemberList :=
  listsBelow source (root.comments source) none root

end SyntaxNode

end KeyOrder
