import KeyOrder.Span

/-!
# Members and member lists

A member list is the content of one interface body, object type or enum body as plain data: its
braces, its members and the comments between them. Sorting sees only this data and the source text.
-/

namespace KeyOrder

/-- How a comment is written. -/
inductive CommentKind where
  /-- From two slashes to the end of the line. -/
  | line
  /-- Between an opening and a closing mark. -/
  | block
deriving DecidableEq, Repr

/-- A comment whose text starts with two slashes is a line comment. -/
def CommentKind.ofText (text : Text) : CommentKind :=
  match text with
  | '/' :: '/' :: _ => .line
  | _ => .block

/-- A comment and its place. -/
structure Comment where
  kind : CommentKind
  span : Span
deriving DecidableEq, Repr

/-- What a member is, by its syntax. -/
inductive MemberKind where
  | property
  | method
  | indexSignature
  | callSignature
  | constructSignature
  | enumMember
  | other
deriving DecidableEq, Repr

/-- What a member list belongs to. -/
inductive ListKind where
  | interface
  | typeLiteral
  | enumeration
deriving DecidableEq, Repr

/-- The separator written after a member: a semicolon, and in enums a comma. -/
def ListKind.separator : ListKind → Char
  | .interface | .typeLiteral => ';'
  | .enumeration => ','

/-- One entry of a member list. -/
structure Member where
  kind : MemberKind
  /-- The name it is sorted by; members without one keep their slot. -/
  name : Option String
  /-- Declared with a question mark. -/
  optional : Bool
  /-- The declaration without its separator. -/
  declaration : Span
  /-- The separator after the declaration, if it is written. -/
  terminator : Option Span
deriving DecidableEq, Repr

namespace Member

/-- Whether the member has a name to sort by. -/
def isNamed (member : Member) : Bool :=
  member.name.isSome

/-- The name used in messages: the sorting name, or else the declaration's text. -/
def displayName (member : Member) (source : Text) : String :=
  member.name.getD (String.ofList (member.declaration.text source))

/-- The separator, or the declaration where no separator is written. -/
def lastToken (member : Member) : Span :=
  member.terminator.getD member.declaration

end Member

/-- The name that stands for an index signature with the given parameter. -/
def indexSignatureName (parameter : Text) : String :=
  String.ofList ("[index: ".toList ++ parameter ++ [']'])

/-- The members between two braces. -/
structure MemberList where
  kind : ListKind
  /-- The opening brace. -/
  opening : Span
  /-- The closing brace. -/
  closing : Span
  /-- What a report about the whole list points at. -/
  parent : Span
  /-- Members in source order. -/
  members : List Member
  /-- Comments between the braces that are part of no declaration, in source order. -/
  comments : List Comment
  /-- Every member is an enum member with a string literal as its value. -/
  stringValued : Bool
deriving DecidableEq, Repr

namespace MemberList

/-- First byte after the opening brace. -/
def bodyStart (list : MemberList) : Nat := list.opening.stop

/-- First byte of the closing brace. -/
def bodyStop (list : MemberList) : Nat := list.closing.start

/-- The text between the braces. -/
def body (list : MemberList) (source : Text) : Text :=
  source.slice list.bodyStart list.bodyStop

/-- Number of members. -/
def size (list : MemberList) : Nat := list.members.length

/-- Whether the last member has a separator after it. -/
def endsWithTerminator (list : MemberList) : Bool :=
  list.members.getLast?.any fun member => member.terminator.isSome

end MemberList

end KeyOrder
