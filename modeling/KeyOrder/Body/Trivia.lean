import KeyOrder.Member
import KeyOrder.Text.Blank

/-!
# Comments and white space of a body

Every comment between the braces belongs to a member, before or behind it, or to the end of the
body. A comment between a declaration and its separator trails that member. A comment after the
separator leads the next member if it starts on that member's row, if it starts on a row below the
separator, or if it stands right behind the opening brace; otherwise it trails the member before
it. After the last member, comments trail it as long as they start before its separator or on its
last row; from the first one that does not, they belong to the end.
-/

namespace KeyOrder

/-- The comments of one member. -/
structure MemberComments where
  /-- Comments in front of the declaration. -/
  leading : List Comment
  /-- Comments behind the declaration, also those before its separator. -/
  trailing : List Comment
deriving DecidableEq, Repr

/-- The comments of one member and the white space in front of its slot. -/
structure MemberTrivia extends MemberComments where
  /-- Where the white space in front of the slot starts. -/
  indentStart : Nat
  /-- Where it ends: at the first leading comment, or at the declaration. -/
  indentStop : Nat
deriving DecidableEq, Repr

/-- Trailing comments of one kind. -/
def MemberComments.trailingOf (comments : MemberComments) (kind : CommentKind) : List Comment :=
  comments.trailing.filter (·.kind = kind)

/-- The comments and white space of a body. -/
structure BodyTrivia where
  /-- For every member, in source order. -/
  members : List MemberTrivia
  /-- Comments that belong to the end of the body. -/
  endComments : List Comment
  /-- Where the text begins that stays at the end of the body. -/
  tailStart : Nat
deriving DecidableEq, Repr

namespace BodyTrivia

/-- White space in front of a slot. -/
def indentation (trivia : BodyTrivia) (source : Text) (slot : Nat) : Text :=
  match trivia.members[slot]? with
  | some member => source.slice member.indentStart member.indentStop
  | none => []

/-- The text that stays at the end of the body: the end comments, and the white space before the
closing brace. -/
def tail (trivia : BodyTrivia) (source : Text) (list : MemberList) : Text :=
  source.slice trivia.tailStart list.bodyStop

end BodyTrivia

namespace MemberComments

/-- Whether a comment in front of `member` leads it, given the member before it. -/
def leads (previous : Option Member) (member : Member) (comment : Comment) : Bool :=
  match previous with
  | none => true
  | some previous =>
    previous.lastToken.stop ≤ comment.span.start &&
      (comment.span.startRow == member.declaration.startRow ||
        previous.lastToken.endRow < comment.span.startRow)

/-- Whether a comment starts before the declaration of a member. -/
def startsBefore (member : Member) (comment : Comment) : Bool :=
  comment.span.start < member.declaration.start

/-- Whether a comment behind the last member, which no end comment precedes, trails it. -/
def trailsLast (member : Member) (comment : Comment) : Bool :=
  member.terminator.any (comment.span.start < ·.start) ||
    comment.span.startRow == member.lastToken.endRow

/-- Shares the comments out among the members; the second part is left for the end of the body. -/
def attach (previous : Option Member) : List Member → List Comment →
    List MemberComments × List Comment
  | [], comments => ([], comments)
  | [member], comments =>
    let leading := (comments.takeWhile (startsBefore member)).filter (leads previous member)
    let behind := comments.dropWhile (startsBefore member)
    ([⟨leading, behind.takeWhile (trailsLast member)⟩], behind.dropWhile (trailsLast member))
  | member :: next :: members, comments =>
    let leading := (comments.takeWhile (startsBefore member)).filter (leads previous member)
    let behind := comments.dropWhile (startsBefore member)
    let trailing := (behind.takeWhile (startsBefore next)).filter
      fun comment => !leads (some member) next comment
    let (others, rest) := attach (some member) (next :: members) behind
    (⟨leading, trailing⟩ :: others, rest)

end MemberComments

/-- The white space in front of a member's slot, beside its comments. -/
def MemberComments.withIndentation (source : Text) (member : Member) (comments : MemberComments) :
    MemberTrivia :=
  let earliest := match comments.leading with
    | [] => member.declaration.start
    | comment :: _ => comment.span.start
  { comments with indentStart := source.blankStart earliest, indentStop := earliest }

namespace MemberList

/-- Where the text begins that stays at the end of the body: behind the last member, its separator
and its trailing comments. -/
def tailStart (list : MemberList) (comments : List MemberComments) : Nat :=
  match list.members.getLast? with
  | none => list.bodyStart
  | some last =>
    let trailing := (comments.getLast?.map MemberComments.trailing).getD []
    max last.lastToken.stop ((trailing.getLast?.map (·.span.stop)).getD 0)

/-- The comments and white space of a member list. -/
def trivia (list : MemberList) (source : Text) : BodyTrivia :=
  let (comments, endComments) := MemberComments.attach none list.members list.comments
  { members := List.zipWith (MemberComments.withIndentation source) list.members comments
    endComments
    tailStart := list.tailStart comments }

end MemberList

end KeyOrder
