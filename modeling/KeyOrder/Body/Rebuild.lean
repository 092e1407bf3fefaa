import KeyOrder.Body.Trivia

/-!
# Rebuilding a body

The text between the braces with its members in another order. **Each slot keeps the white space
in front of it, each member carries its own comments**, and every member but the last gets the
separator of the list's kind; the last one gets it if the last member of the source had one. A
member's block comments come before its separator and its line comments after it.
-/

namespace KeyOrder

/-- Line end of a text: a carriage return and a line feed if the text has them side by side
anywhere, else a line feed. -/
def Text.lineEnd (text : Text) : Text :=
  if Text.occursIn ['\r', '\n'] text then ['\r', '\n'] else ['\n']

namespace Body

/-- A comment with the white space in front of it. -/
def spacedComment (source : Text) (comment : Comment) : Text :=
  source.blankBefore comment.span.start ++ comment.span.text source

/-- Line comments one after another. A line end is added behind each one unless the text that
follows it, white space or `following` behind the last one, has a line feed. -/
def lineComments (source lineEnd following : Text) : List Comment → Text
  | [] => []
  | [comment] =>
    spacedComment source comment ++ (if following.contains '\n' then [] else lineEnd)
  | comment :: next :: rest =>
    spacedComment source comment ++
      (if (source.blankBefore next.span.start).contains '\n' then [] else lineEnd) ++
      lineComments source lineEnd following (next :: rest)

/-- The leading comments of a member with the white space behind each. -/
def leadingText (source : Text) (member : Member) (comments : MemberComments) : Text :=
  match comments.leading with
  | [] => []
  | first :: _ => source.slice first.span.start member.declaration.start

/-- A member with its comments, as it is written into a slot in front of `following`. -/
def memberText (source lineEnd : Text) (separator following : Text) (member : Member)
    (comments : MemberComments) : Text :=
  leadingText source member comments ++ member.declaration.text source ++
    (comments.trailingOf .block).flatMap (spacedComment source) ++ separator ++
    lineComments source lineEnd following (comments.trailingOf .line)

end Body

namespace MemberList

/-- What is written into one slot. `rest` holds the members of the slots behind it. -/
def slotText (list : MemberList) (source : Text) (trivia : BodyTrivia) (slot index : Nat)
    (rest : List Nat) : Text :=
  let last := rest.isEmpty
  let separator := if !last || list.endsWithTerminator then [list.kind.separator] else []
  let following := if last then trivia.tail source list else trivia.indentation source (slot + 1)
  match list.members[index]?, trivia.members[index]? with
  | some member, some comments =>
    trivia.indentation source slot ++
      Body.memberText source (list.body source).lineEnd separator following member
        comments.toMemberComments
  | _, _ => trivia.indentation source slot

/-- What is written into the slots from `slot` on. -/
def slotTexts (list : MemberList) (source : Text) (trivia : BodyTrivia) (slot : Nat) :
    List Nat → Text
  | [] => []
  | index :: rest =>
    list.slotText source trivia slot index rest ++ list.slotTexts source trivia (slot + 1) rest

/-- The text between the braces with the members, given by their index in source order, in the
order `order`. -/
def rebuildBody (list : MemberList) (source : Text) (trivia : BodyTrivia) (order : List Nat) :
    Text :=
  list.slotTexts source trivia 0 order ++ trivia.tail source list

end MemberList

end KeyOrder
