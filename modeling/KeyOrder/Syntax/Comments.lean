import KeyOrder.Member
import KeyOrder.Syntax.Node
import KeyOrder.Text.Partition

/-!
# Comments of a syntax tree

All comments in source order, and of those the ones inside a body that are part of no declaration.
-/

namespace KeyOrder

namespace SyntaxNode

mutual

/-- The comments of a node, in source order. -/
def comments (source : Text) : SyntaxNode → List Comment
  | .node kind _ span _ _ children =>
    if kind = .comment then [⟨CommentKind.ofText (span.text source), span⟩]
    else commentsOfAll source children

/-- The comments of nodes, one node after another. -/
def commentsOfAll (source : Text) : List SyntaxNode → List Comment
  | [] => []
  | child :: rest => comments source child ++ commentsOfAll source rest

end

end SyntaxNode

/-- Leaves out the comments that lie in a declaration. Both lists are walked once, in step: a
declaration that ends before a comment is not looked at again. -/
def skipDeclared : List Comment → List Span → List Comment
  | [], _ => []
  | comment :: rest, declarations =>
    let pending := declarations.dropWhile (·.stop ≤ comment.span.start)
    if pending.head?.any (·.contains comment.span) then skipDeclared rest pending
    else comment :: skipDeclared rest pending

/-- Comments inside `body` that lie in none of the declarations. Comments and declarations are
sorted by where they start. -/
def freeComments (comments : List Comment) (body : Span) (declarations : List Span) :
    List Comment :=
  let first :=
    partitionPoint (fun comment : Comment => comment.span.start < body.start) comments.toArray
  skipDeclared ((comments.drop first).takeWhile (·.span.stop ≤ body.stop)) declarations

end KeyOrder
