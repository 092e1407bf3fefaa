import KeyOrder.Body.Rebuild
import KeyOrder.Order.Violation

/-!
# Evaluation of a member list

Everything that is known about one member list under given options: its plan, the members to report
and, if there is one, the text that puts the body in order.
-/

namespace KeyOrder

/-- Why a member list cannot be evaluated. -/
inductive EvaluationError where
  /-- A brace, a member or a comment at `start` to `stop` does not fit a source of this length. -/
  | rangeOutsideSource (start stop length : Nat)
  /-- A remembered evaluation is for another number of members. -/
  | staleEntry (found expected : Nat)
deriving DecidableEq, Repr

/-- The wording of an evaluation error. -/
def EvaluationError.message : EvaluationError → String
  | .rangeOutsideSource start stop length =>
    s!"member list range {start}..{stop} lies outside the source (length {length})"
  | .staleEntry found expected =>
    s!"cached evaluation holds {found} members, list has {expected}"

/-- What is known about one member list. -/
structure Evaluation where
  plan : Plan
  selection : Selection
  violations : List Violation
  /-- The body in order, if a member is reported. -/
  replacement : Option Text
deriving DecidableEq, Repr

namespace MemberList

/-- The first member outside the body, or else the first such comment. -/
def outside? (list : MemberList) : Option Span :=
  let member? := list.members.findSome? fun member =>
    if member.declaration.start < list.bodyStart || list.bodyStop < member.lastToken.stop then
      some { member.declaration with stop := member.lastToken.stop }
    else none
  let body : Span := ⟨list.bodyStart, list.bodyStop, 0, 0⟩
  member? <|> list.comments.findSome? fun comment =>
    if body.contains comment.span then none else some comment.span

/-- Checks that the braces lie in the source in order, and every member and comment between them. -/
def checkRanges (list : MemberList) (source : Text) : Except EvaluationError Unit :=
  let length := source.byteLength
  if list.closing.start < list.opening.stop || length < list.closing.stop then
    .error (.rangeOutsideSource list.opening.start list.closing.stop length)
  else
    match list.outside? with
    | some span => .error (.rangeOutsideSource span.start span.stop length)
    | none => .ok ()

end MemberList

namespace SortOptions

/-- The evaluation of a member list whose ranges fit the source. -/
def computeEvaluation (options : SortOptions) (source : Text) (list : MemberList) : Evaluation :=
  let plan := options.plan list.members
  let selection := plan.select list.members
  { plan
    selection
    violations := plan.violations list.members source
    replacement :=
      if selection.count = 0 then none
      else some (list.rebuildBody source (list.trivia source) plan.sorted) }

/-- Evaluates a member list of a source. -/
def evaluate (options : SortOptions) (source : Text) (list : MemberList) :
    Except EvaluationError Evaluation := do
  list.checkRanges source
  return options.computeEvaluation source list

end SortOptions

end KeyOrder
