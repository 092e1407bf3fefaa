import KeyOrder.Order.Plan

/-!
# Violations

Which members of an unsorted list are reported. A member that moves is passed over while it still
stands before the member that follows it after sorting, so that one misplaced member does not drag
its neighbours into the report; a member that moves into the last slot has no successor and is
always reported. Members without a name are never reported.
-/

namespace KeyOrder

/-- Where a reported member belongs. -/
inductive Placement where
  /-- Before the member with this display name. -/
  | before (name : String)
  /-- In the last slot. -/
  | atEnd
deriving DecidableEq, Repr

/-- A placement as it reads in a message. -/
def Placement.render : Placement → String
  | .before name => "before '" ++ name ++ "'"
  | .atEnd => "at the end"

/-- A member that is reported. -/
structure Violation where
  /-- Index in source order. -/
  index : Nat
  /-- Display name. -/
  name : String
  placement : Placement
deriving DecidableEq, Repr

/-- For every member, in source order, whether it is reported. -/
structure Selection where
  flagged : List Bool
deriving DecidableEq, Repr

/-- Number of reported members. -/
def Selection.count (selection : Selection) : Nat := selection.flagged.count true

namespace Plan

/-- Whether the member at a position is reported. -/
def reports (plan : Plan) (members : List Member) (position : Position) : Bool :=
  if position.initial == position.final || !namedAt members position.initial then false
  else
    match plan.nextSorted position.final with
    | none => true
    | some next => next < position.initial

/-- The members to report. -/
def select (plan : Plan) (members : List Member) : Selection :=
  ⟨plan.positions.map (plan.reports members)⟩

/-- Where sorting puts the member at a position. -/
def placement (plan : Plan) (members : List Member) (source : Text) (position : Position) :
    Placement :=
  match (plan.nextSorted position.final).bind (members[·]?) with
  | some next => .before (next.displayName source)
  | none => .atEnd

/-- What is said about each reported member, in source order. -/
def violations (plan : Plan) (members : List Member) (source : Text) : List Violation :=
  (members.zip plan.positions).filterMap fun (member, position) =>
    if plan.reports members position then
      some ⟨position.initial, member.displayName source, plan.placement members source position⟩
    else
      none

end Plan

end KeyOrder
