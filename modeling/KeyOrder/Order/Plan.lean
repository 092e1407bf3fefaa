import KeyOrder.Member
import KeyOrder.Order.Compare

/-!
# Sort plans

A plan says which member goes into which slot. Members are known by their index in source order.
Named members are sorted stably among the slots that named members occupy; a member without a name
keeps its slot. With required members first, this happens separately for the required and for the
optional members, and the optional ones follow.
-/

namespace KeyOrder

/-- The slot of a member before and after sorting. -/
structure Position where
  initial : Nat
  final : Nat
deriving DecidableEq, Repr

/-- Members of a list in sorted order, by their index in source order. -/
structure Plan where
  sorted : List Nat
deriving DecidableEq, Repr

namespace Plan

/-- Number of planned members. -/
def size (plan : Plan) : Nat := plan.sorted.length

/-- Whether sorting leaves every member in place. -/
def isIdentity (plan : Plan) : Bool :=
  plan.sorted == List.range plan.sorted.length

/-- Enters the slot of a member into a table of slots. -/
def enterSlot (table : List Position) (entry : Nat × Nat) : List Position :=
  table.modify entry.1 fun position => { position with final := entry.2 }

/-- The slots of every member, in source order. At first every member is in its own slot; then the
slots of the sorted order are entered one after another. -/
def positions (plan : Plan) : List Position :=
  plan.sorted.zipIdx.foldl enterSlot
    ((List.range plan.sorted.length).map fun index => ⟨index, index⟩)

/-- The member in the slot after `final`, if there is one. -/
def nextSorted (plan : Plan) (final : Nat) : Option Nat := plan.sorted[final + 1]?

/-- Puts `values` one after another into the slots whose member passes the test; the other slots
keep their member. -/
def fillSlots (test : Nat → Bool) : List Nat → List Nat → List Nat
  | [], _ => []
  | index :: slots, values =>
    if test index then
      match values with
      | [] => index :: fillSlots test slots []
      | value :: rest => value :: fillSlots test slots rest
    else
      index :: fillSlots test slots values

/-- The sorting name of the member at an index. -/
def nameAt (members : List Member) (index : Nat) : Option String :=
  members[index]?.bind Member.name

/-- Whether the member at an index has a sorting name. -/
def namedAt (members : List Member) (index : Nat) : Bool :=
  (nameAt members index).isSome

/-- Whether the member at an index is optional. -/
def optionalAt (members : List Member) (index : Nat) : Bool :=
  members[index]?.any Member.optional

/-- Sorts the named members among the slots of one partition. -/
def sortPartition (compareNames : String → String → Ordering) (members : List Member)
    (slots : List Nat) : List Nat :=
  let named := slots.filter (namedAt members)
  let sorted := named.mergeSort fun a b =>
    compareOptional compareNames (nameAt members a) (nameAt members b) != .gt
  fillSlots (namedAt members) slots sorted

/-- The plan of a member list under an order of names. -/
def ofMembers (compareNames : String → String → Ordering) (requiredFirst : Bool)
    (members : List Member) : Plan :=
  let all := List.range members.length
  if requiredFirst then
    ⟨sortPartition compareNames members (all.filter fun index => !optionalAt members index) ++
      sortPartition compareNames members (all.filter (optionalAt members))⟩
  else
    ⟨sortPartition compareNames members all⟩

end Plan

/-- The plan of a member list under sort options. -/
def SortOptions.plan (options : SortOptions) (members : List Member) : Plan :=
  Plan.ofMembers options.compareNames options.requiredFirst members

end KeyOrder
