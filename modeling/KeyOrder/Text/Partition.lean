/-!
# The point where a sequence changes

In a sequence in which everything that passes a test stands in front of everything that fails it,
the number of elements that pass is found by halving.
-/

namespace KeyOrder

/-- Narrows the stretch of `size` elements from `base` on to one element. -/
def partitionBase {α : Type} (test : α → Bool) (items : Array α) (base size : Nat) : Nat :=
  if 1 < size then
    let half := size / 2
    let middle := base + half
    if items[middle]?.any test then partitionBase test items middle (size - half)
    else partitionBase test items base (size - half)
  else
    base
termination_by size
decreasing_by all_goals omega

/-- Number of elements in front of the first one that fails the test, if all that pass stand in
front. -/
def partitionPoint {α : Type} (test : α → Bool) (items : Array α) : Nat :=
  if items.size = 0 then 0
  else
    let base := partitionBase test items 0 items.size
    if items[base]?.any test then base + 1 else base

end KeyOrder
