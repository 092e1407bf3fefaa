import KeyOrder.Order.Natural
import KeyOrder.Order.Options
import KeyOrder.Text.LowerCase

/-!
# Comparison of names

Names are compared after folding case, if the options ask for it. Names that stand for index
signatures are pinned in front of all others in ascending order, and hence behind them in descending
order, which is ascending order with the two names exchanged.
-/

namespace KeyOrder

/-- Whether a name stands for an index signature: it starts with `[index: ` and on the same line,
after at least one more character, a closing bracket follows. -/
def standsForIndex (name : Text) : Bool :=
  let opening := "[index: ".toList
  opening.isPrefixOf name &&
    (((name.drop opening.length).takeWhile (· != '\n')).drop 1).contains ']'

/-- Weight of a name; a heavier name comes first in ascending order. -/
def nameWeight (name : Text) : Nat :=
  if standsForIndex name then 100 else 0

/-- Order of two names by weight, then naturally or by code point. -/
def compareWeighted (natural : Bool) (a b : Text) : Ordering :=
  (compare (nameWeight b) (nameWeight a)).then
    (if natural then naturalCompare a b else compareChars a b)

/-- Order of two names under sort options, with a given way of folding case. -/
def compareNamesFolding (fold : Text → Text) (options : SortOptions) (a b : Text) : Ordering :=
  let (a, b) := match options.direction with
    | .ascending => (a, b)
    | .descending => (b, a)
  if options.caseSensitive then compareWeighted options.natural a b
  else compareWeighted options.natural (fold a) (fold b)

/-- Order of two names of which either may be missing: a missing name is equal to every name. -/
def compareOptional (compareNames : String → String → Ordering) :
    Option String → Option String → Ordering
  | some a, some b => compareNames a b
  | _, _ => .eq

namespace SortOptions

/-- Order of two names under sort options. -/
def compareNames (options : SortOptions) (a b : String) : Ordering :=
  compareNamesFolding Text.toLower options a.toList b.toList

/-- Order of two names under sort options, where either may be missing. -/
def compare (options : SortOptions) (a b : Option String) : Ordering :=
  compareOptional options.compareNames a b

end SortOptions

end KeyOrder
