/-!
# Sort options

The four choices that decide in which order members stand. By default names are compared in
ascending order, case counts, digits are characters like others, and optional members stand among
required ones.
-/

namespace KeyOrder

/-- Sort direction. -/
inductive Direction where
  | ascending
  | descending
deriving DecidableEq, Repr

/-- The keyword of a direction in settings and on the command line. -/
def Direction.keyword : Direction → String
  | .ascending => "asc"
  | .descending => "desc"

/-- The direction with a given keyword. -/
def Direction.ofKeyword? : String → Option Direction
  | "asc" => some .ascending
  | "desc" => some .descending
  | _ => none

/-- How the members of a list are put in order. -/
structure SortOptions where
  direction : Direction := .ascending
  /-- Whether upper and lower case are told apart. -/
  caseSensitive : Bool := true
  /-- Whether runs of digits are compared by their value. -/
  natural : Bool := false
  /-- Whether members without a question mark come first. -/
  requiredFirst : Bool := false
deriving DecidableEq, Repr

namespace SortOptions

instance : Inhabited SortOptions := ⟨{}⟩

/-- The options that differ from plain sorting, as they stand before the word "order" in a message:
separated by commas and followed by a space, or nothing at all. -/
def modifiersLabel (options : SortOptions) : String :=
  let labels :=
    (if options.requiredFirst then ["required-first"] else []) ++
    (if options.caseSensitive then [] else ["insensitive"]) ++
    (if options.natural then ["natural"] else [])
  if labels.isEmpty then "" else String.intercalate ", " labels ++ " "

end SortOptions

end KeyOrder
