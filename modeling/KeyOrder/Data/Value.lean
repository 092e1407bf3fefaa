/-!
# Structured values

What a settings file says, before it is known what it means: the values that JSON and TOML have in
common, with the entries of a table in the order in which they are written.
-/

namespace KeyOrder

/-- A value of a settings file. Numbers and dates are kept as they are written. -/
inductive Value where
  | null
  | boolean (value : Bool)
  | number (text : String)
  | date (text : String)
  | string (text : String)
  | array (items : List Value)
  | table (entries : List (String × Value))
deriving Repr, Inhabited

namespace Value

/-- Puts an entry in front of others, unless its key is among them. -/
def pushFront (key : String) (value : Value) (entries : List (String × Value)) :
    List (String × Value) :=
  if entries.any (·.1 == key) then entries else (key, value) :: entries

mutual

/-- The value with every repeated key reduced to its last entry. -/
def lastWins : Value → Value
  | .array items => .array (lastWinsItems items)
  | .table entries => .table (lastWinsEntries entries)
  | other => other

/-- `lastWins` for the items of an array. -/
def lastWinsItems : List Value → List Value
  | [] => []
  | item :: rest => lastWins item :: lastWinsItems rest

/-- `lastWins` for the entries of a table. -/
def lastWinsEntries : List (String × Value) → List (String × Value)
  | [] => []
  | (key, value) :: rest => pushFront key (lastWins value) (lastWinsEntries rest)

end

/-- The entry of a table under a key. -/
def get? (value : Value) (key : String) : Option Value :=
  match value with
  | .table entries => entries.lookup key
  | _ => none

end Value

end KeyOrder
