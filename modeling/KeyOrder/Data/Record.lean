import KeyOrder.Data.Value

/-!
# Records, keywords and lists in settings

How typed settings are read from values. A record is a table of known fields, or an array of its
fields in their order of declaration; **an unknown field or a field given twice is refused**, and
so is a field given once by each of two names. A keyword is a string, or a table whose only key is
the keyword and whose value says nothing.
-/

namespace KeyOrder

/-- The format a value was written in. -/
inductive DataFormat where
  | json
  | toml
deriving DecidableEq, Repr

/-- A field of a record: the names it goes by. -/
abbrev FieldNames := List String

namespace Value

/-- Whether a value says nothing: null, or in a format without null an empty table or array. -/
def isUnit (format : DataFormat) : Value → Bool
  | .null => format = .json
  | .array [] => format = .toml
  | .table [] => format = .toml
  | _ => false

/-- The value of one field of a table; refused if it is given twice. -/
def field? (entries : List (String × Value)) (names : FieldNames) : Option (Option Value) :=
  match entries.filter fun entry => names.contains entry.1 with
  | [] => some none
  | [(_, value)] => some (some value)
  | _ => none

/-- The values of the fields of a record, in the order of declaration. In JSON an array has no more
items than the record has fields. -/
def fields? (format : DataFormat) (declared : List FieldNames) :
    Value → Option (List (Option Value))
  | .table entries =>
    if entries.all fun entry => declared.any (·.contains entry.1) then
      declared.mapM (field? entries)
    else none
  | .array items =>
    if format = .json && declared.length < items.length then none
    else
      some ((List.range declared.length).map (items[·]?))
  | _ => none

/-- Reads a keyword. -/
def keyword? {α : Type} (format : DataFormat) (ofWord : String → Option α) : Value → Option α
  | .string word => ofWord word
  | .table [(word, payload)] => if payload.isUnit format then ofWord word else none
  | _ => none

/-- Reads a truth value. -/
def boolean? : Value → Option Bool
  | .boolean value => some value
  | _ => none

/-- Reads an array of strings. -/
def strings? : Value → Option (List String)
  | .array items => items.mapM fun
    | .string text => some text
    | _ => none
  | _ => none

/-- Reads a field that has a default. -/
def required? {α : Type} (read : Value → Option α) (default : α) : Option Value → Option α
  | none => some default
  | some value => read value

/-- Reads a field that may be missing or null. -/
def optional? {α : Type} (read : Value → Option α) : Option Value → Option (Option α)
  | none | some .null => some none
  | some value => (read value).map some

end Value

end KeyOrder
