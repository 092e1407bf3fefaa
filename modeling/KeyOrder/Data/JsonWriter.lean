import KeyOrder.Data.Value
import KeyOrder.Text.Basic

/-!
# Writing JSON

A value as a JSON text over several lines: every item of an array and every entry of an object
stands on a line of its own, two spaces further in than what it belongs to. An empty array or
object stays on one line.
-/

namespace KeyOrder.Json

/-- The digit of a number below sixteen. -/
def hexDigit (value : Nat) : Char :=
  if value < 10 then Char.ofNat ('0'.toNat + value) else Char.ofNat ('a'.toNat + (value - 10))

/-- A character as it stands in a string. Quotes, backslashes and control characters are escaped,
those with a short form by it. -/
def escapeChar : Char → Text
  | '"' => ['\\', '"']
  | '\\' => ['\\', '\\']
  | '\x08' => ['\\', 'b']
  | '\x0c' => ['\\', 'f']
  | '\n' => ['\\', 'n']
  | '\r' => ['\\', 'r']
  | '\t' => ['\\', 't']
  | c =>
    if c.toNat < 0x20 then ['\\', 'u', '0', '0', hexDigit (c.toNat / 16), hexDigit (c.toNat % 16)]
    else [c]

/-- A string in quotes. -/
def quote (text : String) : String :=
  "\"" ++ String.ofList (text.toList.flatMap escapeChar) ++ "\""

/-- Spaces in front of a line at a depth. -/
def indentation (depth : Nat) : String := String.ofList (List.replicate (2 * depth) ' ')

/-- Lines between brackets that stand at a depth. -/
def bracketed (opening closing : String) (depth : Nat) (lines : List String) : String :=
  if lines.isEmpty then opening ++ closing
  else opening ++ "\n" ++ String.intercalate ",\n" lines ++ "\n" ++ indentation depth ++ closing

mutual

/-- A value that starts on a line of the given depth. -/
def prettyAt (depth : Nat) : Value → String
  | .null => "null"
  | .boolean value => if value then "true" else "false"
  | .number text => text
  | .date text => quote text
  | .string text => quote text
  | .array items => bracketed "[" "]" depth (prettyItems (depth + 1) items)
  | .table entries => bracketed "\x7b" "\x7d" depth (prettyEntries (depth + 1) entries)

/-- The items of an array, with the spaces in front of them. -/
def prettyItems (depth : Nat) : List Value → List String
  | [] => []
  | item :: rest => (indentation depth ++ prettyAt depth item) :: prettyItems depth rest

/-- The entries of an object, with the spaces in front of them. -/
def prettyEntries (depth : Nat) : List (String × Value) → List String
  | [] => []
  | (key, value) :: rest =>
    (indentation depth ++ quote key ++ ": " ++ prettyAt depth value) :: prettyEntries depth rest

end

/-- A value over several lines. -/
def pretty (value : Value) : String := prettyAt 0 value

end KeyOrder.Json
