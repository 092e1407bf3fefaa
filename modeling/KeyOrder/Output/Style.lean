import KeyOrder.Text.Basic

/-!
# Styled text

Text for a terminal. A style is switched on by an escape sequence in front of the text and
switched off by another one behind it; where colours are not wanted, the text stands alone.
-/

namespace KeyOrder

/-- Colours of text. -/
inductive Colour where
  | red
  | green
  | yellow
deriving DecidableEq, Repr

/-- The code that switches a colour on. -/
def Colour.code : Colour → String
  | .red => "31"
  | .green => "32"
  | .yellow => "33"

/-- How text is shown. -/
structure Style where
  bold : Bool := false
  dim : Bool := false
  underline : Bool := false
  colour : Option Colour := none
deriving DecidableEq, Repr

namespace Style

/-- Text that stays in the background. -/
def faint : Style := { dim := true }

/-- The codes that switch a style on. -/
def codes (style : Style) : List String :=
  (if style.bold then ["1"] else []) ++ (if style.dim then ["2"] else []) ++
    (if style.underline then ["4"] else []) ++ (style.colour.map Colour.code).toList

/-- The sequence that switches a style on. -/
def opening (style : Style) : Text :=
  ('\x1b' :: '[' :: (String.intercalate ";" style.codes).toList) ++ ['m']

/-- The sequence that switches every style off. -/
def closing : Text := ['\x1b', '[', '0', 'm']

/-- A text with the style switched on again wherever it is switched off inside. -/
def resume (opening : Text) : Text → Text
  | '\x1b' :: '[' :: '0' :: 'm' :: rest => closing ++ opening ++ resume opening rest
  | c :: rest => c :: resume opening rest
  | [] => []

/-- A text in a style, if colours are wanted. -/
def paint (style : Style) (coloured : Bool) (text : String) : String :=
  if coloured && !style.codes.isEmpty then
    String.ofList (style.opening ++ resume style.opening text.toList ++ closing)
  else text

end Style

/-- A text with spaces behind it up to a number of characters. -/
def padEnd (width : Nat) (text : String) : String :=
  text ++ String.ofList (List.replicate (width - text.length) ' ')

end KeyOrder
