import KeyOrder.Text.Basic
import KeyOrder.Text.Partition

/-!
# Lines and columns

Byte offsets as people read them: lines and columns count from one, a line feed ends a line, and
**columns count characters**.
-/

namespace KeyOrder

/-- The offsets at which the lines of a text start. -/
structure LineIndex where
  starts : Array Nat

namespace LineIndex

/-- Starts of the lines behind the first one, in a text that begins at byte `offset`. -/
def startsFrom (offset : Nat) : Text → List Nat
  | [] => []
  | c :: rest =>
    let next := offset + c.utf8Size
    if c = '\n' then next :: startsFrom next rest else startsFrom next rest

/-- The line index of a text. -/
def ofText (text : Text) : LineIndex :=
  ⟨(0 :: startsFrom 0 text).toArray⟩

/-- The line of an offset. -/
def line (index : LineIndex) (offset : Nat) : Nat :=
  partitionPoint (· ≤ offset) index.starts

/-- The line and the column of an offset. Where the stretch from the start of the line cannot be cut
out of the text, the column counts bytes. -/
def lineColumn (index : LineIndex) (text : Text) (offset : Nat) : Nat × Nat :=
  let line := index.line offset
  let start := index.starts.getD (line - 1) 0
  let width := match text.slice? start offset with
    | some piece => piece.length
    | none => offset - start
  (line, width + 1)

end LineIndex

end KeyOrder
