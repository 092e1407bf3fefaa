import KeyOrder.Text.Basic

/-!
# Spans

A span is a byte range of a source together with the rows on which it starts and ends.
-/

namespace KeyOrder

/-- The bytes `start` (inclusive) to `stop` (exclusive), with zero-based rows. -/
structure Span where
  start : Nat
  stop : Nat
  startRow : Nat
  endRow : Nat
deriving DecidableEq, Repr, Inhabited

namespace Span

/-- The source text covered by a span. -/
def text (span : Span) (source : Text) : Text :=
  source.slice span.start span.stop

/-- Whether `inner` lies entirely inside the span. -/
def contains (span inner : Span) : Bool :=
  span.start ≤ inner.start && inner.stop ≤ span.stop

theorem contains_iff (span inner : Span) :
    span.contains inner = true ↔ span.start ≤ inner.start ∧ inner.stop ≤ span.stop := by
  simp [contains]

end Span

end KeyOrder
