import KeyOrder.Text.Basic

/-!
# Edits

An edit replaces a byte range of a source. Edits that do not overlap can be applied together: from
the last one to the first, so that the offsets of those still to come stay valid.
-/

namespace KeyOrder

/-- The replacement of the bytes `start` to `stop`. -/
structure Edit where
  start : Nat
  stop : Nat
  replacement : Text
  description : Option String := none
deriving DecidableEq, Repr

/-- Why edits cannot be applied. -/
inductive EditError where
  /-- The edits at two indices overlap. -/
  | overlappingEdits (first second : Nat)
  /-- The edit at an index leaves a source of this length, or cuts a character. -/
  | outOfBounds (index start stop length : Nat)
  /-- A range does not fit the text, or cuts a character of it, when the turn of its edit comes. -/
  | rangeLost (start stop : Nat)
  /-- The result has syntax errors and the source had none. -/
  | unparsable
deriving DecidableEq, Repr

/-- The wording of an edit error. -/
def EditError.message : EditError → String
  | .overlappingEdits first second => s!"Overlapping edits at indices {first} and {second}"
  | .outOfBounds index start stop length =>
    s!"Edit {index} out of bounds: {start}..{stop} in source of length {length}"
  | .rangeLost start stop => s!"Range {start}..{stop} does not fit the text as edited so far"
  | .unparsable => "Rewritten source contains syntax errors"

namespace Edit

/-- Whether two edits overlap. An empty range overlaps nothing at its own ends. -/
def overlaps (a b : Edit) : Bool :=
  a.start < b.stop && b.start < a.stop

/-- Whether an edit leaves the source as it is. -/
def isNoop (edit : Edit) (source : Text) : Bool :=
  source.slice? edit.start edit.stop == some edit.replacement

/-- Whether an edit lies in the source and cuts no character. -/
def inBounds (edit : Edit) (source : Text) : Bool :=
  edit.start ≤ edit.stop && edit.stop ≤ source.byteLength &&
    source.isBoundary edit.start && source.isBoundary edit.stop

/-- The source with one edit applied. -/
def splice (edit : Edit) (source : Text) : Text :=
  source.takeBytes edit.start ++ edit.replacement ++ source.dropBytes edit.stop

/-- Applies one edit to a text, which may have been edited before. -/
def applyTo (edit : Edit) (text : Text) : Except EditError Text :=
  if edit.inBounds text then .ok (edit.splice text)
  else .error (.rangeLost edit.start edit.stop)

end Edit

/-- The first edit out of bounds, in edits that are numbered from `index` on. -/
def firstOutOfBounds (source : Text) (index : Nat) : List Edit → Option EditError
  | [] => none
  | edit :: edits =>
    if edit.inBounds source then firstOutOfBounds source (index + 1) edits
    else some (.outOfBounds index edit.start edit.stop source.byteLength)

/-- The first pair of overlapping edits, in edits that are numbered from `index` on. -/
def firstOverlap (index : Nat) : List Edit → Option EditError
  | [] => none
  | edit :: edits =>
    match edits.findIdx? edit.overlaps with
    | some distance => some (.overlappingEdits index (index + 1 + distance))
    | none => firstOverlap (index + 1) edits

/-- Checks that edits can be applied together. Bounds are checked before overlaps. -/
def validateEdits (source : Text) (edits : List Edit) : Except EditError Unit :=
  match firstOutOfBounds source 0 edits <|> firstOverlap 0 edits with
  | some error => .error error
  | none => .ok ()

/-- Applies edits together, the one that starts last first. -/
def applyEdits (source : Text) (edits : List Edit) : Except EditError Text := do
  validateEdits source edits
  let ordered := edits.mergeSort fun a b => b.start ≤ a.start
  ordered.foldlM (fun text edit => edit.applyTo text) source

/-- Applies edits and refuses the result if it does not parse although the source does. -/
def applyVerified (parses : Text → Bool) (source : Text) (edits : List Edit) :
    Except EditError Text := do
  let result ← applyEdits source edits
  if parses source && !parses result then
    throw .unparsable
  return result

/-- Takes an edit on top of those kept so far, unless it changes nothing, overlaps one of them or is
one of them. -/
def keepEdit (source : Text) (kept : List Edit) (edit : Edit) : List Edit :=
  if edit.isNoop source || kept.any (fun other => other.overlaps edit || other = edit) then kept
  else kept ++ [edit]

/-- The edits that are applied together: those that start first win, and of those the longest. -/
def selectEdits (source : Text) (edits : List Edit) : List Edit :=
  let ordered := edits.mergeSort fun a b =>
    a.start < b.start || (a.start = b.start && b.stop ≤ a.stop)
  ordered.foldl (keepEdit source) []

end KeyOrder
