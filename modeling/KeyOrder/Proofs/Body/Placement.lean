import KeyOrder.Edit
import KeyOrder.Proofs.Body.Conservation

/-!
# The places of the pieces

Written one after another, the pieces of a rebuilt body take up spans of the new source, and the
member list of the new source can be read off these spans: its declarations, separators and comments
are those of the pieces, each at its new place. **A list read off this way is well-formed in the new
source**, so everything known about well-formed lists holds of it again.

Offset and row are carried along by a cursor; how far apart two places are, in rows, is then the
number of line feeds in the text written between them.
-/

namespace KeyOrder

/-- A place in a text. -/
structure Cursor where
  offset : Nat
  row : Nat
deriving DecidableEq, Repr

namespace Cursor

/-- The start of a text. -/
def origin : Cursor := ⟨0, 0⟩

/-- The place behind a text that is written at the cursor. -/
def advance (cursor : Cursor) (text : Text) : Cursor :=
  ⟨cursor.offset + text.byteLength, cursor.row + text.count '\n'⟩

/-- The span of a text that is written at the cursor. -/
def spanOf (cursor : Cursor) (text : Text) : Span :=
  ⟨cursor.offset, (cursor.advance text).offset, cursor.row, (cursor.advance text).row⟩

@[simp] theorem advance_nil (cursor : Cursor) : cursor.advance [] = cursor := rfl

theorem advance_append (cursor : Cursor) (a b : Text) :
    cursor.advance (a ++ b) = (cursor.advance a).advance b := by
  simp [advance, Nat.add_assoc]

theorem offset_advance (cursor : Cursor) (text : Text) :
    (cursor.advance text).offset = cursor.offset + text.byteLength := rfl

theorem row_advance (cursor : Cursor) (text : Text) :
    (cursor.advance text).row = cursor.row + text.count '\n' := rfl

theorem row_le_advance (cursor : Cursor) (text : Text) : cursor.row ≤ (cursor.advance text).row :=
  Nat.le_add_right _ _

theorem offset_le_advance (cursor : Cursor) (text : Text) :
    cursor.offset ≤ (cursor.advance text).offset :=
  Nat.le_add_right _ _

theorem row_advance_eq_iff (cursor : Cursor) {text : Text} :
    (cursor.advance text).row = cursor.row ↔ '\n' ∉ text := by
  rw [row_advance, Nat.add_eq_left, List.count_eq_zero]

theorem row_lt_advance_iff (cursor : Cursor) {text : Text} :
    cursor.row < (cursor.advance text).row ↔ '\n' ∈ text := by
  rw [row_advance, Nat.lt_add_right_iff_pos, List.count_pos_iff]

/-- A text written behind another one fits the source in which it stands there. -/
theorem spanOf_fits (before text behind : Text) :
    ((origin.advance before).spanOf text).Fits (before ++ (text ++ behind))
      ∧ ((origin.advance before).spanOf text).text (before ++ (text ++ behind)) = text := by
  have hoffset : (origin.advance before).offset = before.byteLength := Nat.zero_add _
  have hstop : ((origin.advance before).advance text).offset
      = (before ++ text).byteLength := by
    rw [offset_advance, hoffset, Text.byteLength_append]
  have hrow : (origin.advance before).row = before.count '\n' := Nat.zero_add _
  refine ⟨⟨?_, ?_, ?_, ?_⟩, ?_⟩
  · show Text.isBoundary _ (origin.advance before).offset = true
    rw [hoffset]
    exact Text.isBoundary_append _ _
  · show Text.isBoundary _ ((origin.advance before).advance text).offset = true
    rw [hstop, ← List.append_assoc]
    exact Text.isBoundary_append _ _
  · show (origin.advance before).row = Text.rowAt _ (origin.advance before).offset
    rw [hoffset, hrow, Text.rowAt, Text.takeBytes_append]
  · show ((origin.advance before).advance text).row
      = Text.rowAt _ ((origin.advance before).advance text).offset
    rw [hstop, row_advance, hrow, Text.rowAt, ← List.append_assoc, Text.takeBytes_append,
      List.count_append]
  · show Text.slice _ (origin.advance before).offset ((origin.advance before).advance text).offset
      = text
    rw [hstop, hoffset, Text.byteLength_append]
    exact Text.slice_middle _ _ _ rfl rfl

end Cursor

namespace Piece

/-- Whether a piece is no white space. -/
def isToken : Piece → Bool
  | .blank _ => false
  | _ => true

theorem isToken_of_isMark {piece : Piece} (h : piece.isMark = true) : piece.isToken = true := by
  cases piece with
  | blank text => cases h
  | _ => rfl

/-- The pieces with their spans, when they are written one after another at the cursor. -/
def place (source : Text) (list : MemberList) : Cursor → List Piece → List (Piece × Span)
  | _, [] => []
  | cursor, piece :: rest =>
    (piece, cursor.spanOf (piece.text source list)) ::
      place source list (cursor.advance (piece.text source list)) rest

/-- The comments among placed pieces. -/
def readComments (placed : List (Piece × Span)) : List Comment :=
  placed.filterMap fun entry => entry.1.comment?.map fun comment => { comment with span := entry.2 }

/-- The separator that comes before the next declaration. -/
def separatorSpan? (placed : List (Piece × Span)) : Option Span :=
  match placed.find? (·.1.isMark) with
  | some (.separator, span) => some span
  | _ => none

/-- The members among placed pieces. -/
def readMembers (members : List Member) : List (Piece × Span) → List Member
  | [] => []
  | (.declaration index, span) :: rest =>
    match members[index]? with
    | some member =>
      { member with declaration := span, terminator := separatorSpan? rest } ::
        readMembers members rest
    | none => readMembers members rest
  | _ :: rest => readMembers members rest

variable {source : Text} {list : MemberList} {cursor : Cursor} {members : List Member}

theorem place_append (a b : List Piece) :
    place source list cursor (a ++ b) = place source list cursor a
      ++ place source list (cursor.advance (render source list a)) b := by
  induction a generalizing cursor with
  | nil => rfl
  | cons piece rest ih => simp [place, ih, Cursor.advance_append]

theorem map_fst_place (pieces : List Piece) :
    (place source list cursor pieces).map Prod.fst = pieces := by
  induction pieces generalizing cursor with
  | nil => rfl
  | cons piece rest ih => simp [place, ih]

theorem mem_of_mem_place {pieces : List Piece} {entry : Piece × Span}
    (h : entry ∈ place source list cursor pieces) : entry.1 ∈ pieces := by
  have hmem := List.mem_map_of_mem (f := Prod.fst) h
  rwa [map_fst_place] at hmem

/-! ## Where the spans stand -/

/-- Every span lies between the cursor and the place behind all pieces. -/
theorem place_bounds {pieces : List Piece} {entry : Piece × Span}
    (h : entry ∈ place source list cursor pieces) :
    cursor.offset ≤ entry.2.start ∧ cursor.row ≤ entry.2.startRow
      ∧ entry.2.start ≤ entry.2.stop ∧ entry.2.startRow ≤ entry.2.endRow
      ∧ entry.2.stop ≤ (cursor.advance (render source list pieces)).offset
      ∧ entry.2.endRow ≤ (cursor.advance (render source list pieces)).row := by
  induction pieces generalizing cursor with
  | nil => simp [place] at h
  | cons piece rest ih =>
      rw [render_cons, Cursor.advance_append]
      rcases List.mem_cons.mp h with rfl | h
      · simp only [Cursor.spanOf, Cursor.offset_advance, Cursor.row_advance]
        omega
      · have hrec := ih h
        simp only [Cursor.offset_advance, Cursor.row_advance] at hrec ⊢
        omega

/-- **The spans follow each other.** -/
theorem place_pairwise (pieces : List Piece) :
    (place source list cursor pieces).Pairwise fun a b => a.2.Before b.2 := by
  induction pieces generalizing cursor with
  | nil => exact List.Pairwise.nil
  | cons piece rest ih =>
      refine List.Pairwise.cons ?_ ih
      intro entry he
      obtain ⟨hoffset, hrow, -⟩ := place_bounds he
      exact ⟨hoffset, hrow⟩

/-- Of two pieces one is written before the other. -/
theorem place_apart {pieces : List Piece} {a b : Piece × Span}
    (ha : a ∈ place source list cursor pieces) (hb : b ∈ place source list cursor pieces)
    (hne : a ≠ b) : a.2.Before b.2 ∨ b.2.Before a.2 := by
  obtain ⟨front, rest, hsplit⟩ := List.append_of_mem ha
  have hpair := hsplit ▸ place_pairwise pieces
  obtain ⟨-, hrest, hcross⟩ := List.pairwise_append.mp hpair
  rw [hsplit] at hb
  rcases List.mem_append.mp hb with hb | hb
  · exact .inr (hcross b hb a List.mem_cons_self)
  · rcases List.mem_cons.mp hb with rfl | hb
    · exact absurd rfl hne
    · exact .inl ((List.pairwise_cons.mp hrest).1 b hb)

/-- **Every piece is found at its span** in the source into which the pieces are written. -/
theorem place_fits {before behind : Text} {pieces : List Piece} {entry : Piece × Span}
    (h : entry ∈ place source list (Cursor.origin.advance before) pieces) :
    entry.2.Fits (before ++ (render source list pieces ++ behind))
      ∧ entry.2.text (before ++ (render source list pieces ++ behind))
        = entry.1.text source list := by
  induction pieces generalizing before with
  | nil => simp [place] at h
  | cons piece rest ih =>
      rw [render_cons, List.append_assoc]
      rcases List.mem_cons.mp h with rfl | h
      · exact Cursor.spanOf_fits _ _ _
      · rw [← Cursor.advance_append] at h
        rw [← List.append_assoc]
        exact ih h

/-- Behind the cursor every offset of the written text falls into a piece. -/
theorem exists_place_of_offset {pieces : List Piece} {n : Nat} (hlo : cursor.offset ≤ n)
    (hhi : n < (cursor.advance (render source list pieces)).offset) :
    ∃ entry ∈ place source list cursor pieces, entry.2.start ≤ n ∧ n < entry.2.stop := by
  induction pieces generalizing cursor with
  | nil =>
      simp only [render_nil, Cursor.advance_nil] at hhi
      omega
  | cons piece rest ih =>
      rw [render_cons, Cursor.advance_append] at hhi
      by_cases hn : n < (cursor.advance (piece.text source list)).offset
      · exact ⟨_, List.mem_cons_self, hlo, hn⟩
      · obtain ⟨entry, he, hin⟩ := ih (Nat.le_of_not_lt hn) hhi
        exact ⟨entry, List.mem_cons_of_mem _ he, hin⟩

/-! ## Reading placed pieces -/

@[simp] theorem readComments_append (a b : List (Piece × Span)) :
    readComments (a ++ b) = readComments a ++ readComments b :=
  List.filterMap_append

@[simp] theorem readComments_cons_blank (text : Text) (span : Span)
    (behind : List (Piece × Span)) :
    readComments ((.blank text, span) :: behind) = readComments behind := rfl

@[simp] theorem readComments_cons_declaration (index : Nat) (span : Span)
    (behind : List (Piece × Span)) :
    readComments ((.declaration index, span) :: behind) = readComments behind := rfl

theorem readMembers_cons_blank (text : Text) (span : Span) (behind : List (Piece × Span)) :
    readMembers members ((.blank text, span) :: behind) = readMembers members behind := rfl

/-! ## Pieces without a declaration or a separator -/

theorem filter_isMark_place {pieces : List Piece} (h : pieces.filter isMark = []) :
    (place source list cursor pieces).filter (·.1.isMark) = [] := by
  rw [List.filter_eq_nil_iff] at h ⊢
  exact fun entry he => h entry.1 (mem_of_mem_place he)

theorem separatorSpan?_place_append {pieces : List Piece} (h : pieces.filter isMark = [])
    (behind : List (Piece × Span)) :
    separatorSpan? (place source list cursor pieces ++ behind) = separatorSpan? behind := by
  have hnone : (place source list cursor pieces).find? (·.1.isMark) = none := by
    rw [List.find?_eq_none]
    exact List.filter_eq_nil_iff.mp (filter_isMark_place h)
  rw [separatorSpan?, List.find?_append, hnone, Option.none_or]
  rfl

theorem separatorSpan?_place {pieces : List Piece} (h : pieces.filter isMark = []) :
    separatorSpan? (place source list cursor pieces) = none := by
  rw [← List.append_nil (place source list cursor pieces), separatorSpan?_place_append h]
  rfl

theorem readMembers_place_append {pieces : List Piece} (h : pieces.filter isMark = [])
    (behind : List (Piece × Span)) :
    readMembers members (place source list cursor pieces ++ behind)
      = readMembers members behind := by
  induction pieces generalizing cursor with
  | nil => rfl
  | cons piece rest ih =>
      rw [List.filter_cons] at h
      cases piece with
      | blank text => exact ih h
      | comment c => exact ih h
      | separator => cases h
      | declaration index => cases h

theorem readMembers_place {pieces : List Piece} (h : pieces.filter isMark = []) :
    readMembers members (place source list cursor pieces) = [] := by
  rw [← List.append_nil (place source list cursor pieces), readMembers_place_append h]
  rfl

/-! ## Comments at their places -/

/-- The comments read off placed pieces say what the comments of the pieces say. -/
theorem texts_readComments {fixed : Text} {placed : List (Piece × Span)}
    (h : ∀ entry ∈ placed, entry.2.text fixed = entry.1.text source list) :
    (readComments placed).map (·.span.text fixed)
      = ((placed.map Prod.fst).filterMap comment?).map (·.span.text source) := by
  induction placed with
  | nil => rfl
  | cons entry rest ih =>
      obtain ⟨piece, span⟩ := entry
      have hrest := ih fun e he => h e (List.mem_cons_of_mem _ he)
      cases piece with
      | blank text => exact hrest
      | separator => exact hrest
      | declaration index => exact hrest
      | comment c =>
          have hspan : span.text fixed = c.span.text source := h _ List.mem_cons_self
          exact congrArg₂ List.cons hspan hrest

/-- A comment read off placed pieces stands where its piece does. -/
theorem mem_readComments {placed : List (Piece × Span)} {comment : Comment} :
    comment ∈ readComments placed ↔
      ∃ c, (.comment c, comment.span) ∈ placed ∧ comment = { c with span := comment.span } := by
  simp only [readComments, List.mem_filterMap, Option.map_eq_some_iff]
  constructor
  · rintro ⟨⟨piece, span⟩, he, c, hc, rfl⟩
    cases piece with
    | comment d =>
        cases hc
        exact ⟨_, he, rfl⟩
    | _ => cases hc
  · rintro ⟨c, he, heq⟩
    exact ⟨_, he, c, rfl, heq.symm⟩

/-- Comments stand between the cursor and the place behind all pieces. -/
theorem readComments_bounds {pieces : List Piece} {c : Comment}
    (hc : c ∈ readComments (place source list cursor pieces)) :
    cursor.offset ≤ c.span.start ∧ cursor.row ≤ c.span.startRow
      ∧ c.span.start ≤ c.span.stop ∧ c.span.startRow ≤ c.span.endRow
      ∧ c.span.stop ≤ (cursor.advance (render source list pieces)).offset
      ∧ c.span.endRow ≤ (cursor.advance (render source list pieces)).row := by
  obtain ⟨_, he, -⟩ := mem_readComments.mp hc
  exact place_bounds he

theorem length_readComments (source : Text) (list : MemberList) (cursor : Cursor)
    (pieces : List Piece) :
    (readComments (place source list cursor pieces)).length
      = (pieces.filterMap comment?).length := by
  induction pieces generalizing cursor with
  | nil => rfl
  | cons piece rest ih =>
      cases piece with
      | comment c => exact congrArg Nat.succ (ih _)
      | _ => exact ih _

end Piece

end KeyOrder
