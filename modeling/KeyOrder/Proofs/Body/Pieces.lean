import KeyOrder.Body.Rebuild
import KeyOrder.Proofs.Body.Stretch

/-!
# The pieces of a rebuilt body

A rebuilt body is a sequence of pieces: white space, separators, declarations and comments. The
sequence is read off the same attribution of comments that the text is written from, slot after
slot and then the end of the body; each definition here is the piece-wise twin of one that writes
text. That the two agree rests on one fact about the source (`Body.Fills`): the stretch in front of
a declaration from its first leading comment on, and the stretch at the end of the body, hold their
comments and white space and nothing else.
-/

namespace KeyOrder

/-- What a rebuilt body is made of. -/
inductive Piece where
  /-- White space. -/
  | blank (text : Text)
  /-- The separator of the list's kind. -/
  | separator
  /-- The declaration of the member at an index. -/
  | declaration (index : Nat)
  /-- A comment of the list. -/
  | comment (comment : Comment)
deriving DecidableEq, Repr

namespace Piece

/-- The text of a piece. -/
def text (source : Text) (list : MemberList) : Piece → Text
  | .blank text => text
  | .separator => [list.kind.separator]
  | .declaration index => (list.members[index]?.map (·.declaration.text source)).getD []
  | .comment c => c.span.text source

/-- The text of pieces one after another. -/
def render (source : Text) (list : MemberList) (pieces : List Piece) : Text :=
  pieces.flatMap (text source list)

/-- The comment of a piece. -/
def comment? : Piece → Option Comment
  | .comment c => some c
  | _ => none

/-- Whether a piece is a declaration or a separator. -/
def isMark : Piece → Bool
  | .separator | .declaration _ => true
  | _ => false

@[simp] theorem render_nil (source : Text) (list : MemberList) : render source list [] = [] := rfl

@[simp] theorem render_cons (source : Text) (list : MemberList) (piece : Piece)
    (pieces : List Piece) :
    render source list (piece :: pieces) = piece.text source list ++ render source list pieces := rfl

@[simp] theorem render_append (source : Text) (list : MemberList) (a b : List Piece) :
    render source list (a ++ b) = render source list a ++ render source list b := by
  simp [render]

end Piece

namespace Body

/-- Comments from one offset to another with the text between them. -/
def commentRun (source : Text) (stop : Nat) : Nat → List Comment → List Piece
  | start, [] => [.blank (source.slice start stop)]
  | start, comment :: rest =>
    .blank (source.slice start comment.span.start) :: .comment comment ::
      commentRun source stop comment.span.stop rest

/-- A comment with the white space in front of it. -/
def spacedPieces (source : Text) (comment : Comment) : List Piece :=
  [.blank (source.blankBefore comment.span.start), .comment comment]

/-- Line comments one after another, with a line end behind each one that needs it. -/
def linePieces (source lineEnd following : Text) : List Comment → List Piece
  | [] => []
  | [comment] =>
    spacedPieces source comment ++ [.blank (if following.contains '\n' then [] else lineEnd)]
  | comment :: next :: rest =>
    spacedPieces source comment ++
      .blank (if (source.blankBefore next.span.start).contains '\n' then [] else lineEnd) ::
      linePieces source lineEnd following (next :: rest)

/-- The leading comments of a member with the white space behind each. -/
def leadingPieces (source : Text) (member : Member) (comments : MemberComments) : List Piece :=
  match comments.leading with
  | [] => []
  | first :: rest =>
    .comment first :: commentRun source member.declaration.start first.span.stop rest

/-- What stands behind the declaration of a member. -/
def trailingPieces (source lineEnd : Text) (separator : List Piece) (following : Text)
    (comments : MemberComments) : List Piece :=
  (comments.trailingOf .block).flatMap (spacedPieces source) ++
    (separator ++ linePieces source lineEnd following (comments.trailingOf .line))

end Body

namespace MemberList

/-- Whether a separator is written behind the member of a slot, where `rest` holds the members of
the slots behind it. -/
def writesSeparator (list : MemberList) (rest : List Nat) : Bool :=
  !rest.isEmpty || list.endsWithTerminator

/-- The separator behind the member of a slot. -/
def separatorPieces (list : MemberList) (rest : List Nat) : List Piece :=
  if list.writesSeparator rest then [.separator] else []

/-- The text in front of which the member of a slot is written. -/
def followingText (list : MemberList) (source : Text) (trivia : BodyTrivia) (slot : Nat)
    (rest : List Nat) : Text :=
  if rest.isEmpty then trivia.tail source list else trivia.indentation source (slot + 1)

/-- The pieces of one slot. -/
def slotPieces (list : MemberList) (source : Text) (trivia : BodyTrivia) (slot index : Nat)
    (rest : List Nat) : List Piece :=
  match list.members[index]?, trivia.members[index]? with
  | some member, some comments =>
    .blank (trivia.indentation source slot) ::
      (Body.leadingPieces source member comments.toMemberComments ++
        .declaration index ::
          Body.trailingPieces source (list.body source).lineEnd (list.separatorPieces rest)
            (list.followingText source trivia slot rest) comments.toMemberComments)
  | _, _ => [.blank (trivia.indentation source slot)]

/-- The pieces of the slots from `slot` on. -/
def slotsPieces (list : MemberList) (source : Text) (trivia : BodyTrivia) (slot : Nat) :
    List Nat → List Piece
  | [] => []
  | index :: rest =>
    list.slotPieces source trivia slot index rest ++ list.slotsPieces source trivia (slot + 1) rest

/-- The pieces of what stays at the end of the body. -/
def tailPieces (list : MemberList) (source : Text) (trivia : BodyTrivia) : List Piece :=
  Body.commentRun source list.bodyStop trivia.tailStart trivia.endComments

/-- **The pieces of the body rebuilt in an order.** -/
def pieces (list : MemberList) (source : Text) (order : List Nat) : List Piece :=
  list.slotsPieces source (list.trivia source) 0 order ++ list.tailPieces source (list.trivia source)

end MemberList

/-! ## The text of the pieces -/

theorem Text.mem_lineEnd (text : Text) : '\n' ∈ text.lineEnd := by
  unfold lineEnd
  split <;> simp

theorem Text.blank_lineEnd (text : Text) : text.lineEnd.Blank := by
  unfold lineEnd
  split <;> decide

namespace Body

variable {source : Text} {stop start : Nat} {comments : List Comment}

/-- A stretch filled by comments is written as it stands. -/
theorem Fills.render (list : MemberList) (h : Fills source stop start comments) :
    Piece.render source list (commentRun source stop start comments) = source.slice start stop := by
  induction comments generalizing start with
  | nil => simp [commentRun, Piece.text]
  | cons comment rest ih =>
      obtain ⟨hbound, hstart, hcomment, hlen, -, hrest⟩ := h
      simp only [commentRun, Piece.render_cons, Piece.text, Span.text, ih hrest]
      rw [Text.slice_append_slice hcomment hrest.boundary hlen hrest.le,
        Text.slice_append_slice hbound hcomment hstart (Nat.le_trans hlen hrest.le)]

/-- The white space in a stretch filled by comments is white space. -/
theorem Fills.blank (h : Fills source stop start comments) {text : Text}
    (ht : Piece.blank text ∈ commentRun source stop start comments) : text.Blank := by
  induction comments generalizing start with
  | nil =>
      simp only [commentRun, List.mem_singleton, Piece.blank.injEq] at ht
      exact ht ▸ h.2.2
  | cons comment rest ih =>
      obtain ⟨-, -, -, -, hblank, hrest⟩ := h
      simp only [commentRun, List.mem_cons, Piece.blank.injEq, reduceCtorEq, false_or] at ht
      rcases ht with rfl | ht
      · exact hblank
      · exact ih hrest ht

theorem render_spacedPieces (list : MemberList) (comment : Comment) :
    Piece.render source list (spacedPieces source comment) = spacedComment source comment := by
  simp [spacedPieces, spacedComment, Piece.text]

theorem render_linePieces (list : MemberList) (lineEnd following : Text) (comments : List Comment) :
    Piece.render source list (linePieces source lineEnd following comments)
      = lineComments source lineEnd following comments := by
  fun_induction linePieces source lineEnd following comments with
  | case1 => rfl
  | case2 comment => simp [lineComments, render_spacedPieces, Piece.text]
  | case3 comment next rest ih => simp [lineComments, render_spacedPieces, Piece.text, ih]

theorem render_blockPieces (list : MemberList) (comments : List Comment) :
    Piece.render source list (comments.flatMap (spacedPieces source))
      = comments.flatMap (spacedComment source) := by
  induction comments with
  | nil => rfl
  | cons comment rest ih => simp [render_spacedPieces, ih]

/-- Spaced comments hold no other white space than that in front of them. -/
theorem blank_spacedPieces {comment : Comment} {text : Text}
    (h : source.isBoundary comment.span.start = true)
    (ht : Piece.blank text ∈ spacedPieces source comment) : text.Blank := by
  simp only [spacedPieces, List.mem_cons, Piece.blank.injEq, reduceCtorEq, List.not_mem_nil,
    or_false] at ht
  exact ht ▸ Text.blank_blankBefore h

theorem blank_linePieces {lineEnd following : Text} (hend : lineEnd.Blank)
    (h : ∀ comment ∈ comments, source.isBoundary comment.span.start = true) {text : Text}
    (ht : Piece.blank text ∈ linePieces source lineEnd following comments) : text.Blank := by
  fun_induction linePieces source lineEnd following comments with
  | case1 => simp at ht
  | case2 comment =>
      rcases List.mem_append.mp ht with ht | ht
      · exact blank_spacedPieces (h comment (by simp)) ht
      · simp only [List.mem_singleton, Piece.blank.injEq] at ht
        subst ht
        split
        · exact Text.blank_nil
        · exact hend
  | case3 comment next rest ih =>
      rcases List.mem_append.mp ht with ht | ht
      · exact blank_spacedPieces (h comment (by simp)) ht
      · rcases List.mem_cons.mp ht with ht | ht
        · cases ht
          split
          · exact Text.blank_nil
          · exact hend
        · exact ih (fun c hc => h c (List.mem_cons_of_mem _ hc)) ht

end Body

namespace MemberList

open Body

variable {list : MemberList} {source : Text} {index : Nat} {member : Member}
  {share : MemberComments}

/-- The pieces of a slot that gets a member of the list. -/
theorem slotPieces_eq (hm : list.members[index]? = some member)
    (hs : list.shares[index]? = some share) (slot : Nat) (rest : List Nat) :
    list.slotPieces source (list.trivia source) slot index rest
      = .blank ((list.trivia source).indentation source slot) ::
        (leadingPieces source member share ++ .declaration index ::
          trailingPieces source (list.body source).lineEnd (list.separatorPieces rest)
            (list.followingText source (list.trivia source) slot rest) share) := by
  simp [slotPieces, trivia_getElem? source hm hs, hm, MemberComments.withIndentation]

namespace WellFormed

/-- The white space in front of a slot is white space. -/
theorem blank_indentation (h : list.WellFormed source) (slot : Nat) :
    ((list.trivia source).indentation source slot).Blank := by
  unfold BodyTrivia.indentation
  split
  next trivia htrivia =>
    obtain ⟨member, share, hm, hs, rfl⟩ := exists_share_of_trivia htrivia
    obtain ⟨before, behind, hshare⟩ := MemberComments.exists_share none h.inOrder hm hs
    refine Text.blank_blankBefore ?_
    cases hl : share.leading with
    | nil =>
        exact (h.fits _ (token_mem_tokens (List.mem_of_getElem? hm)
          member.declaration_mem_tokens)).1
    | cons first rest =>
        have hin : first ∈ list.comments := by
          rw [hshare.split, hl]
          simp
        exact (h.fits _ (comment_mem_tokens hin)).1
  next => exact Text.blank_nil

/-- The leading comments of a member are written as they stand. -/
theorem render_leadingPieces (h : list.WellFormed source)
    (hm : list.members[index]? = some member) (hs : list.shares[index]? = some share) :
    Piece.render source list (leadingPieces source member share)
      = leadingText source member share := by
  cases hl : share.leading with
  | nil => simp [leadingPieces, leadingText, hl]
  | cons first rest =>
      obtain ⟨before, behind, hshare⟩ := MemberComments.exists_share none h.inOrder hm hs
      have hin : first ∈ list.comments := by
        rw [hshare.split, hl]
        simp
      have hfills := h.fills_leading hm hs hl
      have hproper := h.inOrder.properComments first hin
      have hfits := h.fits _ (comment_mem_tokens hin)
      simp only [leadingPieces, leadingText, hl, Piece.render_cons, Piece.text, Span.text,
        hfills.render]
      exact Text.slice_append_slice hfits.1 hfits.2.1 (Nat.le_of_lt hproper.1) hfills.le

theorem render_slotPieces (h : list.WellFormed source) (slot index : Nat) (rest : List Nat) :
    Piece.render source list (list.slotPieces source (list.trivia source) slot index rest)
      = list.slotText source (list.trivia source) slot index rest := by
  unfold slotPieces slotText
  cases hm : list.members[index]? with
  | none => simp [Piece.text]
  | some member =>
      cases ht : (list.trivia source).members[index]? with
      | none => simp [Piece.text]
      | some trivia =>
          obtain ⟨member', share, hm', hs, rfl⟩ := exists_share_of_trivia ht
          obtain rfl : member = member' := Option.some.inj (hm.symm.trans hm')
          have hleading := h.render_leadingPieces hm hs
          have hseparator : Piece.render source list (list.separatorPieces rest)
              = if !rest.isEmpty || list.endsWithTerminator then [list.kind.separator] else [] := by
            unfold separatorPieces writesSeparator
            split <;> rfl
          simp only [MemberComments.withIndentation, Piece.render_cons, Piece.render_append,
            hleading, trailingPieces, render_blockPieces, render_linePieces, hseparator,
            memberText, followingText, Piece.text, hm, Option.map_some, Option.getD_some,
            List.append_assoc]

theorem render_slotsPieces (h : list.WellFormed source) (slot : Nat) (order : List Nat) :
    Piece.render source list (list.slotsPieces source (list.trivia source) slot order)
      = list.slotTexts source (list.trivia source) slot order := by
  induction order generalizing slot with
  | nil => rfl
  | cons index rest ih => simp [slotsPieces, slotTexts, h.render_slotPieces, ih]

/-- **The pieces make up the rebuilt body.** -/
theorem render_pieces (h : list.WellFormed source) (order : List Nat) :
    Piece.render source list (list.pieces source order)
      = list.rebuildBody source (list.trivia source) order := by
  rw [pieces, Piece.render_append, h.render_slotsPieces, tailPieces, h.fills_tail.render,
    rebuildBody, BodyTrivia.tail]

end WellFormed

end MemberList

end KeyOrder
