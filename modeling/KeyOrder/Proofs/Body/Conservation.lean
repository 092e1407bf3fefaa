import KeyOrder.Proofs.Body.Pieces
import Mathlib.Data.List.Perm.Basic

/-!
# Rebuilding loses and doubles nothing

Whatever the order, a rebuilt body consists of the declarations in that order, the comments of the
list, each once, separators between the declarations, and white space. What the comments are follows
from the attribution being a partition (`MemberComments.attach_flatMap`); where the separators stand
is read off the slots.
-/

namespace KeyOrder

/-- The comments of a member in the order in which they are written. -/
def MemberComments.written (comments : MemberComments) : List Comment :=
  comments.leading ++ (comments.trailingOf .block ++ comments.trailingOf .line)

theorem MemberComments.kind_of_mem_trailingOf {comments : MemberComments} {kind : CommentKind}
    {comment : Comment} (hc : comment ∈ comments.trailingOf kind) : comment.kind = kind := by
  simpa using (List.mem_filter.mp hc).2

theorem MemberComments.trailingOf_perm (comments : MemberComments) :
    (comments.trailingOf .block ++ comments.trailingOf .line).Perm comments.trailing := by
  have hline : (fun c : Comment => decide (c.kind = .line)) = fun c => !decide (c.kind = .block) := by
    funext c
    cases c.kind <;> rfl
  rw [trailingOf, trailingOf, hline]
  exact List.filter_append_perm _ _

theorem MemberComments.written_perm (comments : MemberComments) :
    comments.written.Perm comments.all :=
  comments.trailingOf_perm.append_left _

theorem flatMap_range_getElem? {α β : Type} (f : α → List β) (l : List α) :
    (List.range l.length).flatMap (fun i => (l[i]?.map f).getD []) = l.flatMap f := by
  induction l with
  | nil => rfl
  | cons a rest ih =>
      rw [List.length_cons, List.range_succ_eq_map, List.flatMap_cons, List.flatMap_map,
        List.flatMap_cons, ← ih]
      rfl

namespace Body

/-! ## Comments among the pieces -/

@[simp] theorem comments_commentRun (source : Text) (stop start : Nat) (comments : List Comment) :
    (commentRun source stop start comments).filterMap Piece.comment? = comments := by
  induction comments generalizing start with
  | nil => rfl
  | cons comment rest ih => simp [commentRun, Piece.comment?, List.filterMap_cons, ih]

@[simp] theorem comments_spacedPieces (source : Text) (comments : List Comment) :
    (comments.flatMap (spacedPieces source)).filterMap Piece.comment? = comments := by
  induction comments with
  | nil => rfl
  | cons comment rest ih => simp [spacedPieces, Piece.comment?, List.filterMap_cons, ih]

@[simp] theorem comments_linePieces (source lineEnd following : Text) (comments : List Comment) :
    (linePieces source lineEnd following comments).filterMap Piece.comment? = comments := by
  fun_induction linePieces source lineEnd following comments with
  | case1 => rfl
  | case2 comment => simp [spacedPieces, Piece.comment?, List.filterMap_cons]
  | case3 comment next rest ih => simp [spacedPieces, Piece.comment?, List.filterMap_cons, ih]

@[simp] theorem comments_leadingPieces (source : Text) (member : Member)
    (comments : MemberComments) :
    (leadingPieces source member comments).filterMap Piece.comment? = comments.leading := by
  cases h : comments.leading <;> simp [leadingPieces, h, Piece.comment?]

@[simp] theorem comments_separatorPieces (list : MemberList) (rest : List Nat) :
    (list.separatorPieces rest).filterMap Piece.comment? = [] := by
  unfold MemberList.separatorPieces
  split <;> rfl

/-! ## Declarations and separators among the pieces -/

@[simp] theorem marks_commentRun (source : Text) (stop start : Nat) (comments : List Comment) :
    (commentRun source stop start comments).filter Piece.isMark = [] := by
  induction comments generalizing start with
  | nil => rfl
  | cons comment rest ih => simp [commentRun, Piece.isMark, ih]

@[simp] theorem marks_spacedPieces (source : Text) (comments : List Comment) :
    (comments.flatMap (spacedPieces source)).filter Piece.isMark = [] := by
  induction comments with
  | nil => rfl
  | cons comment rest ih => simp [spacedPieces, Piece.isMark, ih]

@[simp] theorem marks_linePieces (source lineEnd following : Text) (comments : List Comment) :
    (linePieces source lineEnd following comments).filter Piece.isMark = [] := by
  fun_induction linePieces source lineEnd following comments with
  | case1 => rfl
  | case2 comment => simp [spacedPieces, Piece.isMark]
  | case3 comment next rest ih => simp [spacedPieces, Piece.isMark, ih]

@[simp] theorem marks_leadingPieces (source : Text) (member : Member) (comments : MemberComments) :
    (leadingPieces source member comments).filter Piece.isMark = [] := by
  cases h : comments.leading <;> simp [leadingPieces, h, Piece.isMark]

@[simp] theorem marks_separatorPieces (list : MemberList) (rest : List Nat) :
    (list.separatorPieces rest).filter Piece.isMark = list.separatorPieces rest := by
  unfold MemberList.separatorPieces
  split <;> rfl

end Body

namespace MemberList

open Body

variable {list : MemberList} {source : Text} {order : List Nat}

@[simp] theorem marks_tailPieces (trivia : BodyTrivia) :
    (list.tailPieces source trivia).filter Piece.isMark = [] :=
  marks_commentRun _ _ _ _

/-- The comments written into the slots are those of the members in the slots. -/
theorem comments_slotsPieces (slot : Nat) (hlt : ∀ index ∈ order, index < list.members.length) :
    (list.slotsPieces source (list.trivia source) slot order).filterMap Piece.comment?
      = order.flatMap fun index => (list.shares[index]?.map MemberComments.written).getD [] := by
  induction order generalizing slot with
  | nil => rfl
  | cons index rest ih =>
      obtain ⟨member, share, hm, hs⟩ := exists_of_lt (hlt index (by simp))
      rw [slotsPieces, List.filterMap_append, ih _ fun i hi => hlt i (by simp [hi]),
        List.flatMap_cons, slotPieces_eq hm hs]
      simp [trailingPieces, Piece.comment?, List.filterMap_cons, MemberComments.written, hs]

/-- **Every comment of the list is written once.** -/
theorem comments_pieces (h : InOrder list.members list.comments)
    (hp : order.Perm (List.range list.members.length)) :
    ((list.pieces source order).filterMap Piece.comment?).Perm list.comments := by
  have hlt := forall_lt_of_perm_range hp
  have hlen : list.shares.length = list.members.length := MemberComments.length_attach _ _ _
  have hall := MemberComments.attach_flatMap none h
  rw [MemberComments.unclaimed_none, List.nil_append] at hall
  rw [pieces, List.filterMap_append, comments_slotsPieces 0 hlt, tailPieces, comments_commentRun]
  calc (order.flatMap fun index => (list.shares[index]?.map MemberComments.written).getD [])
        ++ (list.trivia source).endComments
    _ |>.Perm (((List.range list.shares.length).flatMap
          fun index => (list.shares[index]?.map MemberComments.written).getD [])
        ++ (list.trivia source).endComments) :=
          (List.Perm.flatMap_right _ (hlen ▸ hp)).append_right _
    _ = list.shares.flatMap MemberComments.written ++ (list.trivia source).endComments := by
          rw [flatMap_range_getElem?]
    _ |>.Perm (list.shares.flatMap MemberComments.all ++ (list.trivia source).endComments) :=
          (List.Perm.flatMap_left _ fun share _ => share.written_perm).append_right _
    _ = list.comments := hall

/-- A separator stands behind every declaration but the last, and behind that one if the last
member of the source had one. -/
theorem marks_slotsPieces (slot : Nat) (hlt : ∀ index ∈ order, index < list.members.length) :
    (list.slotsPieces source (list.trivia source) slot order).filter Piece.isMark
      = (order.map Piece.declaration).intersperse .separator
        ++ (if order.isEmpty then [] else list.separatorPieces []) := by
  induction order generalizing slot with
  | nil => rfl
  | cons index rest ih =>
      obtain ⟨member, share, hm, hs⟩ := exists_of_lt (hlt index (by simp))
      rw [slotsPieces, List.filter_append, ih _ fun i hi => hlt i (by simp [hi]),
        slotPieces_eq hm hs]
      cases rest with
      | nil => simp [trailingPieces, Piece.isMark, List.filter_cons]
      | cons next rest =>
          simp [trailingPieces, Piece.isMark, List.filter_cons, separatorPieces, writesSeparator]

theorem marks_pieces (hp : order.Perm (List.range list.members.length)) :
    (list.pieces source order).filter Piece.isMark
      = (order.map Piece.declaration).intersperse .separator
        ++ (if list.endsWithTerminator then [.separator] else []) := by
  have hlt := forall_lt_of_perm_range hp
  rw [pieces, List.filter_append, marks_slotsPieces 0 hlt, marks_tailPieces,
    List.append_nil]
  cases order with
  | nil =>
      have hlen := hp.length_eq
      have hnil : list.members = [] := by
        simpa using hlen.symm
      simp [endsWithTerminator, hnil]
  | cons index rest => simp [separatorPieces, writesSeparator]

namespace WellFormed

/-- The white space of a slot is white space. -/
theorem blank_slotPieces (h : list.WellFormed source) {index : Nat}
    (hlt : index < list.members.length) (slot : Nat) (rest : List Nat) {text : Text}
    (ht : .blank text ∈ list.slotPieces source (list.trivia source) slot index rest) :
    text.Blank := by
  obtain ⟨member, share, hm, hs⟩ := exists_of_lt hlt
  have hbound : ∀ comment ∈ share.trailing, source.isBoundary comment.span.start = true :=
    fun comment hc => (h.fits _ (comment_mem_tokens
      (mem_of_mem_share hs (List.mem_append_right _ hc)))).1
  rw [slotPieces_eq hm hs] at ht
  simp only [List.mem_cons, List.mem_append, trailingPieces, Piece.blank.injEq, reduceCtorEq,
    false_or] at ht
  rcases ht with rfl | ht | ht | ht | ht
  · exact h.blank_indentation slot
  · cases hl : share.leading with
    | nil => simp [leadingPieces, hl] at ht
    | cons first rest =>
        simp only [leadingPieces, hl, List.mem_cons, reduceCtorEq, false_or] at ht
        exact (h.fills_leading hm hs hl).blank ht
  · obtain ⟨comment, hc, ht⟩ := List.mem_flatMap.mp ht
    exact blank_spacedPieces (hbound comment (List.mem_filter.mp hc).1) ht
  · unfold separatorPieces at ht
    split at ht <;> simp at ht
  · exact blank_linePieces (Text.blank_lineEnd _)
      (fun comment hc => hbound comment (List.mem_filter.mp hc).1) ht

theorem blank_slotsPieces (h : list.WellFormed source) (slot : Nat)
    (hlt : ∀ index ∈ order, index < list.members.length) {text : Text}
    (ht : .blank text ∈ list.slotsPieces source (list.trivia source) slot order) :
    text.Blank := by
  induction order generalizing slot with
  | nil => simp [slotsPieces] at ht
  | cons index rest ih =>
      rcases List.mem_append.mp ht with ht | ht
      · exact h.blank_slotPieces (hlt index (by simp)) slot rest ht
      · exact ih _ (fun i hi => hlt i (by simp [hi])) ht

theorem blank_pieces (h : list.WellFormed source)
    (hp : order.Perm (List.range list.members.length)) {text : Text}
    (ht : .blank text ∈ list.pieces source order) : text.Blank := by
  rcases List.mem_append.mp ht with ht | ht
  · exact h.blank_slotsPieces 0 (forall_lt_of_perm_range hp) ht
  · exact h.fills_tail.blank ht

end WellFormed

/-- **Rebuilding conserves the content of a body.** A body rebuilt in any order can be cut into
white space, separators, declarations and comments such that the declarations come in that order,
each once, with one separator behind each of them but the last and one behind the last exactly if
the last member of the source had one, and every comment of the list comes once. -/
theorem rebuildBody_conserves (h : list.WellFormed source)
    (hp : order.Perm (List.range list.members.length)) :
    ∃ pieces : List Piece,
      Piece.render source list pieces = list.rebuildBody source (list.trivia source) order
        ∧ (∀ text, .blank text ∈ pieces → text.Blank)
        ∧ pieces.filter Piece.isMark
          = (order.map Piece.declaration).intersperse .separator
            ++ (if list.endsWithTerminator then [.separator] else [])
        ∧ (pieces.filterMap Piece.comment?).Perm list.comments :=
  ⟨list.pieces source order, h.render_pieces order, fun _ => h.blank_pieces hp, marks_pieces hp,
    comments_pieces h.inOrder hp⟩

theorem rebuildBody_conserves_sample :
    sample.WellFormed sampleSource ∧ [1, 0].Perm (List.range sample.members.length)
      ∧ ∃ pieces : List Piece,
        Piece.render sampleSource sample pieces = "a;\n/*h*/b//c\n/*e*/".toList
          ∧ (∀ text, .blank text ∈ pieces → text.Blank)
          ∧ pieces.filter Piece.isMark = [.declaration 1, .separator, .declaration 0]
          ∧ (pieces.filterMap Piece.comment?).Perm sample.comments := by
  have hwf : sample.WellFormed sampleSource := by decide +kernel
  have hbody : sample.rebuildBody sampleSource (sample.trivia sampleSource) [1, 0]
      = "a;\n/*h*/b//c\n/*e*/".toList := by decide +kernel
  rw [← hbody]
  exact ⟨hwf, by decide, rebuildBody_conserves hwf (by decide)⟩

end MemberList

end KeyOrder
