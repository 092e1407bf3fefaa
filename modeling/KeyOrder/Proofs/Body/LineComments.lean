import KeyOrder.Proofs.Body.Conservation

/-!
# Line comments in a rebuilt body

A line comment hides what follows it up to the next line feed. If in the source a line feed stands
behind every line comment before anything else of the list does, then the same holds of a rebuilt
body with **one exception**: a trailing line comment in the last slot is written in front of the end
of the body, and no line end is added if that end has a line feed anywhere, be it behind a comment.
The end begins with a comment on the same line if the last member of the source has a trailing block
comment of several rows.
-/

namespace KeyOrder

namespace Text

/-- A line feed comes before anything but white space. -/
def BreaksLine (text : Text) : Prop := '\n' ∈ text.takeWhile isBlank

instance (text : Text) : Decidable text.BreaksLine :=
  inferInstanceAs (Decidable ('\n' ∈ text.takeWhile isBlank))

theorem breaksLine_append {a b : Text} (h : a.Blank) :
    (a ++ b).BreaksLine ↔ '\n' ∈ a ∨ b.BreaksLine := by
  rw [BreaksLine, List.takeWhile_append_of_pos h, List.mem_append]
  rfl

end Text

namespace Piece

variable {source : Text} {list : MemberList}

/-- In these pieces, with `following` behind them, a line feed comes behind every line comment before
anything but white space. -/
def LinesEnd (source : Text) (list : MemberList) (following : Text) : List Piece → Prop
  | [] => True
  | piece :: rest =>
    (∀ comment, piece = .comment comment → comment.kind = .line →
        (render source list rest ++ following).BreaksLine)
      ∧ LinesEnd source list following rest

theorem linesEnd_append {following : Text} {a b : List Piece} :
    LinesEnd source list following (a ++ b)
      ↔ LinesEnd source list (render source list b ++ following) a
        ∧ LinesEnd source list following b := by
  induction a with
  | nil => simp [LinesEnd]
  | cons piece rest ih => simp [LinesEnd, ih, and_assoc]

/-- The pieces in which no line comment hides anything, said of every place where one stands. -/
theorem linesEnd_iff {pieces : List Piece} :
    LinesEnd source list [] pieces ↔ ∀ before comment behind,
      pieces = before ++ .comment comment :: behind → comment.kind = .line →
        (render source list behind).BreaksLine := by
  constructor
  · rintro h before comment behind rfl hkind
    have htail := (linesEnd_append.mp h).2
    simpa using htail.1 comment rfl hkind
  · intro h
    induction pieces with
    | nil => trivial
    | cons piece rest ih =>
        refine ⟨?_, ih ?_⟩
        · rintro comment rfl hkind
          simpa using h [] comment rest rfl hkind
        · rintro before comment behind rfl hkind
          exact h (piece :: before) comment behind rfl hkind

/-- Pieces without a line comment. -/
theorem linesEnd_of_forall {following : Text} {pieces : List Piece}
    (h : ∀ comment, .comment comment ∈ pieces → comment.kind = .block) :
    LinesEnd source list following pieces := by
  induction pieces with
  | nil => trivial
  | cons piece rest ih =>
      refine ⟨?_, ih fun comment hc => h comment (List.mem_cons_of_mem _ hc)⟩
      rintro comment rfl hkind
      rw [h comment List.mem_cons_self] at hkind
      cases hkind

end Piece

namespace Body

open Piece

variable {source : Text} {list : MemberList} {stop start : Nat} {comments : List Comment}

/-- A stretch of comments begins with a line feed if the source has one there in front of the first
comment. -/
theorem Fills.breaksLine (h : Fills source stop start comments) {limit : Nat}
    (hline : '\n' ∈ source.slice start limit) (hstop : limit ≤ stop)
    (hnext : ∀ comment ∈ comments, limit ≤ comment.span.start) (following : Text) :
    (Piece.render source list (commentRun source stop start comments) ++ following).BreaksLine := by
  cases comments with
  | nil =>
      simp only [commentRun, render_cons, render_nil, Piece.text, List.append_nil]
      exact (Text.breaksLine_append h.2.2).mpr (.inl (Text.mem_slice_of_le hstop hline))
  | cons comment rest =>
      obtain ⟨-, -, -, -, hblank, -⟩ := h
      simp only [commentRun, render_cons, Piece.text, List.append_assoc]
      exact (Text.breaksLine_append hblank).mpr
        (.inl (Text.mem_slice_of_le (hnext comment List.mem_cons_self) hline))

/-- Behind a line comment the source has a line feed before `stop` and before every comment of the
stretch that stands behind it. -/
def BreaksBefore (source : Text) (stop : Nat) (comments : List Comment) (comment : Comment) : Prop :=
  ∃ limit ≤ stop, '\n' ∈ source.slice comment.span.stop limit
    ∧ ∀ other ∈ comments, comment.span.Before other.span → limit ≤ other.span.start

/-- **A stretch of comments keeps its line comments apart from what follows.** -/
theorem Fills.linesEnd (h : Fills source stop start comments)
    (hfollow : comments.Pairwise fun a b => a.span.Before b.span)
    (hline : ∀ comment ∈ comments, comment.kind = .line →
      BreaksBefore source stop comments comment) (following : Text) :
    LinesEnd source list following (commentRun source stop start comments) := by
  induction comments generalizing start with
  | nil => simp [commentRun, LinesEnd]
  | cons comment rest ih =>
      obtain ⟨-, -, -, -, -, hrest⟩ := h
      obtain ⟨hhead, hpair⟩ := List.pairwise_cons.mp hfollow
      refine ⟨by simp, ?_, ih hrest hpair ?_⟩
      · rintro _ ⟨rfl⟩ hkind
        obtain ⟨limit, hstop, hfeed, hnext⟩ := hline comment List.mem_cons_self hkind
        exact hrest.breaksLine hfeed hstop
          (fun other ho => hnext other (List.mem_cons_of_mem _ ho) (hhead other ho)) following
      · intro other ho hkind
        obtain ⟨limit, hstop, hfeed, hnext⟩ := hline other (List.mem_cons_of_mem _ ho) hkind
        exact ⟨limit, hstop, hfeed, fun c hc => hnext c (List.mem_cons_of_mem _ hc)⟩

/-- **Trailing line comments hide nothing exactly if the last of them does not**, and that one is
followed by a line end of its own or by a text that has a line feed. -/
theorem linesEnd_linePieces {lineEnd following behind : Text} (hend : lineEnd.Blank)
    (hfeed : '\n' ∈ lineEnd)
    (hbound : ∀ comment ∈ comments, source.isBoundary comment.span.start = true)
    (hkind : ∀ comment ∈ comments, comment.kind = .line) :
    LinesEnd source list behind (linePieces source lineEnd following comments)
      ↔ comments = [] ∨ '\n' ∉ following ∨ behind.BreaksLine := by
  fun_induction linePieces source lineEnd following comments with
  | case1 => simp [LinesEnd]
  | case2 comment =>
      by_cases hf : '\n' ∈ following
      · have hk := hkind comment List.mem_cons_self
        simp [spacedPieces, LinesEnd, Piece.text, hk, hf]
      · simp [spacedPieces, LinesEnd, Piece.text, hf, Text.breaksLine_append hend, hfeed]
  | case3 comment next rest ih =>
      have hrec := ih (fun c hc => hbound c (List.mem_cons_of_mem _ hc))
        (fun c hc => hkind c (List.mem_cons_of_mem _ hc))
      have hblank := Text.blank_blankBefore (hbound next (by simp))
      -- the white space in front of the next comment has a line feed, or one is added
      have hbreak : Text.BreaksLine
          ((if (source.blankBefore next.span.start).contains '\n' then [] else lineEnd)
            ++ (render source list (linePieces source lineEnd following (next :: rest))
              ++ behind)) := by
        rw [render_linePieces]
        by_cases hf : '\n' ∈ source.blankBefore next.span.start
        · cases rest <;> simp [lineComments, spacedComment, hf, Text.breaksLine_append hblank]
        · simp [hf, Text.breaksLine_append hend, hfeed]
      simp only [reduceCtorEq, false_or] at hrec ⊢
      rw [← hrec]
      simp only [spacedPieces, LinesEnd, List.cons_append, List.nil_append, render_cons, Piece.text,
        reduceCtorEq, false_implies, implies_true, true_and, Piece.comment.injEq,
        List.append_assoc]
      constructor
      · exact fun hall => hall.2
      · exact fun hall => ⟨fun c hc _ => hbreak, hall⟩

end Body

namespace MemberList

open Body Piece

/-- Where the next token behind an offset starts, or else the closing brace. -/
def nextStart (list : MemberList) (offset : Nat) : Nat :=
  ((list.tokens.map Span.start).filter (offset ≤ ·)).foldr min list.bodyStop

/-- Behind a comment the source has white space with a line feed, up to the next token or the
closing brace. -/
def EndsLine (list : MemberList) (source : Text) (comment : Comment) : Prop :=
  '\n' ∈ source.slice comment.span.stop (list.nextStart comment.span.stop)

instance (list : MemberList) (source : Text) (comment : Comment) :
    Decidable (list.EndsLine source comment) := inferInstanceAs (Decidable ('\n' ∈ _))

/-- The trailing line comments of the member in the last slot. -/
def lastLineComments (list : MemberList) (order : List Nat) : List Comment :=
  ((order.getLast?.bind (list.shares[·]?)).map (·.trailingOf .line)).getD []

/-- **The end of the body gets hidden**: a line comment is written in front of it, it does not begin
with a line feed, and it has one later, so that no line end is added. -/
def HidesEnd (list : MemberList) (source : Text) (order : List Nat) : Prop :=
  list.lastLineComments order ≠ [] ∧ '\n' ∈ (list.trivia source).tail source list
    ∧ ¬ ((list.trivia source).tail source list).BreaksLine

variable {list : MemberList} {source : Text} {order : List Nat}

theorem nextStart_le_bodyStop (offset : Nat) : list.nextStart offset ≤ list.bodyStop := by
  unfold nextStart
  generalize (list.tokens.map Span.start).filter (offset ≤ ·) = starts
  induction starts with
  | nil => exact Nat.le_refl _
  | cons start rest ih => exact Nat.le_trans (Nat.min_le_right _ _) ih

theorem nextStart_le {offset : Nat} {token : Span} (ht : token ∈ list.tokens)
    (hle : offset ≤ token.start) : list.nextStart offset ≤ token.start := by
  have hmem : token.start ∈ (list.tokens.map Span.start).filter (offset ≤ ·) :=
    List.mem_filter.mpr ⟨List.mem_map_of_mem ht, by simpa using hle⟩
  unfold nextStart
  generalize (list.tokens.map Span.start).filter (offset ≤ ·) = starts at hmem
  induction starts with
  | nil => simp at hmem
  | cons start rest ih =>
      rcases List.mem_cons.mp hmem with rfl | hmem
      · exact Nat.min_le_left _ _
      · exact Nat.le_trans (Nat.min_le_right _ _) (ih hmem)

theorem EndsLine.breaksBefore {comment : Comment} (h : list.EndsLine source comment) {stop : Nat}
    (hstop : list.nextStart comment.span.stop ≤ stop) {comments : List Comment}
    (hsub : ∀ other ∈ comments, other ∈ list.comments) :
    BreaksBefore source stop comments comment :=
  ⟨_, hstop, h, fun other ho hbefore =>
    nextStart_le (WellFormed.comment_mem_tokens (hsub other ho)) hbefore.1⟩

namespace WellFormed

variable {index : Nat} {member : Member} {share : MemberComments}

/-- Leading line comments hide nothing. -/
theorem linesEnd_leadingPieces (h : list.WellFormed source)
    (hline : ∀ comment ∈ list.comments, comment.kind = .line → list.EndsLine source comment)
    (hm : list.members[index]? = some member) (hs : list.shares[index]? = some share)
    (following : Text) :
    LinesEnd source list following (leadingPieces source member share) := by
  cases hl : share.leading with
  | nil => simp [leadingPieces, hl, LinesEnd]
  | cons first rest =>
      obtain ⟨before, behind, hshare⟩ := MemberComments.exists_share none h.inOrder hm hs
      have hmember := List.mem_of_getElem? hm
      have hmem : ∀ comment ∈ first :: rest, comment ∈ list.comments := fun comment hc =>
        mem_of_mem_share hs (List.mem_append_left _ (hl ▸ hc))
      have hfollow : (first :: rest).Pairwise fun a b => a.span.Before b.span := by
        have hall := hshare.split ▸ h.inOrder.commentsFollow
        exact hl ▸ (List.pairwise_append.mp (List.pairwise_append.mp hall).2.1).1
      obtain ⟨hhead, hpair⟩ := List.pairwise_cons.mp hfollow
      have hlimit : ∀ comment ∈ first :: rest,
          list.nextStart comment.span.stop ≤ member.declaration.start := fun comment hc =>
        nextStart_le (token_mem_tokens hmember member.declaration_mem_tokens)
          (h.inOrder.before_declaration hmember (hmem comment hc)
            (hshare.leading_starts comment (hl ▸ hc))).1
      have hfills := h.fills_leading hm hs hl
      simp only [leadingPieces, hl]
      refine ⟨?_, hfills.linesEnd hpair ?_ following⟩
      · rintro _ ⟨rfl⟩ hkind
        refine hfills.breaksLine (hline first (hmem first List.mem_cons_self) hkind)
          (hlimit first List.mem_cons_self) ?_ following
        intro comment hc
        exact nextStart_le (comment_mem_tokens (hmem comment (List.mem_cons_of_mem _ hc)))
          (hhead comment hc).1
      · intro comment hc hkind
        have hc' := List.mem_cons_of_mem first hc
        exact (hline comment (hmem comment hc') hkind).breaksBefore (hlimit comment hc')
          fun other ho => hmem other (List.mem_cons_of_mem _ ho)

/-- The line comments of the body's end hide nothing. -/
theorem linesEnd_tailPieces (h : list.WellFormed source)
    (hline : ∀ comment ∈ list.comments, comment.kind = .line → list.EndsLine source comment)
    (following : Text) :
    LinesEnd source list following (list.tailPieces source (list.trivia source)) := by
  obtain ⟨before, hends⟩ := h.exists_endsAt
  have hmem : ∀ comment ∈ (list.trivia source).endComments, comment ∈ list.comments :=
    fun comment hc => hends.split ▸ List.mem_append_right _ hc
  have hall := hends.split ▸ h.inOrder.commentsFollow
  refine h.fills_tail.linesEnd (List.pairwise_append.mp hall).2.1 ?_ following
  intro comment hc hkind
  exact (hline comment (hmem comment hc) hkind).breaksBefore (nextStart_le_bodyStop _) hmem

/-- In a slot only the trailing line comments can hide anything. -/
theorem linesEnd_slotPieces (h : list.WellFormed source)
    (hline : ∀ comment ∈ list.comments, comment.kind = .line → list.EndsLine source comment)
    (hm : list.members[index]? = some member) (hs : list.shares[index]? = some share)
    (slot : Nat) (rest : List Nat) (behind : Text) :
    LinesEnd source list behind (list.slotPieces source (list.trivia source) slot index rest)
      ↔ share.trailingOf .line = []
        ∨ '\n' ∉ list.followingText source (list.trivia source) slot rest ∨ behind.BreaksLine := by
  have hbound : ∀ comment ∈ share.trailingOf .line,
      source.isBoundary comment.span.start = true := fun comment hc =>
    (h.fits _ (comment_mem_tokens (mem_of_mem_share hs
      (List.mem_append_right _ (List.mem_filter.mp hc).1)))).1
  have hkind : ∀ comment ∈ share.trailingOf .line, comment.kind = .line :=
    fun _ hc => MemberComments.kind_of_mem_trailingOf hc
  have hblocks : ∀ following,
      LinesEnd source list following ((share.trailingOf .block).flatMap (spacedPieces source)) := by
    intro following
    refine linesEnd_of_forall fun comment hc => ?_
    obtain ⟨other, ho, hc⟩ := List.mem_flatMap.mp hc
    obtain rfl : comment = other := by simpa [spacedPieces] using hc
    exact MemberComments.kind_of_mem_trailingOf ho
  have hseparator : ∀ following, LinesEnd source list following (list.separatorPieces rest) := by
    intro following
    refine linesEnd_of_forall fun comment hc => ?_
    unfold separatorPieces at hc
    split at hc <;> simp at hc
  have hlines : LinesEnd source list behind (linePieces source (list.body source).lineEnd
        (list.followingText source (list.trivia source) slot rest) (share.trailingOf .line))
      ↔ share.trailingOf .line = []
        ∨ '\n' ∉ list.followingText source (list.trivia source) slot rest ∨ behind.BreaksLine :=
    linesEnd_linePieces (Text.blank_lineEnd _) (Text.mem_lineEnd _) hbound hkind
  rw [slotPieces_eq hm hs, ← hlines]
  simp [LinesEnd, linesEnd_append, trailingPieces, h.linesEnd_leadingPieces hline hm hs, hblocks,
    hseparator]

/-- **The slots hide nothing but, perhaps, the end of the body.** -/
theorem linesEnd_slotsPieces (h : list.WellFormed source)
    (hline : ∀ comment ∈ list.comments, comment.kind = .line → list.EndsLine source comment)
    (slot : Nat) (hlt : ∀ index ∈ order, index < list.members.length) :
    LinesEnd source list ((list.trivia source).tail source list)
        (list.slotsPieces source (list.trivia source) slot order)
      ↔ ¬ list.HidesEnd source order := by
  induction order generalizing slot with
  | nil => simp [slotsPieces, LinesEnd, HidesEnd, lastLineComments]
  | cons index rest ih =>
      obtain ⟨member, share, hm, hs⟩ := exists_of_lt (hlt index (by simp))
      rw [slotsPieces, linesEnd_append, h.linesEnd_slotPieces hline hm hs]
      cases rest with
      | nil =>
          simp only [slotsPieces, LinesEnd, render_nil, List.nil_append, and_true, followingText,
            List.isEmpty_nil, if_true, HidesEnd, lastLineComments, List.getLast?_singleton,
            Option.bind_some, hs, Option.map_some, Option.getD_some]
          by_cases hlines : share.trailingOf .line = []
          · simp [hlines]
          · simp [hlines, Classical.or_iff_not_imp_left]
      | cons next rest =>
          have hnext := ih (slot + 1) fun i hi => hlt i (List.mem_cons_of_mem _ hi)
          obtain ⟨member', share', hm', hs'⟩ := exists_of_lt (hlt next (by simp))
          -- what follows begins with the white space in front of the next slot
          have hbreak : '\n' ∉ (list.trivia source).indentation source (slot + 1)
              ∨ (render source list
                  (list.slotsPieces source (list.trivia source) (slot + 1) (next :: rest))
                ++ (list.trivia source).tail source list).BreaksLine := by
            rw [slotsPieces, slotPieces_eq hm' hs']
            simp only [List.cons_append, render_cons, Piece.text, List.append_assoc]
            by_cases hf : '\n' ∈ (list.trivia source).indentation source (slot + 1)
            · exact .inr ((Text.breaksLine_append (h.blank_indentation _)).mpr (.inl hf))
            · exact .inl hf
          have hlast : list.HidesEnd source (index :: next :: rest)
              = list.HidesEnd source (next :: rest) := by
            simp [HidesEnd, lastLineComments, List.getLast?_cons_cons]
          rw [hnext, hlast]
          exact ⟨fun hall => hall.2, fun hall => ⟨.inr hbreak, hall⟩⟩

end WellFormed

/-- **When a rebuilt body hides nothing.** In a well-formed list whose line comments are followed by
white space with a line feed, the pieces of a body rebuilt in any order have a line feed behind every
line comment before anything but white space, exactly unless the end of the body gets hidden. -/
theorem forall_breaksLine_iff_not_hidesEnd (h : list.WellFormed source)
    (hline : ∀ comment ∈ list.comments, comment.kind = .line → list.EndsLine source comment)
    (hp : order.Perm (List.range list.members.length)) :
    render source list (list.pieces source order)
        = list.rebuildBody source (list.trivia source) order
      ∧ ((∀ before comment behind, list.pieces source order = before ++ .comment comment :: behind →
          comment.kind = .line → (render source list behind).BreaksLine)
        ↔ ¬ list.HidesEnd source order) := by
  refine ⟨h.render_pieces order, ?_⟩
  have hlt := forall_lt_of_perm_range hp
  have htail : render source list (list.tailPieces source (list.trivia source))
      = (list.trivia source).tail source list := h.fills_tail.render list
  rw [← linesEnd_iff, pieces, linesEnd_append, List.append_nil, htail,
    h.linesEnd_slotsPieces hline 0 hlt]
  exact and_iff_left (h.linesEnd_tailPieces hline [])

theorem forall_breaksLine_sample :
    sample.WellFormed sampleSource
      ∧ (∀ comment ∈ sample.comments, comment.kind = .line → sample.EndsLine sampleSource comment)
      ∧ ∀ before comment behind,
          sample.pieces sampleSource [1, 0] = before ++ .comment comment :: behind →
          comment.kind = .line → (render sampleSource sample behind).BreaksLine := by
  have hwf : sample.WellFormed sampleSource := by decide +kernel
  have hline : ∀ comment ∈ sample.comments, comment.kind = .line →
      sample.EndsLine sampleSource comment := by decide +kernel
  have hends : ¬ sample.HidesEnd sampleSource [1, 0] := by
    unfold HidesEnd
    decide +kernel
  exact ⟨hwf, hline, (forall_breaksLine_iff_not_hidesEnd hwf hline (by decide)).2.mpr hends⟩

/-- A body whose end begins with a comment on the last row of a trailing one. -/
def crowdedSource : Text :=
  "interface U \x7b\n  b: T; // b\n  a: T; /* x\n  y */ /* e */\n\x7d".toList

/-- The members and comments of `crowdedSource`. -/
def crowded : MemberList where
  kind := .interface
  opening := ⟨12, 13, 0, 0⟩
  closing := ⟨55, 56, 4, 4⟩
  parent := ⟨0, 56, 0, 4⟩
  members :=
    [{ kind := .property, name := some "b", optional := false
       declaration := ⟨16, 20, 1, 1⟩, terminator := some ⟨20, 21, 1, 1⟩ },
     { kind := .property, name := some "a", optional := false
       declaration := ⟨29, 33, 2, 2⟩, terminator := some ⟨33, 34, 2, 2⟩ }]
  comments := [⟨.line, ⟨22, 26, 1, 1⟩⟩, ⟨.block, ⟨35, 46, 2, 3⟩⟩, ⟨.block, ⟨47, 54, 3, 3⟩⟩]
  stringValued := false

/-- In order, the comment at the end of `crowded` is hidden by the one of the member before it. -/
theorem rebuildBody_hides_end :
    crowded.WellFormed crowdedSource
      ∧ (∀ comment ∈ crowded.comments, comment.kind = .line →
          crowded.EndsLine crowdedSource comment)
      ∧ crowded.rebuildBody crowdedSource (crowded.trivia crowdedSource) [1, 0]
        = "\n  a: T /* x\n  y */;\n  b: T; // b /* e */\n".toList
      ∧ ¬ ∀ before comment behind,
          crowded.pieces crowdedSource [1, 0] = before ++ .comment comment :: behind →
          comment.kind = .line → (render crowdedSource crowded behind).BreaksLine := by
  refine ⟨by decide +kernel, by decide +kernel, by decide +kernel, fun hall => ?_⟩
  have hsplit : crowded.pieces crowdedSource [1, 0]
      = (crowded.pieces crowdedSource [1, 0]).take 9 ++ .comment ⟨.line, ⟨22, 26, 1, 1⟩⟩ ::
        (crowded.pieces crowdedSource [1, 0]).drop 10 := by decide +kernel
  have hbreak := hall _ _ _ hsplit rfl
  revert hbreak
  decide +kernel

end MemberList

end KeyOrder
