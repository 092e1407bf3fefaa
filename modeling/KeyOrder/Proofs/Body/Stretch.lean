import KeyOrder.Proofs.Body.Attribution

/-!
# Stretches of comments

Two stretches of a well-formed body hold comments and white space and nothing else: the one in front
of a declaration from its first leading comment on, and the one at the end of the body. The first
holds the leading comments of the member, because the member before ends where its first leading
comment starts at the latest; the second holds the comments of the body's end, because it begins
behind everything that belongs to a member (`MemberList.EndsAt`).
-/

namespace KeyOrder

namespace Body

/-- **The comments fill a stretch of the source**: in front of each of them, and behind the last
one, there is white space and nothing else. -/
def Fills (source : Text) (stop : Nat) : Nat → List Comment → Prop
  | start, [] =>
    source.isBoundary start = true ∧ start ≤ stop ∧ (source.slice start stop).Blank
  | start, comment :: rest =>
    source.isBoundary start = true ∧ start ≤ comment.span.start
      ∧ source.isBoundary comment.span.start = true ∧ comment.span.start ≤ comment.span.stop
      ∧ (source.slice start comment.span.start).Blank ∧ Fills source stop comment.span.stop rest

variable {source : Text} {stop start : Nat} {comments : List Comment}

theorem Fills.boundary (h : Fills source stop start comments) : source.isBoundary start = true := by
  cases comments <;> exact h.1

theorem Fills.le (h : Fills source stop start comments) : start ≤ stop := by
  induction comments generalizing start with
  | nil => exact h.2.1
  | cons comment rest ih =>
      obtain ⟨-, hstart, -, hlen, -, hrest⟩ := h
      have := ih hrest
      omega

end Body

namespace MemberList

/-- **Where the end of the body begins**: behind every token of a member and behind every comment
that belongs to one, and before every other comment. -/
structure EndsAt (list : MemberList) (source : Text) (before rest : List Comment) (start : Nat) :
    Prop where
  split : list.comments = before ++ rest
  boundary : source.isBoundary start = true
  inside : list.bodyStart ≤ start ∧ start ≤ list.bodyStop
  members : ∀ token ∈ Body.memberTokens list.members, token.stop ≤ start
  before : ∀ comment ∈ before, comment.span.stop ≤ start
  rest : ∀ comment ∈ rest, start ≤ comment.span.start

end MemberList

namespace MemberList.WellFormed

open Body

variable {list : MemberList} {source : Text}

/-- Comments in order fill a stretch of the body that no other token of the list meets. -/
theorem fills (h : list.WellFormed source) {start stop : Nat} {comments : List Comment}
    (hbound : source.isBoundary start = true) (hbound' : source.isBoundary stop = true)
    (hle : start ≤ stop) (hlo : list.bodyStart ≤ start) (hhi : stop ≤ list.bodyStop)
    (hmem : ∀ comment ∈ comments, comment ∈ list.comments
      ∧ start ≤ comment.span.start ∧ comment.span.stop ≤ stop)
    (hfollow : comments.Pairwise fun a b => a.span.Before b.span)
    (hothers : ∀ token ∈ list.tokens, token ∈ comments.map Comment.span
      ∨ token.stop ≤ start ∨ stop ≤ token.start) :
    Fills source stop start comments := by
  induction comments generalizing start with
  | nil =>
      refine ⟨hbound, hle, h.gap hbound hbound' hle hlo hhi ?_⟩
      intro token ht
      rcases hothers token ht with hin | hout
      · simp at hin
      · exact hout
  | cons comment rest ih =>
      obtain ⟨hc, hfrom, hto⟩ := hmem comment List.mem_cons_self
      obtain ⟨hhead, hrest⟩ := List.pairwise_cons.mp hfollow
      obtain ⟨hstart, hstop, -⟩ := h.fits _ (comment_mem_tokens hc)
      have hlen := (h.inOrder.properComments comment hc).1
      refine ⟨hbound, hfrom, hstart, Nat.le_of_lt hlen, ?_, ?_⟩
      · refine h.gap hbound hstart hfrom hlo (by omega) ?_
        intro token ht
        rcases hothers token ht with hin | hleft | hright
        · rcases List.mem_cons.mp (List.map_cons ▸ hin) with rfl | hin
          · exact .inr (Nat.le_refl _)
          · obtain ⟨later, hlater, rfl⟩ := List.mem_map.mp hin
            have := (hhead later hlater).1
            exact .inr (by omega)
        · exact .inl hleft
        · exact .inr (by omega)
      · refine ih hstop hto (by omega) ?_ hrest ?_
        · intro later hlater
          obtain ⟨hc', -, hto'⟩ := hmem later (List.mem_cons_of_mem _ hlater)
          exact ⟨hc', (hhead later hlater).1, hto'⟩
        · intro token ht
          rcases hothers token ht with hin | hleft | hright
          · rcases List.mem_cons.mp (List.map_cons ▸ hin) with rfl | hin
            · exact .inr (.inl (Nat.le_refl _))
            · exact .inl hin
          · exact .inr (.inl (by omega))
          · exact .inr (.inr hright)

/-- **The leading comments of a member fill the stretch in front of its declaration.** -/
theorem fills_leading (h : list.WellFormed source) {index : Nat} {member : Member}
    {share : MemberComments} (hm : list.members[index]? = some member)
    (hs : list.shares[index]? = some share)
    {first : Comment} {rest : List Comment} (hl : share.leading = first :: rest) :
    Fills source member.declaration.start first.span.stop rest := by
  obtain ⟨before, behind, hshare⟩ := MemberComments.exists_share none h.inOrder hm hs
  have hmember := List.mem_of_getElem? hm
  have hsplit : list.comments = before ++ (first :: rest ++ (share.trailing ++ behind)) :=
    hl ▸ hshare.split
  have hfollow : (before ++ (first :: rest ++ (share.trailing ++ behind))).Pairwise
      fun a b => a.span.Before b.span := hsplit ▸ h.inOrder.commentsFollow
  obtain ⟨-, hown, hcross⟩ := List.pairwise_append.mp hfollow
  have hlead := List.pairwise_cons.mp (List.pairwise_append.mp hown).1
  have hmem : ∀ comment ∈ first :: rest, comment ∈ list.comments := by
    intro comment hc
    rw [hsplit]
    simp only [List.mem_append]
    exact .inr (.inl hc)
  have hbefore : ∀ comment ∈ first :: rest, comment.span.stop ≤ member.declaration.start :=
    fun comment hc => (h.inOrder.before_declaration hmember (hmem comment hc)
      (hshare.leading_starts comment (hl ▸ hc))).1
  have hfirst := h.fits _ (comment_mem_tokens (hmem first List.mem_cons_self))
  have hdecl := h.fits _ (token_mem_tokens hmember member.declaration_mem_tokens)
  have hproper := (h.inOrder.properComments first (hmem first List.mem_cons_self)).1
  have hinside := h.inside _ (comment_mem_tokens (hmem first List.mem_cons_self))
  have hinside' := h.inside _ (token_mem_tokens hmember member.declaration_mem_tokens)
  have hdeclProper := (h.inOrder.declaration_proper hmember).1
  refine h.fills hfirst.2.1 hdecl.1 (hbefore first List.mem_cons_self) (by omega) (by omega) ?_
    hlead.2 ?_
  · intro comment hc
    exact ⟨hmem comment (List.mem_cons_of_mem _ hc), (hlead.1 comment hc).1,
      hbefore comment (List.mem_cons_of_mem _ hc)⟩
  · intro token ht
    rcases List.mem_append.mp ht with htoken | hcomment
    · -- a token of a member: the one before ends in front of every leading comment
      rcases h.inOrder.token_around hm htoken with ⟨previous, hindex, hprevious, hstop⟩ | hstart
      · have hleads := hshare.leading_leads first (hl ▸ List.mem_cons_self)
        rw [if_neg hindex, hprevious] at hleads
        simp only [MemberComments.leads, Bool.and_eq_true, decide_eq_true_eq] at hleads
        exact .inr (.inl (by omega))
      · exact .inr (.inr hstart)
    · obtain ⟨comment, hc, rfl⟩ := List.mem_map.mp hcomment
      rw [hsplit] at hc
      simp only [List.mem_append, List.mem_cons] at hc
      rcases hc with hc | ((rfl | hc) | hc)
      · have := (hcross comment hc first (by simp)).1
        exact .inr (.inl (by omega))
      · exact .inr (.inl (Nat.le_refl _))
      · exact .inl (List.mem_map_of_mem hc)
      · have hstarts : MemberComments.startsBefore member comment = false :=
          hc.elim (hshare.trailing_starts comment) (hshare.behind_starts comment)
        have hin : comment ∈ list.comments := by
          rw [hsplit]
          simp only [List.mem_append]
          exact .inr (.inr hc)
        have := (h.inOrder.behind_declaration hmember hin hstarts).1
        exact .inr (.inr (by omega))

/-! ## The end of the body -/

theorem exists_endsAt (h : list.WellFormed source) :
    ∃ before, EndsAt list source before (list.trivia source).endComments
      (list.trivia source).tailStart := by
  simp only [trivia]
  cases hlast : list.members.getLast? with
  | none =>
      have hnil : list.members = [] := List.getLast?_eq_none_iff.mp hlast
      refine ⟨[], ?_, ?_, ?_, ?_, ?_, ?_⟩ <;>
        simp only [tailStart, hnil, MemberComments.attach, List.getLast?_nil, List.nil_append,
          List.not_mem_nil, false_implies, implies_true, memberTokens, List.flatMap_nil]
      · exact h.start
      · exact ⟨Nat.le_refl _, h.braces⟩
      · exact fun comment hc => (h.inside _ (comment_mem_tokens hc)).1
  | some last =>
      obtain ⟨share, before, hshare, hsplit, hbefore, -⟩ :=
        MemberComments.exists_end none h.inOrder hlast
      have hmember := List.mem_of_getLast? hlast
      have htoken := token_mem_tokens hmember last.lastToken_mem_tokens
      have htrailing : share.trailing.Sublist list.comments := by
        have hsub := (List.sublist_append_left share.trailing
          (MemberComments.attach none list.members list.comments).2).trans
          (List.sublist_append_right before _)
        rwa [← hsplit] at hsub
      have hcomment : ∀ comment ∈ share.trailing, comment.span ∈ list.tokens :=
        fun comment hc => comment_mem_tokens (htrailing.subset hc)
      have hle : last.lastToken.stop ≤ list.tailStart list.shares := lastToken_le_tailStart hlast
      have hcases := tailStart_eq_or hlast hshare
      have hproper := h.inOrder.proper _
        (mem_memberTokens.mpr ⟨last, hmember, last.lastToken_mem_tokens⟩)
      refine ⟨before ++ share.trailing, by rw [List.append_assoc]; exact hsplit, ?_, ⟨?_, ?_⟩, ?_,
        ?_, ?_⟩
      · rcases hcases with heq | ⟨final, hfinal, heq⟩
        · exact heq ▸ (h.fits _ htoken).2.1
        · exact heq ▸ (h.fits _ (hcomment final hfinal)).2.1
      · exact Nat.le_trans (h.inside _ htoken).1 (Nat.le_trans (Nat.le_of_lt hproper.1) hle)
      · rcases hcases with heq | ⟨final, hfinal, heq⟩
        · exact heq ▸ (h.inside _ htoken).2
        · exact heq ▸ (h.inside _ (hcomment final hfinal)).2
      · exact fun token ht => Nat.le_trans (h.inOrder.stop_le_last hlast ht) hle
      · intro comment hc
        rcases List.mem_append.mp hc with hc | hc
        · have hin : comment ∈ list.comments := hsplit ▸ List.mem_append_left _ hc
          have hstop := (h.inOrder.before_declaration hmember hin (hbefore comment hc)).1
          have hdecl := (h.inOrder.declaration_proper hmember).1
          have hdecl' := h.inOrder.stop_le_lastToken hmember last.declaration_mem_tokens
          show comment.span.stop ≤ list.tailStart list.shares
          omega
        · exact trailing_le_tailStart h.inOrder hlast hshare htrailing hc
      · exact fun comment hc => tailStart_le_endComments h.inOrder hlast hc

/-- **The comments of the body's end fill the stretch in front of the closing brace.** -/
theorem fills_tail (h : list.WellFormed source) :
    Fills source list.bodyStop (list.trivia source).tailStart (list.trivia source).endComments := by
  obtain ⟨before, hends⟩ := h.exists_endsAt
  have hsub : ∀ comment ∈ (list.trivia source).endComments, comment ∈ list.comments :=
    fun comment hc => hends.split ▸ List.mem_append_right _ hc
  refine h.fills hends.boundary h.stop hends.inside.2 hends.inside.1 (Nat.le_refl _) ?_ ?_ ?_
  · intro comment hc
    exact ⟨hsub comment hc, hends.rest comment hc,
      (h.inside _ (comment_mem_tokens (hsub comment hc))).2⟩
  · have hfollow := hends.split ▸ h.inOrder.commentsFollow
    exact (List.pairwise_append.mp hfollow).2.1
  · intro token ht
    rcases List.mem_append.mp ht with htoken | hcomment
    · exact .inr (.inl (hends.members token htoken))
    · obtain ⟨comment, hc, rfl⟩ := List.mem_map.mp hcomment
      rw [hends.split] at hc
      rcases List.mem_append.mp hc with hc | hc
      · exact .inr (.inl (hends.before comment hc))
      · exact .inl (List.mem_map_of_mem hc)

end MemberList.WellFormed

end KeyOrder
