import KeyOrder.Proofs.Body.Attribution

/-!
# The comments of a body, shared out

Sharing the comments of a body out among its members is a **partition that keeps their order**
(`MemberList.Partitioned`): read member after member, the leading comments before the trailing ones
and the comments of the end last, they are the comments of the list, and each of them stands where
its name says. The leading comments of a member stand behind the last token of the member before it
and its trailing ones in front of the next declaration; the end begins behind everything that belongs
to the last member.

Of the body this asks only that its tokens are in order inside the braces. The rows they stand on
decide to whom a comment goes, and never whether it has a place.
-/

namespace KeyOrder

namespace MemberComments

open Body

variable {previous : Option Member} {members : List Member} {comments : List Comment}

/-- What trails a member that is not the last one starts before the next declaration. -/
theorem trailing_startsBefore_next {index : Nat} {next : Member} {share : MemberComments}
    (hn : members[index + 1]? = some next)
    (hs : (attach previous members comments).1[index]? = some share) :
    ∀ comment ∈ share.trailing, startsBefore next comment = true := by
  fun_induction attach previous members comments generalizing index with
  | case1 => simp at hn
  | case2 previous member comments leading => simp at hn
  | case3 previous member second members comments leading behind trailing others rest heq =>
      rename_i ih
      cases index with
      | zero =>
          simp only [List.getElem?_cons_zero, List.getElem?_cons_succ, Option.some.injEq] at hn hs
          subst hn hs
          intro comment hc
          exact List.all_eq_true.mp List.all_takeWhile comment (List.mem_filter.mp hc).1
      | succ index =>
          rw [heq] at ih
          exact ih hn hs

end MemberComments

namespace MemberList

/-- Where the stretch in front of a member begins: behind the last token of the member before it,
or behind the opening brace. -/
def gapStart (list : MemberList) : Nat → Nat
  | 0 => list.bodyStart
  | index + 1 => (list.members[index]?.map fun member => member.lastToken.stop).getD list.bodyStart

/-- Where the stretch behind a member ends: at the next declaration, or at the closing brace. -/
def gapStop (list : MemberList) (index : Nat) : Nat :=
  (list.members[index + 1]?.map fun member => member.declaration.start).getD list.bodyStop

/-- **The comments of a list are shared out in their order**, and each stands in the place of its
share. -/
structure Partitioned (list : MemberList) (trivia : BodyTrivia) : Prop where
  comments : (trivia.members.flatMap fun own => own.leading ++ own.trailing) ++ trivia.endComments
    = list.comments
  shares : trivia.members.length = list.members.length
  leading : ∀ {index member own}, list.members[index]? = some member →
    trivia.members[index]? = some own → ∀ comment ∈ own.leading,
      list.gapStart index ≤ comment.span.start ∧ comment.span.stop ≤ member.declaration.start
  trailing : ∀ {index member own}, list.members[index]? = some member →
    trivia.members[index]? = some own → ∀ comment ∈ own.trailing,
      member.declaration.stop ≤ comment.span.start ∧ comment.span.stop ≤ list.gapStop index
  endComments : ∀ comment ∈ trivia.endComments, trivia.tailStart ≤ comment.span.start
  lastToken : ∀ last, list.members.getLast? = some last → last.lastToken.stop ≤ trivia.tailStart
  lastTrailing : ∀ own, trivia.members.getLast? = some own →
    ∀ comment ∈ own.trailing, comment.span.stop ≤ trivia.tailStart

section Partition

open Body

variable {list : MemberList} {source : Text} {index : Nat} {member : Member}
  {share : MemberComments}

/-- The shares, with the white space in front of the slots left out. -/
theorem map_toMemberComments_trivia (list : MemberList) (source : Text) :
    (list.trivia source).members.map MemberTrivia.toMemberComments = list.shares := by
  have hlength : list.shares.length = list.members.length := MemberComments.length_attach _ _ _
  refine List.ext_getElem ?_ fun index _ _ => ?_
  · rw [List.length_map, hlength]
    simp only [trivia, List.length_zipWith, MemberComments.length_attach, Nat.min_self]
  · simp only [trivia, List.getElem_map, List.getElem_zipWith]
    rfl

/-- A leading comment stands between the member before and its own declaration. -/
theorem leading_in_gap (h : InOrder list.members list.comments)
    (hinside : ∀ comment ∈ list.comments, list.bodyStart ≤ comment.span.start)
    (hm : list.members[index]? = some member) (hs : list.shares[index]? = some share)
    {comment : Comment} (hc : comment ∈ share.leading) :
    list.gapStart index ≤ comment.span.start
      ∧ comment.span.stop ≤ member.declaration.start := by
  obtain ⟨before, behind, hshare⟩ := MemberComments.exists_share none h hm hs
  have hmem := mem_of_mem_share hs (List.mem_append_left _ hc)
  refine ⟨?_, (h.before_declaration (List.mem_of_getElem? hm) hmem
    (hshare.leading_starts comment hc)).1⟩
  cases index with
  | zero => exact hinside comment hmem
  | succ index =>
      obtain ⟨hlen, -⟩ := List.getElem?_eq_some_iff.mp hm
      have hprevious : list.members[index]? = some list.members[index] :=
        List.getElem?_eq_getElem (by omega)
      have hleads := hshare.leading_leads comment hc
      rw [if_neg (Nat.succ_ne_zero index), Nat.add_sub_cancel, hprevious] at hleads
      simp only [MemberComments.leads, Bool.and_eq_true, decide_eq_true_eq] at hleads
      simp only [gapStart, hprevious, Option.map_some, Option.getD_some]
      exact hleads.1

/-- A trailing comment stands between its own declaration and the next one. -/
theorem trailing_in_gap (h : InOrder list.members list.comments)
    (hinside : ∀ comment ∈ list.comments, comment.span.stop ≤ list.bodyStop)
    (hm : list.members[index]? = some member) (hs : list.shares[index]? = some share)
    {comment : Comment} (hc : comment ∈ share.trailing) :
    member.declaration.stop ≤ comment.span.start ∧ comment.span.stop ≤ list.gapStop index := by
  obtain ⟨before, behind, hshare⟩ := MemberComments.exists_share none h hm hs
  have hmem := mem_of_mem_share hs (List.mem_append_right _ hc)
  refine ⟨(h.behind_declaration (List.mem_of_getElem? hm) hmem
    (hshare.trailing_starts comment hc)).1, ?_⟩
  unfold gapStop
  cases hn : list.members[index + 1]? with
  | none => exact hinside comment hmem
  | some next =>
      have hstarts := MemberComments.trailing_startsBefore_next hn hs comment hc
      exact (h.before_declaration (List.mem_of_getElem? hn) hmem hstarts).1

/-- What trails the last member ends before the end of the body begins. -/
theorem lastTrailing_le_tailStart (h : InOrder list.members list.comments)
    (hs : list.shares.getLast? = some share) {comment : Comment} (hc : comment ∈ share.trailing) :
    comment.span.stop ≤ list.tailStart list.shares := by
  cases hlast : list.members.getLast? with
  | none => simp [shares, List.getLast?_eq_none_iff.mp hlast, MemberComments.attach] at hs
  | some last =>
      obtain ⟨own, before, hown, hends, -⟩ := MemberComments.exists_end none h hlast
      rw [hs] at hown
      cases hown
      refine trailing_le_tailStart h hlast hs ?_ hc
      rw [hends]
      exact (List.sublist_append_left _ _).trans (List.sublist_append_right _ _)

/-- **Sharing out the comments of a body in order is a partition that keeps their order.** -/
theorem trivia_partitioned (source : Text) (horder : InOrder list.members list.comments)
    (hinside : ∀ token ∈ list.tokens, list.bodyStart ≤ token.start ∧ token.stop ≤ list.bodyStop) :
    list.Partitioned (list.trivia source) := by
  have hcomments : ∀ comment ∈ list.comments,
      list.bodyStart ≤ comment.span.start ∧ comment.span.stop ≤ list.bodyStop :=
    fun comment hc => hinside _ (List.mem_append_right _ (List.mem_map_of_mem hc))
  have hshares := map_toMemberComments_trivia list source
  have hsplit := MemberComments.attach_flatMap none horder
  rw [MemberComments.unclaimed_none, List.nil_append] at hsplit
  refine ⟨?_, ?_, ?_, ?_, ?_, fun last => lastToken_le_tailStart, ?_⟩
  · have hall : ((list.trivia source).members.flatMap fun own => own.leading ++ own.trailing)
        = list.shares.flatMap MemberComments.all := by
      rw [← hshares, List.flatMap_map]
      rfl
    rw [hall]
    exact hsplit
  · have hlength : list.shares.length = list.members.length := MemberComments.length_attach _ _ _
    rwa [← hshares, List.length_map] at hlength
  · intro index member own hm hown comment hc
    obtain ⟨_, share, -, hs, rfl⟩ := exists_share_of_trivia hown
    exact leading_in_gap horder (fun comment hc => (hcomments comment hc).1) hm hs hc
  · intro index member own hm hown comment hc
    obtain ⟨_, share, -, hs, rfl⟩ := exists_share_of_trivia hown
    exact trailing_in_gap horder (fun comment hc => (hcomments comment hc).2) hm hs hc
  · intro comment hc
    cases hlast : list.members.getLast? with
    | some last => exact tailStart_le_endComments horder hlast hc
    | none =>
        have hnil : list.members = [] := List.getLast?_eq_none_iff.mp hlast
        have hstart : (list.trivia source).tailStart = list.bodyStart := by
          simp [trivia, tailStart, hnil]
        exact hstart ▸ (hcomments comment (hsplit ▸ List.mem_append_right _ hc)).1
  · intro own hown comment hc
    have hshare : list.shares.getLast? = some own.toMemberComments := by
      rw [← hshares, List.getLast?_map, hown, Option.map_some]
    exact lastTrailing_le_tailStart horder hshare hc

end Partition

/-- A body with a comment in every place a comment can have. -/
def surroundedSource : Text := "\x7b/*h*/b/*s*/;/*t*/\n/*l*/a/*u*/\n/*e*/\x7d".toList

/-- The members and comments of `surroundedSource`. -/
def surrounded : MemberList where
  kind := .interface
  opening := ⟨0, 1, 0, 0⟩
  closing := ⟨36, 37, 2, 2⟩
  parent := ⟨0, 37, 0, 2⟩
  members :=
    [{ kind := .property, name := some "b", optional := false
       declaration := ⟨6, 7, 0, 0⟩, terminator := some ⟨12, 13, 0, 0⟩ },
     { kind := .property, name := some "a", optional := false
       declaration := ⟨24, 25, 1, 1⟩, terminator := none }]
  comments := [⟨.block, ⟨1, 6, 0, 0⟩⟩, ⟨.block, ⟨7, 12, 0, 0⟩⟩, ⟨.block, ⟨13, 18, 0, 0⟩⟩,
    ⟨.block, ⟨19, 24, 1, 1⟩⟩, ⟨.block, ⟨25, 30, 1, 1⟩⟩, ⟨.block, ⟨31, 36, 2, 2⟩⟩]
  stringValued := false

/-- The comments on both sides of a separator trail, the one on the row below leads, and the one
below the last row is left to the end. -/
theorem trivia_partitioned_surrounded :
    Body.InOrder surrounded.members surrounded.comments
      ∧ (∀ token ∈ surrounded.tokens,
          surrounded.bodyStart ≤ token.start ∧ token.stop ≤ surrounded.bodyStop)
      ∧ surrounded.Partitioned (surrounded.trivia surroundedSource)
      ∧ (surrounded.trivia surroundedSource).members.map (fun own =>
          (own.leading.map (·.span.start), own.trailing.map (·.span.start)))
        = [([1], [7, 13]), ([19], [25])]
      ∧ (surrounded.trivia surroundedSource).tailStart = 30 := by
  have horder : Body.InOrder surrounded.members surrounded.comments := by decide
  have hinside : ∀ token ∈ surrounded.tokens,
      surrounded.bodyStart ≤ token.start ∧ token.stop ≤ surrounded.bodyStop := by decide
  exact ⟨horder, hinside, trivia_partitioned surroundedSource horder hinside, by decide, by decide⟩

end MemberList

end KeyOrder
