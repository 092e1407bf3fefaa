import KeyOrder.Proofs.Body.Layout
import KeyOrder.Proofs.Order.StableSort

/-!
# Attribution of comments

What `MemberComments.attach` does with the comments of members in source order. Read member after
member, first the leading comments and then the trailing ones, and the comments of the body's end
behind them, **the shares of all members are the comments of the list in their order**: nothing is
lost, doubled or moved. The comments in front of a declaration fall into two stretches, those that
trail the member before and those that lead this one, because a comment behind a leading comment
leads as well (`leads_of_before`).
-/

namespace KeyOrder

namespace MemberComments

open Body

variable {previous : Option Member} {member : Member} {members : List Member}
  {comments : List Comment}

/-- A comment behind a leading comment of the same member leads it too: it starts no earlier, and
on no earlier row, but still on or above the row of the declaration. -/
theorem leads_of_before (h : InOrder members comments) (hm : member ∈ members) {a b : Comment}
    (ha : a ∈ comments) (hb : b ∈ comments) (hs : startsBefore member b = true)
    (hab : a.span.Before b.span) (hl : leads previous member a = true) :
    leads previous member b = true := by
  cases previous with
  | none => rfl
  | some previous =>
      have hproper := h.properComments a ha
      have hproper' := h.properComments b hb
      have hdecl := h.before_declaration hm hb hs
      simp only [Span.Before, Span.Proper] at *
      simp only [leads, Bool.and_eq_true, decide_eq_true_eq, Bool.or_eq_true, beq_iff_eq] at *
      omega

/-- The comments in front of a declaration: those of the member before, then those of this one. -/
theorem filter_leads (h : InOrder members comments) (hm : member ∈ members)
    (previous : Option Member) :
    (comments.takeWhile (startsBefore member)).filter (fun c => !leads previous member c)
      ++ (comments.takeWhile (startsBefore member)).filter (leads previous member)
      = comments.takeWhile (startsBefore member) := by
  have hsub := List.takeWhile_sublist (startsBefore member) (l := comments)
  refine filter_not_append_filter ((h.commentsFollow.sublist hsub).imp_of_mem
    fun {a b} ha hb hab => ?_)
  exact leads_of_before h hm (hsub.subset ha) (hsub.subset hb)
    (List.all_eq_true.mp List.all_takeWhile b hb) hab

/-- Comments left to the member before: they stand in front of the first declaration and do not
lead it. -/
def unclaimed (previous : Option Member) (members : List Member) (comments : List Comment) :
    List Comment :=
  match members with
  | [] => []
  | member :: _ =>
    (comments.takeWhile (startsBefore member)).filter fun comment => !leads previous member comment

@[simp] theorem unclaimed_none (members : List Member) (comments : List Comment) :
    unclaimed none members comments = [] := by
  cases members <;> simp [unclaimed, leads]

/-- All comments of a member. -/
def all (comments : MemberComments) : List Comment := comments.leading ++ comments.trailing

/-- **The shares of the members are the comments of the list in their order.** -/
theorem attach_flatMap (previous : Option Member) (h : InOrder members comments) :
    unclaimed previous members comments ++ ((attach previous members comments).1.flatMap all
      ++ (attach previous members comments).2) = comments := by
  fun_induction attach previous members comments with
  | case1 => simp [unclaimed]
  | case2 previous member comments leading behind =>
      have hgap := filter_leads h (List.mem_singleton.mpr rfl) previous
      have hbehind : behind.takeWhile (trailsLast member) ++ behind.dropWhile (trailsLast member)
          = behind := List.takeWhile_append_dropWhile
      simp only [unclaimed, all, List.flatMap_cons, List.flatMap_nil, List.append_nil,
        List.append_assoc, hbehind]
      rw [← List.append_assoc, hgap, List.takeWhile_append_dropWhile]
  | case3 previous member next members comments leading behind trailing others rest heq ih =>
      have hgap := filter_leads h List.mem_cons_self previous
      have hrec := ih (h.tail (List.dropWhile_sublist (startsBefore member)))
      rw [heq] at hrec
      simp only [unclaimed, all, List.flatMap_cons, List.append_assoc] at hrec ⊢
      rw [hrec, ← List.append_assoc, hgap, List.takeWhile_append_dropWhile]

/-- Every member gets its share. -/
@[simp] theorem length_attach (previous : Option Member) (members : List Member)
    (comments : List Comment) : (attach previous members comments).1.length = members.length := by
  fun_induction attach previous members comments with
  | case1 => rfl
  | case2 => rfl
  | case3 previous member next members comments leading behind trailing others rest heq ih =>
      rw [heq] at ih
      simp [ih]

/-- The comments that are shared out are comments of the list. -/
theorem attach_subset (previous : Option Member) (members : List Member)
    (comments : List Comment) :
    ∀ share ∈ (attach previous members comments).1, ∀ comment ∈ share.all, comment ∈ comments := by
  have hleading : ∀ (member : Member) (test : Comment → Bool) (comments : List Comment),
      ∀ comment ∈ (comments.takeWhile (startsBefore member)).filter test, comment ∈ comments :=
    fun member test comments comment hc =>
      (List.takeWhile_sublist _).subset (List.mem_filter.mp hc).1
  fun_induction attach previous members comments with
  | case1 => simp
  | case2 previous member comments leading behind =>
      rintro share hshare comment hc
      obtain rfl := List.mem_singleton.mp hshare
      rcases List.mem_append.mp hc with hc | hc
      · exact hleading member _ comments comment hc
      · exact (List.dropWhile_sublist _).subset ((List.takeWhile_sublist _).subset hc)
  | case3 previous member next members comments leading behind trailing others rest heq ih =>
      rintro share hshare comment hc
      have hbehind : ∀ comment ∈ behind, comment ∈ comments := fun comment hc =>
        (List.dropWhile_sublist _).subset hc
      rcases List.mem_cons.mp hshare with rfl | hshare
      · rcases List.mem_append.mp hc with hc | hc
        · exact hleading member _ comments comment hc
        · exact hbehind comment (hleading next _ behind comment hc)
      · exact hbehind comment (ih share (by rw [heq]; exact hshare) comment hc)

/-- **Where the comments of one member stand**: its leading comments end the comments that start
before its declaration, its trailing ones begin those that do not. -/
structure Share (previous : Option Member) (member : Member) (comments : List Comment)
    (share : MemberComments) (before behind : List Comment) : Prop where
  split : comments = before ++ (share.leading ++ (share.trailing ++ behind))
  before_starts : ∀ comment ∈ before, startsBefore member comment = true
  leading_starts : ∀ comment ∈ share.leading, startsBefore member comment = true
  leading_leads : ∀ comment ∈ share.leading, leads previous member comment = true
  trailing_starts : ∀ comment ∈ share.trailing, startsBefore member comment = false
  behind_starts : ∀ comment ∈ behind, startsBefore member comment = false

/-- From the first comment that does not start before a declaration on, none does. -/
theorem startsBefore_dropWhile (h : InOrder members comments) {comment : Comment}
    (hc : comment ∈ comments.dropWhile (startsBefore member)) :
    startsBefore member comment = false := by
  have hsub := List.dropWhile_sublist (startsBefore member) (l := comments)
  have hpair := h.commentsFollow.sublist hsub
  have hfirst := List.head?_dropWhile_not (startsBefore member) comments
  cases hd : comments.dropWhile (startsBefore member) with
  | nil => simp [hd] at hc
  | cons first rest =>
      rw [hd] at hc hpair hfirst hsub
      have hfirst' : startsBefore member first = false := by simpa using hfirst
      rcases List.mem_cons.mp hc with rfl | hrest
      · exact hfirst'
      · have hbefore := (List.pairwise_cons.mp hpair).1 comment hrest
        have hproper := h.properComments first (hsub.subset (by simp))
        simp only [Span.Before, Span.Proper] at hbefore hproper
        simp only [startsBefore, decide_eq_false_iff_not] at hfirst' ⊢
        omega

/-- The share of the first member, if its trailing comments begin the comments behind it. -/
theorem share_head (h : InOrder members comments) (hm : member ∈ members)
    (previous : Option Member) {trailing behind : List Comment}
    (hsplit : comments.dropWhile (startsBefore member) = trailing ++ behind) :
    Share previous member comments
      ⟨(comments.takeWhile (startsBefore member)).filter (leads previous member), trailing⟩
      ((comments.takeWhile (startsBefore member)).filter fun c => !leads previous member c)
      behind where
  split := by
    show comments = _ ++ (_ ++ (trailing ++ behind))
    rw [← hsplit, ← List.append_assoc, filter_leads h hm previous, List.takeWhile_append_dropWhile]
  before_starts := fun c hc =>
    List.all_eq_true.mp List.all_takeWhile c ((List.mem_filter.mp hc).1)
  leading_starts := fun c hc =>
    List.all_eq_true.mp List.all_takeWhile c ((List.mem_filter.mp hc).1)
  leading_leads := fun _ hc => (List.mem_filter.mp hc).2
  trailing_starts := fun c hc =>
    startsBefore_dropWhile h (hsplit ▸ List.mem_append_left _ hc)
  behind_starts := fun c hc =>
    startsBefore_dropWhile h (hsplit ▸ List.mem_append_right _ hc)

/-- What starts before a declaration starts before every later one. -/
theorem startsBefore_later {first later : Member} (h : InOrder (first :: members) comments)
    (hm : later ∈ members) {comment : Comment} (hs : startsBefore first comment = true) :
    startsBefore later comment = true := by
  obtain ⟨place, hplace⟩ := List.mem_iff_getElem?.mp hm
  have hfollow := h.tokens_before (Nat.zero_lt_succ place) List.getElem?_cons_zero
    (by rw [List.getElem?_cons_succ]; exact hplace) first.declaration_mem_tokens
    later.declaration_mem_tokens
  have hproper := h.declaration_proper List.mem_cons_self
  simp only [startsBefore, decide_eq_true_eq] at hs ⊢
  simp only [Span.Before, Span.Proper] at hfollow hproper
  omega

/-- **Every member's share stands where it belongs.** -/
theorem exists_share (previous : Option Member) (h : InOrder members comments) {index : Nat}
    {share : MemberComments} (hm : members[index]? = some member)
    (hs : (attach previous members comments).1[index]? = some share) :
    ∃ before behind, Share (if index = 0 then previous else members[index - 1]?) member comments
      share before behind := by
  fun_induction attach previous members comments generalizing index with
  | case1 => simp at hm
  | case2 previous first comments leading =>
      cases index with
      | succ index => simp at hm
      | zero =>
          simp only [List.getElem?_cons_zero, Option.some.injEq] at hm hs
          subst hm hs
          exact ⟨_, _, share_head h (by simp) previous List.takeWhile_append_dropWhile.symm⟩
  | case3 previous first next members comments leading behind trailing others rest heq =>
      rename_i ih
      have htail := h.tail (List.dropWhile_sublist (startsBefore first))
      cases index with
      | zero =>
          simp only [List.getElem?_cons_zero, Option.some.injEq] at hm hs
          subst hm hs
          have hbehind := attach_flatMap (some first) htail
          exact ⟨_, _, share_head h (by simp) previous hbehind.symm⟩
      | succ index =>
          simp only [List.getElem?_cons_succ] at hm hs
          obtain ⟨before, last, hshare⟩ := ih htail hm (by rw [heq]; exact hs)
          refine ⟨comments.takeWhile (startsBefore first) ++ before, last, ?_⟩
          have hprevious : (if index = 0 then some first else (next :: members)[index - 1]?)
              = (first :: next :: members)[index]? := by
            cases index <;> simp
          rw [hprevious] at hshare
          refine { hshare with split := ?_, before_starts := ?_ }
          · rw [List.append_assoc, ← hshare.split, List.takeWhile_append_dropWhile]
          · intro c hc
            rcases List.mem_append.mp hc with hfirst | hlater
            · exact startsBefore_later h (List.mem_of_getElem? hm)
                (List.all_eq_true.mp List.all_takeWhile c hfirst)
            · exact hshare.before_starts c hlater

/-! ## The end of the body -/

/-- A comment that neither starts before the last member nor trails it starts behind its last
token. -/
theorem lastToken_le_of_not_trailsLast (h : InOrder members comments) (hm : member ∈ members)
    {comment : Comment} (hc : comment ∈ comments) (hs : startsBefore member comment = false)
    (ht : trailsLast member comment = false) : member.lastToken.stop ≤ comment.span.start := by
  cases hterm : member.terminator with
  | none =>
      simp only [Member.lastToken, hterm, Option.getD_none]
      exact (h.behind_declaration hm hc hs).1
  | some terminator =>
      simp only [Member.lastToken, hterm, Option.getD_some]
      simp only [trailsLast, hterm, Option.any_some, Bool.or_eq_false_iff,
        decide_eq_false_iff_not] at ht
      have hproper := h.properComments comment hc
      have htoken : terminator ∈ memberTokens members :=
        mem_memberTokens.mpr ⟨member, hm, by simp [Member.tokens, hterm]⟩
      rcases h.apart terminator htoken comment hc with hbefore | hbefore
      · exact hbefore.1
      · have h1 := hbefore.1
        have h2 := hproper.1
        omega

/-- From the first comment behind the last member that does not trail it on, all comments stand
behind its last token. -/
theorem lastToken_le_of_dropWhile (h : InOrder members comments) (hm : member ∈ members)
    {comment : Comment} (hc : comment ∈
      (comments.dropWhile (startsBefore member)).dropWhile (trailsLast member)) :
    member.lastToken.stop ≤ comment.span.start := by
  have hsub := List.dropWhile_sublist (startsBefore member) (l := comments)
  have hsub' := List.dropWhile_sublist (trailsLast member)
    (l := comments.dropWhile (startsBefore member))
  have hpair := (h.commentsFollow.sublist hsub).sublist hsub'
  have hfirst := List.head?_dropWhile_not (trailsLast member)
    (comments.dropWhile (startsBefore member))
  cases hd : (comments.dropWhile (startsBefore member)).dropWhile (trailsLast member) with
  | nil => simp [hd] at hc
  | cons first rest =>
      rw [hd] at hc hpair hfirst hsub'
      have hmem := hsub'.subset List.mem_cons_self
      have hstart := lastToken_le_of_not_trailsLast h hm (hsub.subset hmem)
        (startsBefore_dropWhile h hmem) (by simpa using hfirst)
      rcases List.mem_cons.mp hc with rfl | hrest
      · exact hstart
      · have hbefore := (List.pairwise_cons.mp hpair).1 comment hrest
        have hproper := h.properComments first (hsub.subset hmem)
        exact Nat.le_trans hstart (Nat.le_trans (Nat.le_of_lt hproper.1) hbefore.1)

/-- **Where the comments of the body's end stand**: behind the last member with its trailing
comments, and all comments that start before its declaration come earlier. -/
theorem exists_end (previous : Option Member) (h : InOrder members comments) {last : Member}
    (hlast : members.getLast? = some last) :
    ∃ share before, (attach previous members comments).1.getLast? = some share
      ∧ comments = before ++ (share.trailing ++ (attach previous members comments).2)
      ∧ (∀ comment ∈ before, startsBefore last comment = true)
      ∧ ∀ comment ∈ (attach previous members comments).2,
          last.lastToken.stop ≤ comment.span.start := by
  fun_induction attach previous members comments with
  | case1 => simp at hlast
  | case2 previous first comments leading behind =>
      simp only [List.getLast?_singleton, Option.some.injEq] at hlast
      subst hlast
      refine ⟨_, comments.takeWhile (startsBefore first), List.getLast?_singleton, ?_, ?_, ?_⟩
      · simp only [behind, List.takeWhile_append_dropWhile]
      · exact List.all_eq_true.mp List.all_takeWhile
      · intro comment hc
        exact lastToken_le_of_dropWhile h (by simp) hc
  | case3 previous first next members comments leading behind trailing others rest heq ih =>
      have hlast' : (next :: members).getLast? = some last := by
        simpa [List.getLast?_cons_cons] using hlast
      obtain ⟨share, before, hshare, hsplit, hbefore, hend⟩ :=
        ih (h.tail (List.dropWhile_sublist _)) hlast'
      rw [heq] at hshare hsplit hend
      refine ⟨share, comments.takeWhile (startsBefore first) ++ before, ?_, ?_, ?_, hend⟩
      · cases others with
        | nil => simp at hshare
        | cons other others => simpa [List.getLast?_cons_cons] using hshare
      · rw [List.append_assoc, ← hsplit, List.takeWhile_append_dropWhile]
      · intro comment hc
        rcases List.mem_append.mp hc with hfirst | hlater
        · exact startsBefore_later h (List.mem_of_getLast? hlast')
            (List.all_eq_true.mp List.all_takeWhile comment hfirst)
        · exact hbefore comment hlater

end MemberComments

theorem forall_lt_of_perm_range {order : List Nat} {n : Nat} (hp : order.Perm (List.range n)) :
    ∀ index ∈ order, index < n :=
  fun _ hi => List.mem_range.mp (hp.subset hi)

namespace MemberList

/-- The comments of every member, in source order. -/
abbrev shares (list : MemberList) : List MemberComments :=
  (MemberComments.attach none list.members list.comments).1

theorem exists_of_lt {list : MemberList} {index : Nat} (h : index < list.members.length) :
    ∃ member share, list.members[index]? = some member ∧ list.shares[index]? = some share :=
  ⟨_, _, List.getElem?_eq_getElem h,
    List.getElem?_eq_getElem (by rw [MemberComments.length_attach]; exact h)⟩

/-- A comment of a member is a comment of the list. -/
theorem mem_of_mem_share {list : MemberList} {index : Nat} {share : MemberComments}
    (hs : list.shares[index]? = some share) {comment : Comment} (hc : comment ∈ share.all) :
    comment ∈ list.comments :=
  MemberComments.attach_subset none list.members list.comments share (List.mem_of_getElem? hs)
    comment hc

theorem trivia_getElem? {list : MemberList} (source : Text) {index : Nat} {member : Member}
    {share : MemberComments} (hm : list.members[index]? = some member)
    (hs : list.shares[index]? = some share) :
    (list.trivia source).members[index]? = some (share.withIndentation source member) := by
  simp only [MemberList.trivia, List.getElem?_zipWith, hm, hs]

/-- What is kept of a member in the trivia of the body: its share, and the white space in front of
it. -/
theorem exists_share_of_trivia {list : MemberList} {source : Text} {index : Nat}
    {trivia : MemberTrivia} (h : (list.trivia source).members[index]? = some trivia) :
    ∃ member share, list.members[index]? = some member ∧ list.shares[index]? = some share
      ∧ trivia = share.withIndentation source member := by
  simp only [MemberList.trivia, List.getElem?_zipWith] at h
  split at h
  next member share hm hs =>
    exact ⟨member, share, hm, hs, (Option.some.inj h).symm⟩
  next => simp at h

/-! ## Where the end of the body begins -/

section Tail

variable {list : MemberList} {last : Member} {share : MemberComments}
  {shares : List MemberComments}

/-- The end of the body begins behind the last token of the last member or behind one of its
trailing comments. -/
theorem tailStart_eq_or (hlast : list.members.getLast? = some last)
    (hshare : shares.getLast? = some share) :
    list.tailStart shares = last.lastToken.stop
      ∨ ∃ final ∈ share.trailing, list.tailStart shares = final.span.stop := by
  simp only [tailStart, hlast, hshare, Option.map_some, Option.getD_some]
  cases hfinal : share.trailing.getLast? with
  | none => exact .inl (by simp)
  | some final =>
      simp only [Option.map_some, Option.getD_some]
      rcases Nat.le_total last.lastToken.stop final.span.stop with hle | hle
      · exact .inr ⟨final, List.mem_of_getLast? hfinal, Nat.max_eq_right hle⟩
      · exact .inl (Nat.max_eq_left hle)

theorem lastToken_le_tailStart (hlast : list.members.getLast? = some last) :
    last.lastToken.stop ≤ list.tailStart shares := by
  simp only [tailStart, hlast]
  exact Nat.le_max_left _ _

/-- The last of the trailing comments ends behind all others. -/
theorem trailing_le_tailStart (h : Body.InOrder list.members list.comments)
    (hlast : list.members.getLast? = some last) (hshare : shares.getLast? = some share)
    (htrailing : share.trailing.Sublist list.comments) {comment : Comment}
    (hc : comment ∈ share.trailing) : comment.span.stop ≤ list.tailStart shares := by
  have hfollow := h.commentsFollow.sublist htrailing
  obtain ⟨init, final, hconcat⟩ : ∃ init final, share.trailing = init ++ [final] :=
    ⟨_, _, (List.dropLast_concat_getLast (List.ne_nil_of_mem hc)).symm⟩
  rw [hconcat] at hc hfollow htrailing
  have hfinal : final.span.stop ≤ list.tailStart shares := by
    simp only [tailStart, hlast, hshare, Option.map_some, Option.getD_some, hconcat,
      List.getLast?_concat]
    exact Nat.le_max_right _ _
  rcases List.mem_append.mp hc with hinit | hlast'
  · have hbefore := (List.pairwise_append.mp hfollow).2.2 comment hinit final (by simp)
    have hproper := h.properComments final (htrailing.subset (by simp))
    exact Nat.le_trans hbefore.1 (Nat.le_trans (Nat.le_of_lt hproper.1) hfinal)
  · exact List.mem_singleton.mp hlast' ▸ hfinal

/-- **No comment of the end starts before the end of the body begins.** -/
theorem tailStart_le_endComments (h : Body.InOrder list.members list.comments)
    (hlast : list.members.getLast? = some last) {comment : Comment}
    (hc : comment ∈ (MemberComments.attach none list.members list.comments).2) :
    list.tailStart list.shares ≤ comment.span.start := by
  obtain ⟨share, before, hshare, hsplit, -, hend⟩ := MemberComments.exists_end none h hlast
  rcases tailStart_eq_or hlast hshare with heq | ⟨final, hfinal, heq⟩
  · exact heq ▸ hend comment hc
  · have hfollow := hsplit ▸ h.commentsFollow
    have hpair := (List.pairwise_append.mp (List.pairwise_append.mp hfollow).2.1).2.2
    exact heq ▸ (hpair final hfinal comment hc).1

end Tail

end MemberList

end KeyOrder
