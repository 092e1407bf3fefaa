import KeyOrder.Body.Trivia
import KeyOrder.Proofs.Text.Slice

/-!
# Well-formed member lists

The tokens of a member list are its declarations, its separators and its comments. A list is
*in order* if its tokens are not empty, do not overlap and stand in source order, rows included;
it is *well-formed* in a source if moreover the tokens are stretches of the body with the rows of
the source, and the body holds nothing but white space between them.

Nothing here looks at what the tokens say: a declaration may be any text at all.
-/

namespace KeyOrder

namespace Span

/-- The span ends, in bytes and in rows, before the other one starts. -/
def Before (a b : Span) : Prop := a.stop ≤ b.start ∧ a.endRow ≤ b.startRow

instance (a b : Span) : Decidable (a.Before b) := inferInstanceAs (Decidable (_ ∧ _))

/-- The span is not empty and ends on no earlier row than it starts. -/
def Proper (span : Span) : Prop := span.start < span.stop ∧ span.startRow ≤ span.endRow

instance (span : Span) : Decidable span.Proper := inferInstanceAs (Decidable (_ ∧ _))

/-- The span cuts no character of the source and knows the rows of its ends. -/
def Fits (span : Span) (source : Text) : Prop :=
  source.isBoundary span.start = true ∧ source.isBoundary span.stop = true
    ∧ span.startRow = source.rowAt span.start ∧ span.endRow = source.rowAt span.stop

instance (span : Span) (source : Text) : Decidable (span.Fits source) :=
  inferInstanceAs (Decidable (_ ∧ _))

end Span

/-- The declaration of a member and its separator. -/
def Member.tokens (member : Member) : List Span := member.declaration :: member.terminator.toList

theorem Member.declaration_mem_tokens (member : Member) : member.declaration ∈ member.tokens := by
  simp [tokens]

theorem Member.lastToken_mem_tokens (member : Member) : member.lastToken ∈ member.tokens := by
  cases h : member.terminator <;> simp [tokens, lastToken, h]

namespace Body

/-- Declarations and separators, member after member. -/
def memberTokens (members : List Member) : List Span := members.flatMap Member.tokens

/-- **Members and comments in source order**: no token is empty, the tokens of the members follow
each other, the comments follow each other, and no comment overlaps a token of a member. -/
structure InOrder (members : List Member) (comments : List Comment) : Prop where
  proper : ∀ token ∈ memberTokens members, token.Proper
  properComments : ∀ comment ∈ comments, comment.span.Proper
  membersFollow : (memberTokens members).Pairwise Span.Before
  commentsFollow : comments.Pairwise fun a b => a.span.Before b.span
  apart : ∀ token ∈ memberTokens members, ∀ comment ∈ comments,
    token.Before comment.span ∨ comment.span.Before token

instance (members : List Member) (comments : List Comment) : Decidable (InOrder members comments) :=
  decidable_of_iff
    ((∀ token ∈ memberTokens members, token.Proper) ∧ (∀ comment ∈ comments, comment.span.Proper)
      ∧ (memberTokens members).Pairwise Span.Before
      ∧ (comments.Pairwise fun a b => a.span.Before b.span)
      ∧ ∀ token ∈ memberTokens members, ∀ comment ∈ comments,
          token.Before comment.span ∨ comment.span.Before token)
    ⟨fun ⟨h1, h2, h3, h4, h5⟩ => ⟨h1, h2, h3, h4, h5⟩,
      fun h => ⟨h.proper, h.properComments, h.membersFollow, h.commentsFollow, h.apart⟩⟩

@[simp] theorem memberTokens_cons (member : Member) (members : List Member) :
    memberTokens (member :: members) = member.tokens ++ memberTokens members := rfl

theorem mem_memberTokens {members : List Member} {token : Span} :
    token ∈ memberTokens members ↔ ∃ member ∈ members, token ∈ member.tokens :=
  List.mem_flatMap

namespace InOrder

variable {member : Member} {members : List Member} {comments : List Comment} {comment : Comment}

/-- Members in front and comments anywhere may be left out. -/
theorem tail (h : InOrder (member :: members) comments) {fewer : List Comment}
    (hc : fewer.Sublist comments) : InOrder members fewer where
  proper := fun t ht => h.proper t (by simp [ht])
  properComments := fun c hmem => h.properComments c (hc.subset hmem)
  membersFollow := (List.pairwise_append.mp h.membersFollow).2.1
  commentsFollow := h.commentsFollow.sublist hc
  apart := fun t ht c hmem => h.apart t (by simp [ht]) c (hc.subset hmem)

theorem declaration_proper (h : InOrder members comments) (hm : member ∈ members) :
    member.declaration.Proper :=
  h.proper _ (mem_memberTokens.mpr ⟨member, hm, member.declaration_mem_tokens⟩)

/-- A comment that starts before a declaration ends before it. -/
theorem before_declaration (h : InOrder members comments) (hm : member ∈ members)
    (hc : comment ∈ comments) (hs : MemberComments.startsBefore member comment = true) :
    comment.span.Before member.declaration := by
  have hproper := h.declaration_proper hm
  have htoken : member.declaration ∈ memberTokens members :=
    mem_memberTokens.mpr ⟨member, hm, member.declaration_mem_tokens⟩
  rcases h.apart _ htoken comment hc with hbefore | hbefore
  · simp only [MemberComments.startsBefore, decide_eq_true_eq] at hs
    have h1 := hbefore.1
    have h2 := hproper.1
    omega
  · exact hbefore

/-- A comment that does not start before a declaration starts behind it. -/
theorem behind_declaration (h : InOrder members comments) (hm : member ∈ members)
    (hc : comment ∈ comments) (hs : MemberComments.startsBefore member comment = false) :
    member.declaration.Before comment.span := by
  have hproper := h.properComments comment hc
  have htoken : member.declaration ∈ memberTokens members :=
    mem_memberTokens.mpr ⟨member, hm, member.declaration_mem_tokens⟩
  rcases h.apart _ htoken comment hc with hbefore | hbefore
  · exact hbefore
  · simp only [MemberComments.startsBefore, decide_eq_false_iff_not] at hs
    have h1 := hbefore.1
    have h2 := hproper.1
    omega

/-- The tokens of a member stand before those of a later one. -/
theorem tokens_before (h : InOrder members comments) {i j : Nat} {earlier later : Member}
    (hij : i < j) (hi : members[i]? = some earlier) (hj : members[j]? = some later) {a b : Span}
    (ha : a ∈ earlier.tokens) (hb : b ∈ later.tokens) : a.Before b := by
  have hpair := (List.pairwise_flatMap.mp h.membersFollow).2
  obtain ⟨hilen, rfl⟩ := List.getElem?_eq_some_iff.mp hi
  obtain ⟨hjlen, rfl⟩ := List.getElem?_eq_some_iff.mp hj
  exact List.pairwise_iff_getElem.mp hpair i j hilen hjlen hij a ha b hb

/-- The tokens of a member are its declaration and, behind it, its separator. -/
theorem token_eq_or (h : InOrder members comments) (hm : member ∈ members) {token : Span}
    (ht : token ∈ member.tokens) : token = member.declaration ∨
      member.terminator = some token ∧ member.declaration.Before token := by
  have hpair := (List.pairwise_flatMap.mp h.membersFollow).1 member hm
  rcases List.mem_cons.mp ht with rfl | hterm
  · exact .inl rfl
  · exact .inr ⟨by simpa using hterm, (List.pairwise_cons.mp hpair).1 token hterm⟩

theorem declaration_le_start (h : InOrder members comments) (hm : member ∈ members) {token : Span}
    (ht : token ∈ member.tokens) : member.declaration.start ≤ token.start := by
  rcases h.token_eq_or hm ht with rfl | ⟨-, hbefore⟩
  · exact Nat.le_refl _
  · exact Nat.le_trans (Nat.le_of_lt (h.declaration_proper hm).1) hbefore.1

theorem stop_le_lastToken (h : InOrder members comments) (hm : member ∈ members) {token : Span}
    (ht : token ∈ member.tokens) : token.stop ≤ member.lastToken.stop := by
  rcases h.token_eq_or hm ht with rfl | ⟨hterm, -⟩
  · have hlast := h.token_eq_or hm member.lastToken_mem_tokens
    have hproper := h.proper _ (mem_memberTokens.mpr ⟨member, hm, member.lastToken_mem_tokens⟩)
    rcases hlast with heq | ⟨-, hbefore⟩
    · exact Nat.le_of_eq (congrArg Span.stop heq.symm)
    · exact Nat.le_trans hbefore.1 (Nat.le_of_lt hproper.1)
  · simp [Member.lastToken, hterm]

/-- **Around the declaration of a member**: a token of the list either ends no later than the member
before it, or starts no earlier than the declaration. -/
theorem token_around (h : InOrder members comments) {index : Nat}
    (hm : members[index]? = some member) {token : Span} (ht : token ∈ memberTokens members) :
    (∃ previous, index ≠ 0 ∧ members[index - 1]? = some previous
        ∧ token.stop ≤ previous.lastToken.stop)
      ∨ member.declaration.start ≤ token.start := by
  obtain ⟨other, hother, ht⟩ := mem_memberTokens.mp ht
  obtain ⟨place, hplace⟩ := List.mem_iff_getElem?.mp hother
  have hdecl := h.declaration_proper (List.mem_of_getElem? hm)
  rcases Nat.lt_trichotomy place index with hlt | rfl | hgt
  · left
    obtain ⟨hlen, -⟩ := List.getElem?_eq_some_iff.mp hm
    have hprev : members[index - 1]? = some members[index - 1] := List.getElem?_eq_getElem (by omega)
    refine ⟨_, by omega, hprev, ?_⟩
    by_cases heq : place = index - 1
    · have hsame : other = members[index - 1] := by
        rw [heq, hprev] at hplace
        exact (Option.some.inj hplace).symm
      exact hsame ▸ h.stop_le_lastToken hother ht
    · have hbefore := h.tokens_before (by omega) hplace hprev ht (Member.lastToken_mem_tokens _)
      have hproper := h.proper _ (mem_memberTokens.mpr
        ⟨_, List.mem_of_getElem? hprev, Member.lastToken_mem_tokens _⟩)
      exact Nat.le_trans hbefore.1 (Nat.le_of_lt hproper.1)
  · right
    rw [hm] at hplace
    cases hplace
    exact h.declaration_le_start hother ht
  · right
    have hbefore := h.tokens_before hgt hm hplace member.declaration_mem_tokens ht
    exact Nat.le_trans (Nat.le_of_lt hdecl.1) hbefore.1

/-- No token of the list ends behind the last token of the last member. -/
theorem stop_le_last (h : InOrder members comments) {last : Member}
    (hlast : members.getLast? = some last) {token : Span} (ht : token ∈ memberTokens members) :
    token.stop ≤ last.lastToken.stop := by
  obtain ⟨other, hother, ht⟩ := mem_memberTokens.mp ht
  obtain ⟨place, hplace⟩ := List.mem_iff_getElem?.mp hother
  rw [List.getLast?_eq_getElem?] at hlast
  obtain ⟨hlen, -⟩ := List.getElem?_eq_some_iff.mp hplace
  by_cases heq : place = members.length - 1
  · rw [heq, hlast] at hplace
    cases hplace
    exact h.stop_le_lastToken hother ht
  · have hbefore := h.tokens_before (by omega) hplace hlast ht (Member.lastToken_mem_tokens _)
    have hproper := h.proper _ (mem_memberTokens.mpr
      ⟨_, List.mem_of_getElem? hlast, Member.lastToken_mem_tokens _⟩)
    exact Nat.le_trans hbefore.1 (Nat.le_of_lt hproper.1)

end InOrder

end Body

namespace MemberList

/-- Declarations, separators and comments of a list. -/
def tokens (list : MemberList) : List Span :=
  Body.memberTokens list.members ++ list.comments.map Comment.span

/-- **A list that is well-formed in a source**: its tokens are in order inside the body, they cut
no character and know their rows, and at every offset of the body outside of them there is white
space. -/
structure WellFormed (list : MemberList) (source : Text) : Prop where
  inOrder : Body.InOrder list.members list.comments
  braces : list.bodyStart ≤ list.bodyStop
  start : source.isBoundary list.bodyStart = true
  stop : source.isBoundary list.bodyStop = true
  inside : ∀ token ∈ list.tokens, list.bodyStart ≤ token.start ∧ token.stop ≤ list.bodyStop
  fits : ∀ token ∈ list.tokens, token.Fits source
  blank : ∀ n < list.bodyStop, list.bodyStart ≤ n → source.isBoundary n = true →
    (∀ token ∈ list.tokens, n < token.start ∨ token.stop ≤ n) → (source.slice n (n + 1)).Blank

instance (list : MemberList) (source : Text) : Decidable (list.WellFormed source) :=
  decidable_of_iff
    (Body.InOrder list.members list.comments ∧ list.bodyStart ≤ list.bodyStop
      ∧ source.isBoundary list.bodyStart = true ∧ source.isBoundary list.bodyStop = true
      ∧ (∀ token ∈ list.tokens, list.bodyStart ≤ token.start ∧ token.stop ≤ list.bodyStop)
      ∧ (∀ token ∈ list.tokens, token.Fits source)
      ∧ ∀ n < list.bodyStop, list.bodyStart ≤ n → source.isBoundary n = true →
          (∀ token ∈ list.tokens, n < token.start ∨ token.stop ≤ n) →
          (source.slice n (n + 1)).Blank)
    ⟨fun ⟨h1, h2, h3, h4, h5, h6, h7⟩ => ⟨h1, h2, h3, h4, h5, h6, h7⟩,
      fun h => ⟨h.inOrder, h.braces, h.start, h.stop, h.inside, h.fits, h.blank⟩⟩

/-- A body with a comment of every standing: one behind the opening brace, one behind a separator,
one at the end. -/
def sampleSource : Text := "\x7b/*h*/b;//c\na\n/*e*/\x7d".toList

/-- The members and comments of `sampleSource`. -/
def sample : MemberList where
  kind := .interface
  opening := ⟨0, 1, 0, 0⟩
  closing := ⟨19, 20, 2, 2⟩
  parent := ⟨0, 20, 0, 2⟩
  members :=
    [{ kind := .property, name := some "b", optional := false
       declaration := ⟨6, 7, 0, 0⟩, terminator := some ⟨7, 8, 0, 0⟩ },
     { kind := .property, name := some "a", optional := false
       declaration := ⟨12, 13, 1, 1⟩, terminator := none }]
  comments := [⟨.block, ⟨1, 6, 0, 0⟩⟩, ⟨.line, ⟨8, 11, 0, 0⟩⟩, ⟨.block, ⟨14, 19, 2, 2⟩⟩]
  stringValued := false

namespace WellFormed

variable {list : MemberList} {source : Text}

theorem comment_mem_tokens {comment : Comment} (hc : comment ∈ list.comments) :
    comment.span ∈ list.tokens :=
  List.mem_append_right _ (List.mem_map_of_mem hc)

theorem token_mem_tokens {member : Member} {token : Span} (hm : member ∈ list.members)
    (ht : token ∈ member.tokens) : token ∈ list.tokens :=
  List.mem_append_left _ (Body.mem_memberTokens.mpr ⟨member, hm, ht⟩)

/-- A token is a stretch of the source that is not empty. -/
theorem text_ne_nil (h : list.WellFormed source) {token : Span} (ht : token ∈ list.tokens) :
    token.text source ≠ [] := by
  obtain ⟨hstart, hstop, -⟩ := h.fits token ht
  refine Text.slice_ne_nil hstart hstop ?_
  rcases List.mem_append.mp ht with hm | hc
  · exact (h.inOrder.proper token hm).1
  · obtain ⟨comment, hmem, rfl⟩ := List.mem_map.mp hc
    exact (h.inOrder.properComments comment hmem).1

/-- **A stretch of the body that meets no token is white space.** -/
theorem gap (h : list.WellFormed source) {a b : Nat} (ha : source.isBoundary a = true)
    (hb : source.isBoundary b = true) (hab : a ≤ b) (hstart : list.bodyStart ≤ a)
    (hstop : b ≤ list.bodyStop) (hfree : ∀ token ∈ list.tokens, token.stop ≤ a ∨ b ≤ token.start) :
    (source.slice a b).Blank := by
  refine Text.blank_slice ha hb hab ?_
  intro n han hnb hn
  refine h.blank n (by omega) (by omega) hn ?_
  intro token ht
  rcases hfree token ht with hleft | hright
  · exact .inr (by omega)
  · exact .inl (by omega)

end WellFormed

end MemberList

end KeyOrder
