import KeyOrder.Proofs.Body.Layout
import KeyOrder.Proofs.Syntax.Laminar
import Mathlib.Data.List.Nodup

/-!
# What is read off a tree

A tree is readable if its nodes lie in order, know their rows, have proper comments as leaves only,
and if in each body the opening brace ends before the closing one starts. **Every list that is read
off such a tree is in order and loses no comment**: its tokens are places of the children of a body,
taken from left to right, and a comment between the braces is either one of the list's comments or
part of one declaration.
-/

namespace KeyOrder

/-! ## Rows -/

/-- The rows of a span are those of its ends in the source. -/
def Span.RowsAgree (span : Span) (source : Text) : Prop :=
  span.startRow = source.rowAt span.start ∧ span.endRow = source.rowAt span.stop

instance (span : Span) (source : Text) : Decidable (span.RowsAgree source) :=
  inferInstanceAs (Decidable (_ ∧ _))

theorem Text.rowAt_mono (text : Text) {n m : Nat} (h : n ≤ m) : text.rowAt n ≤ text.rowAt m :=
  (takeBytes_mono text h).sublist.count_le _

theorem Span.RowsAgree.before {a b : Span} {source : Text} (ha : a.RowsAgree source)
    (hb : b.RowsAgree source) (h : a.stop ≤ b.start) : a.Before b := by
  refine ⟨h, ?_⟩
  rw [ha.2, hb.1]
  exact source.rowAt_mono h

namespace SyntaxNode

/-! ## Nodes of a tree -/

mutual

/-- A node and all nodes below it. -/
def nodes : SyntaxNode → List SyntaxNode
  | .node kind role span isNamed hasError children =>
    .node kind role span isNamed hasError children :: nodesOfAll children

/-- The nodes of several trees. -/
def nodesOfAll : List SyntaxNode → List SyntaxNode
  | [] => []
  | child :: rest => nodes child ++ nodesOfAll rest

end

variable {source : Text} {node child : SyntaxNode} {children : List SyntaxNode}

theorem self_mem_nodes (node : SyntaxNode) : node ∈ node.nodes := by
  cases node
  simp [nodes]

theorem nodes_subset_nodesOfAll (h : child ∈ children) : child.nodes ⊆ nodesOfAll children := by
  induction children with
  | nil => simp at h
  | cons first rest ih =>
      rw [nodesOfAll]
      rcases List.mem_cons.mp h with rfl | hrest
      · exact List.subset_append_left _ _
      · exact List.Subset.trans (ih hrest) (List.subset_append_right _ _)

theorem nodes_subset_of_child (h : child ∈ node.children) : child.nodes ⊆ node.nodes := by
  cases node
  rw [nodes]
  exact List.Subset.trans (nodes_subset_nodesOfAll h) (List.subset_cons_self _ _)

/-- A comment node as a comment. -/
def toComment (source : Text) (node : SyntaxNode) : Comment :=
  ⟨CommentKind.ofText (node.text source), node.span⟩

/-- Whether the comments of a tree are leaves. -/
def CommentsAreLeaves (nodes : List SyntaxNode) : Prop :=
  ∀ node ∈ nodes, node.isComment = true → node.children = []

instance (nodes : List SyntaxNode) : Decidable (CommentsAreLeaves nodes) :=
  inferInstanceAs (Decidable (∀ _ ∈ _, _))

mutual

/-- The comments of a tree are its comment nodes. -/
theorem mem_comments_iff {comment : Comment} : ∀ (node : SyntaxNode),
    CommentsAreLeaves node.nodes → (comment ∈ node.comments source
      ↔ ∃ below ∈ node.nodes, below.isComment = true ∧ below.toComment source = comment)
  | .node kind role span isNamed hasError children, h => by
      rw [comments]
      by_cases hkind : kind = .comment
      · obtain rfl : children = [] :=
          h _ (self_mem_nodes _) (by simp [isComment, SyntaxNode.kind, hkind])
        subst hkind
        simp [nodes, nodesOfAll, isComment, SyntaxNode.kind, toComment, text, SyntaxNode.span,
          eq_comm]
      · have hbelow : CommentsAreLeaves (nodesOfAll children) := fun below hmem =>
          h below (by simp [nodes, hmem])
        rw [if_neg hkind, mem_commentsOfAll_iff children hbelow]
        simp [nodes, isComment, SyntaxNode.kind, hkind]

theorem mem_commentsOfAll_iff {comment : Comment} : ∀ (children : List SyntaxNode),
    CommentsAreLeaves (nodesOfAll children) → (comment ∈ commentsOfAll source children
      ↔ ∃ below ∈ nodesOfAll children, below.isComment = true ∧ below.toComment source = comment)
  | [], _ => by simp [commentsOfAll, nodesOfAll]
  | child :: rest, h => by
      have hchild : CommentsAreLeaves child.nodes := fun below hmem =>
        h below (by simp [nodesOfAll, hmem])
      have hrest : CommentsAreLeaves (nodesOfAll rest) := fun below hmem =>
        h below (by simp [nodesOfAll, hmem])
      rw [commentsOfAll, List.mem_append, mem_comments_iff child hchild,
        mem_commentsOfAll_iff rest hrest, nodesOfAll]
      simp only [List.mem_append, or_and_right, exists_or]

end

mutual

/-- The core of a node starts where one of its nodes does and ends where one does. -/
theorem coreSpan_eq_spanning : ∀ node : SyntaxNode, ∃ first ∈ node.nodes, ∃ last ∈ node.nodes,
    node.coreSpan = spanning first.span last.span
  | .node kind role span isNamed hasError children => by
      have hcores := coreSpans_eq_spanning children
      have hbelow : nodesOfAll children ⊆
          (SyntaxNode.node kind role span isNamed hasError children).nodes :=
        List.subset_cons_self _ _
      simp only [coreSpan]
      split
      next => exact ⟨_, self_mem_nodes _, _, self_mem_nodes _, rfl⟩
      next core rest heq =>
        rw [heq] at hcores
        obtain ⟨first, hfirst, last, hlast, hcore⟩ := hcores core List.mem_cons_self
        cases hend : rest.getLast? with
        | none => exact ⟨first, hbelow hfirst, last, hbelow hlast, by simp [hcore, spanning]⟩
        | some final =>
            obtain ⟨_, _, behind, hbehind, hfinal⟩ :=
              hcores final (List.mem_cons_of_mem _ (List.mem_of_getLast? hend))
            exact ⟨first, hbelow hfirst, behind, hbelow hbehind,
              by simp [hcore, hfinal, spanning]⟩

theorem coreSpans_eq_spanning : ∀ (children : List SyntaxNode), ∀ core ∈ coreSpans children,
    ∃ first ∈ nodesOfAll children, ∃ last ∈ nodesOfAll children,
      core = spanning first.span last.span
  | [], _, h => by simp [coreSpans] at h
  | child :: rest, core, h => by
      have hchild : child.nodes ⊆ nodesOfAll (child :: rest) := List.subset_append_left _ _
      have hrest : nodesOfAll rest ⊆ nodesOfAll (child :: rest) := List.subset_append_right _ _
      have hlater : core ∈ coreSpans rest → ∃ first ∈ nodesOfAll (child :: rest),
          ∃ last ∈ nodesOfAll (child :: rest), core = spanning first.span last.span := by
        intro hmem
        obtain ⟨first, hfirst, last, hlast, hcore⟩ := coreSpans_eq_spanning rest core hmem
        exact ⟨first, hrest hfirst, last, hrest hlast, hcore⟩
      unfold coreSpans at h
      split at h
      · exact hlater h
      · rcases List.mem_cons.mp h with rfl | hmem
        · obtain ⟨first, hfirst, last, hlast, hcore⟩ := coreSpan_eq_spanning child
          exact ⟨first, hchild hfirst, last, hchild hlast, hcore⟩
        · exact hlater hmem

end

theorem coreSpan_rowsAgree (node : SyntaxNode)
    (h : ∀ below ∈ node.nodes, below.span.RowsAgree source) : node.coreSpan.RowsAgree source := by
  obtain ⟨first, hfirst, last, hlast, hcore⟩ := coreSpan_eq_spanning node
  rw [hcore]
  exact ⟨(h first hfirst).1, (h last hlast).2⟩

/-! ## Tokens of the members -/

/-- The place that a child of a body takes up in a member: a separator as it stands, and of
anything else the core. -/
def place (node : SyntaxNode) : Span :=
  if node.kind = .separator then node.span else node.coreSpan

theorem place_within (h : node.ordered = true) : node.span.start ≤ node.place.start
    ∧ node.place.start ≤ node.place.stop ∧ node.place.stop ≤ node.span.stop := by
  unfold place
  split
  · exact ⟨Nat.le_refl _, le_of_ordered node h, Nat.le_refl _⟩
  · exact coreSpan_within node h

theorem place_rowsAgree (h : ∀ below ∈ node.nodes, below.span.RowsAgree source) :
    node.place.RowsAgree source := by
  unfold place
  split
  · exact h node node.self_mem_nodes
  · exact coreSpan_rowsAgree node h

/-- Places of nodes that lie one behind the other do so too. -/
theorem pairwise_place (hordered : ∀ node ∈ children, node.ordered = true)
    (h : children.Pairwise fun a b => a.span.stop ≤ b.span.start) :
    (children.map place).Pairwise fun a b => a.stop ≤ b.start := by
  refine List.pairwise_map.mpr (h.imp_of_mem fun {a b} ha hb hab => ?_)
  have := place_within (hordered a ha)
  have := place_within (hordered b hb)
  omega

/-- A separator is added to the tokens read so far or passed over. -/
theorem memberTokens_terminateLast (terminator : Span) (read : List Member) :
    Body.memberTokens (terminateLast terminator read).reverse = Body.memberTokens read.reverse
    ∨ Body.memberTokens (terminateLast terminator read).reverse =
      Body.memberTokens read.reverse ++ [terminator] := by
  cases read with
  | nil => exact .inl rfl
  | cons last earlier =>
      simp only [terminateLast]
      split
      · exact .inl rfl
      · rename_i hnone
        obtain hnone : last.terminator = none := by simpa using hnone
        exact .inr (by simp [Body.memberTokens, Member.tokens, hnone])

/-- **The tokens of the members are places of the nodes they are read off**, in order and none of
them twice. -/
theorem memberTokens_readMembers (listKind : ListKind) (read : List Member)
    (children : List SyntaxNode) : ∃ more,
    Body.memberTokens (readMembers source listKind read children) =
      Body.memberTokens read.reverse ++ more ∧ more.Sublist (children.map place) := by
  induction children generalizing read with
  | nil => exact ⟨[], by simp [readMembers], .slnil⟩
  | cons child rest ih =>
      -- what one child adds, in front of what the rest adds
      have hstep : ∀ (next : List Member) (added : List Span),
          Body.memberTokens next.reverse = Body.memberTokens read.reverse ++ added →
          added.Sublist [child.place] → ∃ more,
          Body.memberTokens (readMembers source listKind next rest) =
            Body.memberTokens read.reverse ++ more
            ∧ more.Sublist ((child :: rest).map place) := by
        intro next added hnext hadded
        obtain ⟨more, hmore, hsub⟩ := ih next
        exact ⟨added ++ more, by rw [hmore, hnext, List.append_assoc], hadded.append hsub⟩
      unfold readMembers
      split
      next => exact hstep read [] (by simp) (List.nil_sublist _)
      next hkind =>
        have hplace : child.place = child.span := by simp [place, hkind]
        split
        · exact hstep read [] (by simp) (List.nil_sublist _)
        · rcases memberTokens_terminateLast child.span read with hsame | hadded
          · exact hstep _ [] (by simpa using hsame) (List.nil_sublist _)
          · exact hstep _ [child.span] hadded (hplace ▸ .refl _)
      next hcomment hseparator =>
        have hplace : child.place = child.coreSpan := if_neg hseparator
        refine hstep _ [child.coreSpan] ?_ (hplace ▸ .refl _)
        simp [Body.memberTokens, Member.tokens]

theorem declarations_sublist (members : List Member) :
    (members.map Member.declaration).Sublist (Body.memberTokens members) := by
  induction members with
  | nil => exact .slnil
  | cons member rest ih =>
      exact .cons_cons _ (ih.trans (List.sublist_append_right _ _))

/-- **The tokens of a list lie one behind the other**, and each is the place of a child between the
braces. -/
theorem memberList?_tokens {comments : List Comment} {parent : Option Span} {listKind : ListKind}
    {body : SyntaxNode} {list : MemberList} (hbody : body.ordered = true)
    (h : body.memberList? source comments parent listKind = some list) :
    (Body.memberTokens list.members).Pairwise (fun a b => a.stop ≤ b.start)
      ∧ ∀ token ∈ Body.memberTokens list.members, ∃ child ∈ body.children,
        list.bodyStart ≤ child.span.start ∧ child.span.stop ≤ list.bodyStop
          ∧ child.place = token := by
  obtain ⟨opening, -, closing, -, hopen, hclose, hmembers, -⟩ := memberList?_eq_some h
  have hall := orderedAll_children hbody
  obtain ⟨tokens, htokens, hsub⟩ := @memberTokens_readMembers source listKind []
    (body.children.filter fun child =>
      opening.span.stop ≤ child.span.start && child.span.stop ≤ closing.span.start)
  rw [← hmembers] at htokens
  rw [htokens]
  constructor
  · refine (pairwise_place (fun child hchild => ?_) ?_).sublist hsub
    · exact (ordered_of_mem hall (List.mem_filter.mp hchild).1).1
    · exact (pairwise_of_orderedAll hall).filter _
  · intro token htoken
    obtain ⟨child, hchild, rfl⟩ := List.mem_map.mp (hsub.subset htoken)
    obtain ⟨hmem, hbetween⟩ := List.mem_filter.mp hchild
    simp only [Bool.and_eq_true, decide_eq_true_eq] at hbetween
    rw [MemberList.bodyStart, MemberList.bodyStop, hopen, hclose]
    exact ⟨child, hmem, hbetween.1, hbetween.2, rfl⟩

end SyntaxNode

/-! ## Lists of a readable tree -/

/-- Whether lists can be read off a tree: it is well-formed in the source and knows its rows, its
comments are leaves that cover something, and in each body the first opening brace ends before the
last closing one starts. -/
structure SyntaxNode.Readable (root : SyntaxNode) (source : Text) : Prop
    extends root.WellFormed source where
  rows : ∀ node ∈ root.nodes, node.span.RowsAgree source
  leaves : CommentsAreLeaves root.nodes
  properComments : ∀ node ∈ root.nodes, node.isComment = true → node.span.start < node.span.stop
  braces : ∀ body ∈ root.nodes, body.listKind?.isSome = true →
    ∀ opening ∈ body.childByKind? .opening,
      ∀ closing ∈ body.children.reverse.find? (·.kind = .closing),
        opening.span.stop ≤ closing.span.start

/-- What is asked of a list that is read off a tree. -/
structure MemberList.ReadOff (list : MemberList) (root : SyntaxNode) (source : Text) : Prop where
  /-- Declarations and separators follow each other, a separator behind its own declaration. -/
  tokensFollow : (Body.memberTokens list.members).Pairwise Span.Before
  tokensInside : ∀ token ∈ Body.memberTokens list.members,
    list.bodyStart ≤ token.start ∧ token.start ≤ token.stop ∧ token.stop ≤ list.bodyStop
  commentsFollow : list.comments.Pairwise fun a b => a.span.Before b.span
  commentsInside : ∀ comment ∈ list.comments, list.bodyStart ≤ comment.span.start
    ∧ comment.span.start < comment.span.stop ∧ comment.span.stop ≤ list.bodyStop
  checked : list.checkRanges source = .ok ()
  /-- A comment between the braces is one of the list's comments or part of one declaration. -/
  commentsKept : ∀ node ∈ root.nodes, node.isComment = true →
    list.bodyStart ≤ node.span.start → node.span.stop ≤ list.bodyStop →
    (list.comments.count (node.toComment source) = 1
      ∧ list.members.countP (·.declaration.contains node.span) = 0)
    ∨ (list.comments.count (node.toComment source) = 0
      ∧ list.members.countP (·.declaration.contains node.span) = 1)

namespace SyntaxNode

variable {root body : SyntaxNode} {source : Text} {list : MemberList}

namespace Readable

variable (h : root.Readable source)

include h

theorem comment_proper {comment : Comment} (hmem : comment ∈ root.comments source) :
    comment.span.start < comment.span.stop ∧ comment.span.RowsAgree source := by
  obtain ⟨node, hnode, hcomment, rfl⟩ := (mem_comments_iff root h.leaves).mp hmem
  exact ⟨h.properComments node hnode hcomment, h.rows node hnode⟩

/-- No comment of the tree is found twice. -/
theorem comments_nodup : (root.comments source).Nodup := by
  refine (comments_within source root h.ordered).2.imp_of_mem fun {a b} ha _ hab heq => ?_
  subst heq
  have := (h.comment_proper ha).1
  omega

end Readable

/-- Of spans that lie one behind the other at most one holds a span that covers something. -/
theorem countP_contains {members : List Member} {span : Span}
    (hfollow : (members.map Member.declaration).Pairwise fun a b => a.stop ≤ b.start)
    (hproper : span.start < span.stop)
    (hmem : ∃ member ∈ members, member.declaration.contains span = true) :
    members.countP (·.declaration.contains span) = 1 := by
  induction members with
  | nil => simp at hmem
  | cons first rest ih =>
      rw [List.map_cons, List.pairwise_cons] at hfollow
      by_cases hfirst : first.declaration.contains span = true
      · have hrest : rest.countP (·.declaration.contains span) = 0 := by
          refine List.countP_eq_zero.mpr fun member hmember hcontains => ?_
          have := hfollow.1 _ (List.mem_map_of_mem hmember)
          rw [Span.contains_iff] at hfirst hcontains
          omega
        simp [hfirst, hrest]
      · have hskip : (first :: rest).countP (·.declaration.contains span) =
            rest.countP (·.declaration.contains span) := by simp [hfirst]
        rw [hskip]
        refine ih hfollow.2 ?_
        obtain ⟨member, hmember, hcontains⟩ := hmem
        rcases List.mem_cons.mp hmember with rfl | hrest
        · exact absurd hcontains hfirst
        · exact ⟨member, hrest, hcontains⟩

/-- **A comment between the braces is one of the list's comments or part of one declaration.** -/
theorem Readable.commentsKept (h : root.Readable source) (hordered : body.ordered = true)
    {parent : Option Span} {listKind : ListKind}
    (hlist : body.memberList? source (root.comments source) parent listKind = some list)
    {node : SyntaxNode} (hnode : node ∈ root.nodes) (hcomment : node.isComment = true)
    (hstart : list.bodyStart ≤ node.span.start) (hstop : node.span.stop ≤ list.bodyStop) :
    (list.comments.count (node.toComment source) = 1
      ∧ list.members.countP (·.declaration.contains node.span) = 0)
    ∨ (list.comments.count (node.toComment source) = 0
      ∧ list.members.countP (·.declaration.contains node.span) = 1) := by
  obtain ⟨opening, -, closing, -, hopen, hclose, -, hfree⟩ := memberList?_eq_some hlist
  have hdeclarations : (list.members.map Member.declaration).Pairwise fun a b => a.stop ≤ b.start :=
    (memberList?_tokens hordered hlist).1.sublist (declarations_sublist list.members)
  have hmem : node.toComment source ∈ root.comments source :=
    (mem_comments_iff root h.leaves).mpr ⟨node, hnode, hcomment, rfl⟩
  have hiff := @mem_freeComments_iff (root.comments source)
    ⟨opening.span.stop, closing.span.start, 0, 0⟩ _ (comments_within source root h.ordered).2
    (fun comment hmem => (h.comment_proper hmem).1) hdeclarations (node.toComment source)
  rw [← hfree] at hiff
  rw [MemberList.bodyStart, hopen] at hstart
  rw [MemberList.bodyStop, hclose] at hstop
  by_cases hdeclared : ∃ member ∈ list.members, member.declaration.contains node.span = true
  · refine .inr ⟨List.count_eq_zero.mpr fun hlisted => ?_,
      countP_contains hdeclarations (h.properComments node hnode hcomment) hdeclared⟩
    obtain ⟨member, hmember, hcontains⟩ := hdeclared
    have hfalse := (hiff.mp hlisted).2.2 _ (List.mem_map_of_mem hmember)
    exact absurd (hcontains.symm.trans hfalse) (by simp)
  · have hnone : ∀ member ∈ list.members, member.declaration.contains node.span = false :=
      fun member hmember => eq_false_of_ne_true fun hcontains =>
        hdeclared ⟨member, hmember, hcontains⟩
    have hlisted := hiff.mpr ⟨hmem, ⟨hstart, hstop⟩, List.forall_mem_map.mpr hnone⟩
    have hnodup : list.comments.Nodup := hfree ▸ h.comments_nodup.sublist freeComments_sublist
    exact .inl ⟨List.count_eq_one_of_mem hnodup hlisted,
      List.countP_eq_zero.mpr fun member hmember => by simp [hnone member hmember]⟩

/-- **The list of a body of a readable tree is in order and keeps the comments of the body.** -/
theorem Readable.readOff (h : root.Readable source) (hnodes : body.nodes ⊆ root.nodes)
    (hordered : body.ordered = true) (hstop : body.span.stop ≤ source.byteLength)
    {parent : Option Span} {listKind : ListKind} (hkind : body.listKind? = some listKind)
    (hlist : body.memberList? source (root.comments source) parent listKind = some list) :
    list.ReadOff root source := by
  have hall := orderedAll_children hordered
  have hwithin := memberList?_within hordered (comments_sorted source h.ordered) hlist
  obtain ⟨hfollow, hplace⟩ := memberList?_tokens hordered hlist
  have hrows : ∀ token ∈ Body.memberTokens list.members, token.RowsAgree source := by
    intro token htoken
    obtain ⟨child, hchild, -, -, rfl⟩ := hplace token htoken
    exact place_rowsAgree fun below hbelow =>
      h.rows below (hnodes (nodes_subset_of_child hchild hbelow))
  obtain ⟨opening, hopening, closing, hclosing, hopen, hclose, -, hfree⟩ :=
    memberList?_eq_some hlist
  have hbraces : list.bodyStart ≤ list.bodyStop := by
    rw [MemberList.bodyStart, MemberList.bodyStop, hopen, hclose]
    exact h.braces body (hnodes body.self_mem_nodes) (by rw [hkind]; rfl) opening hopening closing
      hclosing
  have hsub : list.comments.Sublist (root.comments source) := hfree ▸ freeComments_sublist
  constructor
  · exact hfollow.imp_of_mem fun ha hb hab => (hrows _ ha).before (hrows _ hb) hab
  · intro token htoken
    obtain ⟨child, hchild, hstart, hend, rfl⟩ := hplace token htoken
    have := place_within (ordered_of_mem hall hchild).1
    omega
  · exact ((comments_within source root h.ordered).2.sublist hsub).imp_of_mem fun ha hb hab =>
      (h.comment_proper (hsub.subset ha)).2.before (h.comment_proper (hsub.subset hb)).2 hab
  · intro comment hmem
    have hproper := (h.comment_proper (hsub.subset hmem)).1
    rw [hfree] at hmem
    have hbody := freeComments_within (comments_sorted source h.ordered) comment hmem
    rw [MemberList.bodyStart, MemberList.bodyStop, hopen, hclose]
    exact ⟨hbody.1, hproper, hbody.2⟩
  · exact MemberList.checkRanges_eq_ok hbraces (Nat.le_trans hwithin.le_stop hstop) hwithin.inside
  · exact fun node hnode hcomment hstart hend =>
      h.commentsKept hordered hlist hnode hcomment hstart hend

/-- **Lists that are read off a readable tree are in order, pass the range check and lose no
comment, and any two of them are nested or apart.** -/
theorem memberLists_readOff (root : SyntaxNode) (source : Text) (h : root.Readable source) :
    (∀ list ∈ root.memberLists source, list.ReadOff root source)
      ∧ (root.memberLists source).Pairwise MemberList.BodiesNestedOrApart := by
  refine ⟨?_, memberLists_pairwise_bodies h.ordered⟩
  refine forall_mem_listsBelow (fun below => below.nodes ⊆ root.nodes ∧ below.ordered = true
    ∧ below.span.stop ≤ source.byteLength) ?_ ?_ root none
    ⟨List.Subset.refl _, h.ordered, h.stop_le⟩
  · rintro below ⟨hnodes, hordered, hstop⟩ child hchild
    obtain ⟨hchildOrdered, -, hbefore⟩ := ordered_of_mem (orderedAll_children hordered) hchild
    exact ⟨List.Subset.trans (nodes_subset_of_child hchild) hnodes, hchildOrdered,
      Nat.le_trans hbefore hstop⟩
  · rintro body ⟨hnodes, hordered, hstop⟩ parent listKind list hkind hlist
    exact h.readOff hnodes hordered hstop hkind hlist

/-- An object type with a line comment in front of its only member, a comment inside that member,
and another object type as its value. -/
def nestedObjectText : Text := "\x7b // x\na: /*y*/ \x7b b  \x7d; \x7d".toList

/-- The tree of that object type. -/
def nestedObject : SyntaxNode :=
  .node .objectType .none ⟨0, 25, 0, 1⟩ true false
    [.node .opening .none ⟨0, 1, 0, 0⟩ false false [],
      .node .comment .none ⟨2, 6, 0, 0⟩ true false [],
      .node .propertySignature .none ⟨7, 22, 1, 1⟩ true false
        [.node .propertyIdentifier .name ⟨7, 8, 1, 1⟩ true false [],
          .node (.other ":") .none ⟨8, 9, 1, 1⟩ false false [],
          .node .comment .none ⟨10, 15, 1, 1⟩ true false [],
          .node .objectType .none ⟨16, 22, 1, 1⟩ true false
            [.node .opening .none ⟨16, 17, 1, 1⟩ false false [],
              .node .propertySignature .none ⟨18, 19, 1, 1⟩ true false
                [.node .propertyIdentifier .name ⟨18, 19, 1, 1⟩ true false []],
              .node .closing .none ⟨21, 22, 1, 1⟩ false false []]],
      .node .separator .none ⟨22, 23, 1, 1⟩ false false [],
      .node .closing .none ⟨24, 25, 1, 1⟩ false false []]

theorem memberLists_readOff_nested : nestedObject.Readable nestedObjectText
    ∧ (nestedObject.memberLists nestedObjectText).length = 2
    ∧ (∀ list ∈ nestedObject.memberLists nestedObjectText,
      list.ReadOff nestedObject nestedObjectText)
    ∧ (nestedObject.memberLists nestedObjectText).Pairwise MemberList.BodiesNestedOrApart := by
  have h : nestedObject.Readable nestedObjectText := by
    refine ⟨⟨?_, ?_⟩, ?_, ?_, ?_, ?_⟩ <;> decide +kernel
  exact ⟨h, by decide +kernel, memberLists_readOff _ _ h⟩

end SyntaxNode

end KeyOrder
