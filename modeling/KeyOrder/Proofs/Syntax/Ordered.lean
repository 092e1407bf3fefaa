import KeyOrder.Evaluation
import KeyOrder.Proofs.Syntax.FreeComments
import KeyOrder.Syntax.MemberLists

/-!
# Member lists of an ordered tree

The children of a node lie one behind the other inside its span; some of them may cover nothing
(`SyntaxNode.ordered`). What is read off such a tree is in order too: the tokens and comments of a
list lie between its braces, and **every list that has members passes the range check**.
-/

namespace KeyOrder

namespace SyntaxNode

/-! ## Ordered trees -/

mutual

/-- Whether the children of each node of a tree lie one behind the other inside its span. -/
def ordered : SyntaxNode → Bool
  | .node _ _ span _ _ children => orderedAll span.start span.stop children

/-- Whether nodes are ordered and lie one behind the other between two offsets. -/
def orderedAll (start stop : Nat) : List SyntaxNode → Bool
  | [] => start ≤ stop
  | child :: rest =>
    start ≤ child.span.start && child.ordered && orderedAll child.span.stop stop rest

end

/-- Whether a tree can be that of a source: it is ordered and ends where the source does or
before. -/
structure WellFormed (root : SyntaxNode) (source : Text) : Prop where
  ordered : root.ordered = true
  stop_le : root.span.stop ≤ source.byteLength

variable {node child : SyntaxNode} {children : List SyntaxNode} {start stop : Nat}

theorem orderedAll_children (h : node.ordered = true) :
    orderedAll node.span.start node.span.stop node.children = true := by
  cases node
  rw [ordered] at h
  exact h

theorem orderedAll_cons : orderedAll start stop (child :: children) = true
    ↔ start ≤ child.span.start ∧ child.ordered = true
      ∧ orderedAll child.span.stop stop children = true := by
  simp [orderedAll, and_assoc]

mutual

theorem le_of_ordered : ∀ (node : SyntaxNode), node.ordered = true →
    node.span.start ≤ node.span.stop
  | .node _ _ _ _ _ children, h => le_of_orderedAll children _ _ (orderedAll_children h)

theorem le_of_orderedAll : ∀ (children : List SyntaxNode) (start stop : Nat),
    orderedAll start stop children = true → start ≤ stop
  | [], _, _, h => by simpa [orderedAll] using h
  | child :: rest, start, stop, h => by
      obtain ⟨hstart, hchild, hrest⟩ := orderedAll_cons.mp h
      have := le_of_ordered child hchild
      have := le_of_orderedAll rest _ _ hrest
      omega

end

/-- Each of the nodes is ordered and lies between the two offsets. -/
theorem ordered_of_mem (h : orderedAll start stop children = true) (hmem : child ∈ children) :
    child.ordered = true ∧ start ≤ child.span.start ∧ child.span.stop ≤ stop := by
  induction children generalizing start with
  | nil => simp at hmem
  | cons first rest ih =>
      obtain ⟨hstart, hfirst, hrest⟩ := orderedAll_cons.mp h
      rcases List.mem_cons.mp hmem with rfl | hmem
      · exact ⟨hfirst, hstart, le_of_orderedAll rest _ _ hrest⟩
      · obtain ⟨hchild, hbehind, hstop⟩ := ih hrest hmem
        have := le_of_ordered first hfirst
        exact ⟨hchild, by omega, hstop⟩

/-- The nodes lie one behind the other. -/
theorem pairwise_of_orderedAll (h : orderedAll start stop children = true) :
    children.Pairwise fun a b => a.span.stop ≤ b.span.start := by
  induction children generalizing start with
  | nil => exact .nil
  | cons first rest ih =>
      obtain ⟨-, -, hrest⟩ := orderedAll_cons.mp h
      exact .cons (fun b hb => (ordered_of_mem hrest hb).2.1) (ih hrest)

theorem orderedAll_of_le {start' : Nat} (hle : start' ≤ start)
    (h : orderedAll start stop children = true) : orderedAll start' stop children = true := by
  cases children with
  | nil =>
      have := le_of_orderedAll [] _ _ h
      simp only [orderedAll, decide_eq_true_eq]
      omega
  | cons first rest =>
      obtain ⟨hstart, hfirst, hrest⟩ := orderedAll_cons.mp h
      exact orderedAll_cons.mpr ⟨Nat.le_trans hle hstart, hfirst, hrest⟩

/-- Nodes that are ordered together are ordered on both sides of an offset between them. -/
theorem orderedAll_append {others : List SyntaxNode} :
    orderedAll start stop (children ++ others) = true
      ↔ ∃ middle, orderedAll start middle children = true
        ∧ orderedAll middle stop others = true := by
  induction children generalizing start with
  | nil =>
      refine ⟨fun h => ⟨start, by simp [orderedAll], h⟩, ?_⟩
      rintro ⟨middle, hstart, hothers⟩
      exact orderedAll_of_le (le_of_orderedAll [] _ _ hstart) hothers
  | cons first rest ih =>
      simp only [List.cons_append, orderedAll_cons, ih]
      constructor
      · rintro ⟨hstart, hfirst, middle, hrest, hothers⟩
        exact ⟨middle, ⟨hstart, hfirst, hrest⟩, hothers⟩
      · rintro ⟨middle, ⟨hstart, hfirst, hrest⟩, hothers⟩
        exact ⟨hstart, hfirst, middle, hrest, hothers⟩

/-! ## Core spans and comments -/

mutual

/-- The core of a node lies in its span. -/
theorem coreSpan_within : ∀ (node : SyntaxNode), node.ordered = true →
    node.span.start ≤ node.coreSpan.start ∧ node.coreSpan.start ≤ node.coreSpan.stop
      ∧ node.coreSpan.stop ≤ node.span.stop
  | .node kind role span isNamed hasError children, h => by
      have hcores := coreSpans_within children _ _ (orderedAll_children h)
      simp only [coreSpan]
      split
      next => exact ⟨Nat.le_refl _, le_of_ordered _ h, Nat.le_refl _⟩
      next first rest heq =>
        rw [heq] at hcores
        obtain ⟨hbounds, hpairs⟩ := hcores
        have hfirst := hbounds first List.mem_cons_self
        cases hlast : rest.getLast? with
        | none => exact ⟨hfirst.1, hfirst.2.1, hfirst.2.2⟩
        | some last =>
            have hmem := List.mem_of_getLast? hlast
            have hlast := hbounds last (List.mem_cons_of_mem _ hmem)
            have hbehind := (List.pairwise_cons.mp hpairs).1 last hmem
            refine ⟨hfirst.1, ?_, hlast.2.2⟩
            show first.start ≤ last.stop
            omega

/-- So do the cores of nodes that lie one behind the other, and they do too. -/
theorem coreSpans_within : ∀ (children : List SyntaxNode) (start stop : Nat),
    orderedAll start stop children = true →
    (∀ core ∈ coreSpans children, start ≤ core.start ∧ core.start ≤ core.stop ∧ core.stop ≤ stop)
      ∧ (coreSpans children).Pairwise fun a b => a.stop ≤ b.start
  | [], _, _, _ => by simp [coreSpans]
  | child :: rest, start, stop, h => by
      obtain ⟨hstart, hordered, hbehind⟩ := orderedAll_cons.mp h
      obtain ⟨hbounds, hpairs⟩ := coreSpans_within rest _ _ hbehind
      have hchild := coreSpan_within child hordered
      have hstop := le_of_orderedAll rest _ _ hbehind
      have hrest : ∀ core ∈ coreSpans rest,
          start ≤ core.start ∧ core.start ≤ core.stop ∧ core.stop ≤ stop := fun core hcore => by
        have := hbounds core hcore
        omega
      unfold coreSpans
      split
      · exact ⟨hrest, hpairs⟩
      · refine ⟨List.forall_mem_cons.mpr ⟨by omega, hrest⟩, .cons (fun core hcore => ?_) hpairs⟩
        have := hbounds core hcore
        omega

end

mutual

/-- The comments of a node lie in its span, in order. -/
theorem comments_within (source : Text) : ∀ (node : SyntaxNode), node.ordered = true →
    (∀ comment ∈ node.comments source, node.span.start ≤ comment.span.start
        ∧ comment.span.start ≤ comment.span.stop ∧ comment.span.stop ≤ node.span.stop)
      ∧ (node.comments source).Pairwise fun a b => a.span.stop ≤ b.span.start
  | .node kind role span isNamed hasError children, h => by
      unfold comments
      split
      · have hspan := le_of_ordered _ h
        simpa using ⟨Nat.le_refl _, hspan, Nat.le_refl _⟩
      · exact commentsOfAll_within source children _ _ (orderedAll_children h)

theorem commentsOfAll_within (source : Text) : ∀ (children : List SyntaxNode) (start stop : Nat),
    orderedAll start stop children = true →
    (∀ comment ∈ commentsOfAll source children, start ≤ comment.span.start
        ∧ comment.span.start ≤ comment.span.stop ∧ comment.span.stop ≤ stop)
      ∧ (commentsOfAll source children).Pairwise fun a b => a.span.stop ≤ b.span.start
  | [], _, _, _ => by simp [commentsOfAll]
  | child :: rest, start, stop, h => by
      obtain ⟨hstart, hordered, hbehind⟩ := orderedAll_cons.mp h
      obtain ⟨hchild, hchildPairs⟩ := comments_within source child hordered
      obtain ⟨hrest, hrestPairs⟩ := commentsOfAll_within source rest _ _ hbehind
      have hspan := le_of_ordered child hordered
      have hstop := le_of_orderedAll rest _ _ hbehind
      unfold commentsOfAll
      refine ⟨fun comment hcomment => ?_,
        List.pairwise_append.mpr ⟨hchildPairs, hrestPairs, fun a ha b hb => ?_⟩⟩
      · rcases List.mem_append.mp hcomment with hmem | hmem
        · have := hchild comment hmem
          omega
        · have := hrest comment hmem
          omega
      · have := hchild a ha
        have := hrest b hb
        omega

end

/-- The comments of an ordered tree are sorted by where they start. -/
theorem comments_sorted (source : Text) (h : node.ordered = true) :
    (node.comments source).Pairwise fun a b => a.span.start ≤ b.span.start := by
  obtain ⟨hwithin, hpairs⟩ := comments_within source node h
  refine hpairs.imp_of_mem fun {a b} ha _ hab => ?_
  have := hwithin a ha
  omega

end SyntaxNode

/-! ## Lists between two offsets -/

/-- A list between two offsets: its tokens and comments lie between its braces, which are in order
if there is a member. -/
structure MemberList.Within (list : MemberList) (start stop : Nat) : Prop where
  start_le : start ≤ list.opening.start
  le_stop : list.closing.stop ≤ stop
  body_le : list.members ≠ [] → list.bodyStart ≤ list.bodyStop
  inside : list.outside? = none

theorem MemberList.checkRanges_eq_ok {list : MemberList} {source : Text}
    (hbody : list.bodyStart ≤ list.bodyStop) (hstop : list.closing.stop ≤ source.byteLength)
    (hinside : list.outside? = none) : list.checkRanges source = .ok () := by
  have hbraces : ¬ list.closing.start < list.opening.stop := Nat.not_lt.mpr hbody
  have hsource : ¬ source.byteLength < list.closing.stop := Nat.not_lt.mpr hstop
  simp [MemberList.checkRanges, hbraces, hsource, hinside]

/-- **A list that has members passes the range check** of a source that it lies in. -/
theorem MemberList.Within.checkRanges {list : MemberList} {source : Text} {start stop : Nat}
    (h : list.Within start stop) (hmembers : list.members ≠ []) (hstop : stop ≤ source.byteLength) :
    list.checkRanges source = .ok () :=
  checkRanges_eq_ok (h.body_le hmembers) (Nat.le_trans h.le_stop hstop) h.inside

namespace SyntaxNode

/-- A member whose tokens lie between two offsets. -/
structure MemberWithin (start stop : Nat) (member : Member) : Prop where
  start_le : start ≤ member.declaration.start
  le : member.declaration.start ≤ member.declaration.stop
  le_stop : member.declaration.stop ≤ stop
  terminator : ∀ terminator ∈ member.terminator, terminator.stop ≤ stop

theorem MemberWithin.lastToken {start stop : Nat} {member : Member}
    (h : MemberWithin start stop member) : member.lastToken.stop ≤ stop := by
  unfold Member.lastToken
  cases hterminator : member.terminator with
  | none => exact h.le_stop
  | some terminator => exact h.terminator terminator hterminator

variable {source : Text} {listKind : ListKind} {start stop : Nat} {nodes : List SyntaxNode}

theorem terminateLast_within {terminator : Span} {read : List Member}
    (hterminator : terminator.stop ≤ stop)
    (hread : ∀ member ∈ read, MemberWithin start stop member) :
    ∀ member ∈ terminateLast terminator read, MemberWithin start stop member := by
  cases read with
  | nil => simp [terminateLast]
  | cons last earlier =>
      rw [List.forall_mem_cons] at hread
      simp only [terminateLast]
      split
      · exact List.forall_mem_cons.mpr hread
      · refine List.forall_mem_cons.mpr ⟨{ hread.1 with terminator := ?_ }, hread.2⟩
        simpa using hterminator

/-- A member takes up the core of the node it is read off. -/
@[simp] theorem declaration_memberOf (source : Text) (listKind : ListKind) (node : SyntaxNode) :
    (node.memberOf source listKind).declaration = node.coreSpan := by
  unfold memberOf
  split <;> rfl

/-- A member has no separator until one is read behind it. -/
@[simp] theorem terminator_memberOf (source : Text) (listKind : ListKind) (node : SyntaxNode) :
    (node.memberOf source listKind).terminator = none := by
  unfold memberOf
  split <;> rfl

/-- The members that are read off nodes lie where the nodes do. -/
theorem readMembers_within {read : List Member}
    (hread : ∀ member ∈ read, MemberWithin start stop member)
    (hnodes : ∀ node ∈ nodes, node.ordered = true ∧ start ≤ node.span.start
      ∧ node.span.stop ≤ stop) :
    ∀ member ∈ readMembers source listKind read nodes, MemberWithin start stop member := by
  induction nodes generalizing read with
  | nil => simpa [readMembers] using hread
  | cons node rest ih =>
      rw [List.forall_mem_cons] at hnodes
      obtain ⟨⟨hnode, hstart, hstop⟩, hrest⟩ := hnodes
      unfold readMembers
      split
      · exact ih hread hrest
      · refine ih ?_ hrest
        split
        · exact hread
        · exact terminateLast_within hstop hread
      · refine ih (List.forall_mem_cons.mpr ⟨?_, hread⟩) hrest
        have hcore : start ≤ node.coreSpan.start ∧ node.coreSpan.start ≤ node.coreSpan.stop
            ∧ node.coreSpan.stop ≤ stop := by
          have := coreSpan_within node hnode
          omega
        exact ⟨by simpa using hcore.1, by simpa using hcore.2.1, by simpa using hcore.2.2, by simp⟩

/-- **What a member list is read off**: the first opening and the last closing brace among the
children, the members between them and the comments of the source that are free there. -/
theorem memberList?_eq_some {comments : List Comment} {parent : Option Span} {body : SyntaxNode}
    {list : MemberList} (h : body.memberList? source comments parent listKind = some list) :
    ∃ opening ∈ body.childByKind? .opening,
      ∃ closing ∈ body.children.reverse.find? (·.kind = .closing),
        list.opening = opening.span ∧ list.closing = closing.span
        ∧ list.members = readMembers source listKind [] (body.children.filter fun child =>
          opening.span.stop ≤ child.span.start && child.span.stop ≤ closing.span.start)
        ∧ list.comments = freeComments comments ⟨opening.span.stop, closing.span.start, 0, 0⟩
          (list.members.map Member.declaration) := by
  unfold memberList? at h
  cases hopening : body.childByKind? .opening with
  | none => simp [hopening] at h
  | some opening =>
      cases hclosing : body.children.reverse.find? (·.kind = .closing) with
      | none => simp [hopening, hclosing] at h
      | some closing =>
          simp only [hopening, hclosing, Option.bind_eq_bind, Option.bind_some] at h
          split at h
          · cases h
          · cases h
            exact ⟨opening, rfl, closing, rfl, rfl, rfl, rfl, rfl⟩

/-- A list is reported at the node around it, or at its own where the type stands for itself. -/
theorem memberList?_parent {comments : List Comment} {parent : Option Span} {body : SyntaxNode}
    {list : MemberList} (h : body.memberList? source comments parent listKind = some list) :
    list.parent = body.span ∨ parent = some list.parent := by
  unfold memberList? at h
  obtain ⟨opening, -, h⟩ := Option.bind_eq_some_iff.mp h
  obtain ⟨closing, -, h⟩ := Option.bind_eq_some_iff.mp h
  dsimp only at h
  split at h
  · cases h
  · cases h
    cases parent with
    | none => exact .inl (by simp)
    | some outer =>
        by_cases hkind : listKind = .typeLiteral
        · exact .inl (by simp [hkind])
        · exact .inr (by simp [hkind])

/-- The braces of a body are among its children. -/
theorem braces_mem {body opening closing : SyntaxNode}
    (hopening : opening ∈ body.childByKind? .opening)
    (hclosing : closing ∈ body.children.reverse.find? (·.kind = .closing)) :
    opening ∈ body.children ∧ closing ∈ body.children :=
  ⟨List.mem_of_find?_eq_some hopening, List.mem_reverse.mp (List.mem_of_find?_eq_some hclosing)⟩

variable {comments : List Comment} {parent : Option Span}

theorem memberList?_within {body : SyntaxNode} {list : MemberList} (hbody : body.ordered = true)
    (hcomments : comments.Pairwise fun a b => a.span.start ≤ b.span.start)
    (h : body.memberList? source comments parent listKind = some list) :
    list.Within body.span.start body.span.stop := by
  obtain ⟨opening, hopening, closing, hclosing, hopen, hclose, hmembers, hfree⟩ :=
    memberList?_eq_some h
  obtain ⟨hopening, hclosing⟩ := braces_mem hopening hclosing
  have hall := orderedAll_children hbody
  have hnodes : ∀ node ∈ body.children.filter (fun child =>
      opening.span.stop ≤ child.span.start && child.span.stop ≤ closing.span.start),
      node.ordered = true ∧ list.bodyStart ≤ node.span.start
        ∧ node.span.stop ≤ list.bodyStop := by
    intro node hnode
    obtain ⟨hmem, hbetween⟩ := List.mem_filter.mp hnode
    simp only [Bool.and_eq_true, decide_eq_true_eq] at hbetween
    rw [MemberList.bodyStart, MemberList.bodyStop, hopen, hclose]
    exact ⟨(ordered_of_mem hall hmem).1, hbetween⟩
  have hwithin : ∀ member ∈ list.members, MemberWithin list.bodyStart list.bodyStop member := by
    rw [hmembers]
    exact readMembers_within (by simp) hnodes
  refine ⟨hopen ▸ (ordered_of_mem hall hopening).2.1, hclose ▸ (ordered_of_mem hall hclosing).2.2,
    fun hne => ?_, ?_⟩
  · obtain ⟨member, hmember⟩ := List.exists_mem_of_ne_nil _ hne
    have h := hwithin member hmember
    exact Nat.le_trans h.start_le (Nat.le_trans h.le h.le_stop)
  · have hmember : ∀ member ∈ list.members, ¬ member.declaration.start < list.bodyStart
        ∧ ¬ list.bodyStop < member.lastToken.stop := fun member hmember =>
      ⟨Nat.not_lt.mpr (hwithin member hmember).start_le,
        Nat.not_lt.mpr (hwithin member hmember).lastToken⟩
    have hcomment : ∀ comment ∈ list.comments, list.bodyStart ≤ comment.span.start
        ∧ comment.span.stop ≤ list.bodyStop := by
      rw [hfree, MemberList.bodyStart, MemberList.bodyStop, hopen, hclose]
      exact freeComments_within hcomments
    unfold MemberList.outside?
    rw [List.findSome?_eq_none_iff.mpr fun member h => by simp [hmember member h]]
    exact List.findSome?_eq_none_iff.mpr fun comment h => by
      simp [Span.contains, hcomment comment h]

mutual

/-- **What holds of the list of every body holds of every list below a node**, if it is enough that
a body is good below its parent, and the children of a good node are good below that node. -/
theorem forall_mem_listsBelow_of_parent (good : Option Span → SyntaxNode → Prop)
    {p : MemberList → Prop}
    (hchildren : ∀ parent node, good parent node → ∀ child ∈ node.children,
      good (some node.span) child)
    (hlist : ∀ parent body, good parent body → ∀ listKind list, body.listKind? = some listKind →
      body.memberList? source comments parent listKind = some list → p list) :
    ∀ (node : SyntaxNode) (parent : Option Span), good parent node →
    ∀ list ∈ listsBelow source comments parent node, p list
  | .node kind role span isNamed hasError children, parent, h => by
      intro list hmem
      simp only [listsBelow] at hmem
      rcases List.mem_append.mp hmem with hown | hbelow
      · split at hown
        next listKind hkind =>
          split at hown
          · simp at hown
          · exact hlist _ _ h listKind list hkind (Option.mem_toList.mp hown)
        next => simp at hown
      · exact forall_mem_listsBelowAll_of_parent good hchildren hlist children _
          (hchildren _ _ h) list hbelow

theorem forall_mem_listsBelowAll_of_parent (good : Option Span → SyntaxNode → Prop)
    {p : MemberList → Prop}
    (hchildren : ∀ parent node, good parent node → ∀ child ∈ node.children,
      good (some node.span) child)
    (hlist : ∀ parent body, good parent body → ∀ listKind list, body.listKind? = some listKind →
      body.memberList? source comments parent listKind = some list → p list) :
    ∀ (nodes : List SyntaxNode) (parent : Option Span), (∀ node ∈ nodes, good parent node) →
    ∀ list ∈ listsBelowAll source comments parent nodes, p list
  | [], _, _ => by simp [listsBelowAll]
  | first :: rest, parent, h => by
      intro list hmem
      rw [List.forall_mem_cons] at h
      simp only [listsBelowAll] at hmem
      rcases List.mem_append.mp hmem with hfirst | hrest
      · exact forall_mem_listsBelow_of_parent good hchildren hlist first parent h.1 list hfirst
      · exact forall_mem_listsBelowAll_of_parent good hchildren hlist rest parent h.2 list hrest

end

/-- The same, where the parent of a body is of no account. -/
theorem forall_mem_listsBelow (good : SyntaxNode → Prop) {p : MemberList → Prop}
    (hchildren : ∀ node, good node → ∀ child ∈ node.children, good child)
    (hlist : ∀ body, good body → ∀ parent listKind list, body.listKind? = some listKind →
      body.memberList? source comments parent listKind = some list → p list)
    (node : SyntaxNode) (parent : Option Span) (h : good node) :
    ∀ list ∈ listsBelow source comments parent node, p list :=
  forall_mem_listsBelow_of_parent (fun _ => good) (fun _ => hchildren)
    (fun parent body hbody => hlist body hbody parent) node parent h

theorem listsBelow_within {node : SyntaxNode}
    (hcomments : comments.Pairwise fun a b => a.span.start ≤ b.span.start)
    (h : node.ordered = true) :
    ∀ list ∈ listsBelow source comments parent node,
      list.Within node.span.start node.span.stop := by
  -- a node below lies between the ends of the node as well
  refine forall_mem_listsBelow (fun below => below.ordered = true
    ∧ node.span.start ≤ below.span.start ∧ below.span.stop ≤ node.span.stop) ?_ ?_ node parent
    ⟨h, Nat.le_refl _, Nat.le_refl _⟩
  · rintro below ⟨hordered, hstart, hstop⟩ child hchild
    obtain ⟨hchildOrdered, hbehind, hbefore⟩ := ordered_of_mem (orderedAll_children hordered) hchild
    exact ⟨hchildOrdered, Nat.le_trans hstart hbehind, Nat.le_trans hbefore hstop⟩
  · rintro body ⟨hordered, hstart, hstop⟩ parent listKind list - hlist
    have hwithin := memberList?_within hordered hcomments hlist
    exact { hwithin with
      start_le := Nat.le_trans hstart hwithin.start_le
      le_stop := Nat.le_trans hwithin.le_stop hstop }

/-- **Every list of a well-formed tree that has members passes the range check.** -/
theorem WellFormed.checkRanges {root : SyntaxNode} (h : root.WellFormed source) :
    ∀ list ∈ root.memberLists source, list.members ≠ [] → list.checkRanges source = .ok () :=
  fun list hlist hmembers => (listsBelow_within (comments_sorted source h.ordered) h.ordered
    list hlist).checkRanges hmembers h.stop_le

end SyntaxNode

end KeyOrder
