import KeyOrder.Proofs.Syntax.Laminar

/-!
# Member lists of a tree whose nodes are in place

In a tree that a parser makes, the children of a node lie one behind the other inside its span
(`SyntaxNode.inPlace`). Everything that is read off such a tree is in place too: the tokens of a
member lie between the braces of its list, the list passes the range check, and **two lists of one
tree are nested or apart**.
-/

namespace KeyOrder

namespace SyntaxNode

/-! ## Trees in place -/

mutual

/-- Whether the spans of a tree are in place: the children of a node cover something and lie one
behind the other inside its span. -/
def inPlace : SyntaxNode → Bool
  | .node _ _ span _ _ children => inPlaceAll span.start span.stop children

/-- Whether nodes are in place, cover something and lie one behind the other between two offsets. -/
def inPlaceAll (start stop : Nat) : List SyntaxNode → Bool
  | [] => start ≤ stop
  | child :: rest =>
    start ≤ child.span.start && child.span.start < child.span.stop && child.inPlace &&
      inPlaceAll child.span.stop stop rest

end

variable {node child : SyntaxNode} {children : List SyntaxNode} {start stop : Nat}

theorem inPlaceAll_children (h : node.inPlace = true) :
    inPlaceAll node.span.start node.span.stop node.children = true := by
  cases node
  rw [inPlace] at h
  exact h

theorem inPlaceAll_cons : inPlaceAll start stop (child :: children) = true
    ↔ start ≤ child.span.start ∧ child.span.start < child.span.stop ∧ child.inPlace = true
      ∧ inPlaceAll child.span.stop stop children = true := by
  simp [inPlaceAll, and_assoc]

mutual

/-- A tree in place is ordered. -/
theorem ordered_of_inPlace : ∀ (node : SyntaxNode), node.inPlace = true → node.ordered = true
  | .node _ _ _ _ _ children, h => by
      rw [ordered]
      exact orderedAll_of_inPlaceAll children _ _ (inPlaceAll_children h)

theorem orderedAll_of_inPlaceAll : ∀ (children : List SyntaxNode) (start stop : Nat),
    inPlaceAll start stop children = true → orderedAll start stop children = true
  | [], _, _, h => by simpa [inPlaceAll, orderedAll] using h
  | child :: rest, _, _, h => by
      obtain ⟨hstart, -, hchild, hrest⟩ := inPlaceAll_cons.mp h
      exact orderedAll_cons.mpr
        ⟨hstart, ordered_of_inPlace child hchild, orderedAll_of_inPlaceAll rest _ _ hrest⟩

end

/-- Each of the nodes is in place, covers something and lies between the two offsets. -/
theorem inPlace_of_mem (h : inPlaceAll start stop children = true) (hmem : child ∈ children) :
    child.inPlace = true ∧ start ≤ child.span.start ∧ child.span.start < child.span.stop
      ∧ child.span.stop ≤ stop := by
  induction children generalizing start with
  | nil => simp at hmem
  | cons first rest ih =>
      obtain ⟨hstart, hlt, hfirst, hrest⟩ := inPlaceAll_cons.mp h
      rcases List.mem_cons.mp hmem with rfl | hmem
      · have hstop := le_of_orderedAll rest _ _ (orderedAll_of_inPlaceAll rest _ _ hrest)
        exact ⟨hfirst, hstart, hlt, hstop⟩
      · obtain ⟨hchild, hbehind, hcovers, hstop⟩ := ih hrest hmem
        exact ⟨hchild, by omega, hcovers, hstop⟩

end SyntaxNode

/-! ## Lists in place -/

namespace MemberList

/-- A list between two offsets: its braces cover something, its tokens and comments lie between
them, and its body covers something if there is a member. -/
structure InPlace (list : MemberList) (start stop : Nat) : Prop where
  start_le : start ≤ list.opening.start
  opening_lt : list.opening.start < list.opening.stop
  closing_lt : list.closing.start < list.closing.stop
  le_stop : list.closing.stop ≤ stop
  body_lt : list.members ≠ [] → list.bodyStart < list.bodyStop
  inside : list.outside? = none

variable {list outer inner : MemberList} {start stop start' stop' : Nat}

theorem InPlace.mono (h : list.InPlace start stop) (hstart : start' ≤ start)
    (hstop : stop ≤ stop') : list.InPlace start' stop' :=
  { h with start_le := Nat.le_trans hstart h.start_le, le_stop := Nat.le_trans h.le_stop hstop }

/-- **A list in place that has members passes the range check.** -/
theorem InPlace.checkRanges {source : Text} (h : list.InPlace start stop)
    (hmembers : list.members ≠ []) (hstop : stop ≤ source.byteLength) :
    list.checkRanges source = .ok () :=
  Within.checkRanges ⟨h.start_le, h.le_stop, fun hne => Nat.le_of_lt (h.body_lt hne), h.inside⟩
    hmembers hstop

end MemberList

namespace SyntaxNode

variable {source : Text} {comments : List Comment} {parent : Option Span} {listKind : ListKind}
  {nodes : List SyntaxNode}

theorem memberList?_inPlace {body : SyntaxNode} {list : MemberList} (hbody : body.inPlace = true)
    (hcomments : comments.Pairwise fun a b => a.span.start ≤ b.span.start)
    (h : body.memberList? source comments parent listKind = some list) :
    list.InPlace body.span.start body.span.stop := by
  obtain ⟨opening, hopening, closing, hclosing, hopen, hclose, hmembers, -⟩ :=
    memberList?_eq_some h
  obtain ⟨hopening, hclosing⟩ := braces_mem hopening hclosing
  have hwithin := memberList?_within (ordered_of_inPlace body hbody) hcomments h
  have hall := inPlaceAll_children hbody
  refine ⟨hwithin.start_le, hopen ▸ (inPlace_of_mem hall hopening).2.2.1,
    hclose ▸ (inPlace_of_mem hall hclosing).2.2.1, hwithin.le_stop, fun hne => ?_, hwithin.inside⟩
  -- a member is read off a child between the braces, and that child covers something
  obtain ⟨child, hchild⟩ : ∃ child, child ∈ body.children.filter fun child =>
      opening.span.stop ≤ child.span.start && child.span.stop ≤ closing.span.start := by
    refine List.exists_mem_of_ne_nil _ fun hnone => hne ?_
    rw [hmembers, hnone]
    rfl
  obtain ⟨hmem, hbetween⟩ := List.mem_filter.mp hchild
  simp only [Bool.and_eq_true, decide_eq_true_eq] at hbetween
  have := (inPlace_of_mem hall hmem).2.2.1
  rw [MemberList.bodyStart, MemberList.bodyStop, hopen, hclose]
  omega

theorem listsBelow_inPlace {node : SyntaxNode}
    (hcomments : comments.Pairwise fun a b => a.span.start ≤ b.span.start)
    (h : node.inPlace = true) :
    ∀ list ∈ listsBelow source comments parent node,
      list.InPlace node.span.start node.span.stop := by
  refine forall_mem_listsBelow (fun below => below.inPlace = true
    ∧ node.span.start ≤ below.span.start ∧ below.span.stop ≤ node.span.stop) ?_ ?_ node parent
    ⟨h, Nat.le_refl _, Nat.le_refl _⟩
  · rintro below ⟨hplace, hstart, hstop⟩ child hchild
    obtain ⟨hchildPlace, hbehind, -, hbefore⟩ := inPlace_of_mem (inPlaceAll_children hplace) hchild
    exact ⟨hchildPlace, Nat.le_trans hstart hbehind, Nat.le_trans hbefore hstop⟩
  · rintro body ⟨hplace, hstart, hstop⟩ parent listKind list - hlist
    exact (memberList?_inPlace hplace hcomments hlist).mono hstart hstop

variable {root : SyntaxNode}

/-- The lists of a tree in place are in place. -/
theorem memberLists_inPlace (h : root.inPlace = true) :
    ∀ list ∈ root.memberLists source, list.InPlace root.span.start root.span.stop :=
  listsBelow_inPlace (comments_sorted source (ordered_of_inPlace root h)) h

/-- **Two lists of a tree in place are nested or apart.** -/
theorem memberLists_pairwise (h : root.inPlace = true) :
    (root.memberLists source).Pairwise MemberList.NestedOrApart :=
  listsBelow_pairwise root none (ordered_of_inPlace root h)

end SyntaxNode

end KeyOrder
