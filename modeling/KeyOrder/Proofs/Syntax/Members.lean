import KeyOrder.Proofs.Syntax.ReadOff

/-!
# Which children become members

A body is read from left to right with the members read so far at hand, because a separator goes to
the member before it. Read without them (`members`), **each child that is no comment and no
separator gives one member, and the first separator with a text on the way to the next one is its
terminator**. So the members of a list are, apart from their terminators, what the entries between
the braces of a body are read as, one by one (`memberLists_members`, `map_unterminated_members`);
and no body without a syntax error in it is passed over (`exists_parent_memberLists`).
-/

namespace KeyOrder

/-- The member without its separator. -/
def Member.unterminated (member : Member) : Member := { member with terminator := none }

namespace SyntaxNode

/-- Whether a child of a body is a member. -/
def isEntry (node : SyntaxNode) : Bool := !node.isComment && node.kind ≠ .separator

/-- Whether a child of a body is a separator with a text. -/
def isTerminator (node : SyntaxNode) : Bool := node.kind = .separator && !node.isEmpty

/-- The first separator among the children in front of the next member. -/
def terminatorIn (children : List SyntaxNode) : Option Span :=
  ((children.takeWhile fun child => !child.isEntry).find? isTerminator).map span

/-- The members of a body, each with the separator behind it. -/
def members (source : Text) (kind : ListKind) : List SyntaxNode → List Member
  | [] => []
  | child :: rest =>
    if child.isEntry then
      { child.memberOf source kind with terminator := terminatorIn rest } ::
        members source kind rest
    else
      members source kind rest

variable {source : Text} {kind : ListKind} {child body : SyntaxNode} {rest : List SyntaxNode}

/-! ## One child -/

theorem terminatorIn_cons_entry (h : child.isEntry = true) :
    terminatorIn (child :: rest) = none := by
  simp [terminatorIn, h]

theorem terminatorIn_cons_terminator (h : child.isTerminator = true) :
    terminatorIn (child :: rest) = some child.span := by
  have hentry : child.isEntry = false := by
    simp only [isTerminator, Bool.and_eq_true, decide_eq_true_eq] at h
    simp [isEntry, h.1]
  simp [terminatorIn, hentry, h]

theorem terminatorIn_cons_other (hentry : child.isEntry = false)
    (h : child.isTerminator = false) : terminatorIn (child :: rest) = terminatorIn rest := by
  simp [terminatorIn, hentry, h]

/-- How members and separators are read, by what a child is. -/
theorem readMembers_cons (read : List Member) :
    readMembers source kind read (child :: rest) =
      if child.isEntry then readMembers source kind (child.memberOf source kind :: read) rest
      else if child.isTerminator then readMembers source kind (terminateLast child.span read) rest
      else readMembers source kind read rest := by
  rw [readMembers]
  split
  next h => simp [isEntry, isTerminator, isComment, h]
  next h => by_cases hempty : child.isEmpty = true <;> simp [isEntry, isTerminator, h, hempty]
  next hcomment hseparator =>
    have hentry : child.isEntry = true := by
      simp only [isEntry, isComment, Bool.and_eq_true, Bool.not_eq_true', decide_eq_false_iff_not,
        decide_eq_true_eq]
      exact ⟨hcomment, hseparator⟩
    rw [if_pos hentry]

/-! ## All children -/

/-- **Behind members read so far come those of the children**, and the last one so far gets the
separator in front of these, unless it has one. -/
theorem readMembers_eq (children : List SyntaxNode) :
    readMembers source kind [] children = members source kind children
      ∧ ∀ (last : Member) (earlier : List Member),
        readMembers source kind (last :: earlier) children =
          earlier.reverse ++ { last with terminator := last.terminator <|> terminatorIn children } ::
            members source kind children := by
  induction children with
  | nil =>
      refine ⟨rfl, fun last earlier => ?_⟩
      simp [readMembers, members, terminatorIn]
  | cons child rest ih =>
      obtain ⟨hfirst, hlater⟩ := ih
      simp only [readMembers_cons, members]
      cases hentry : child.isEntry with
      | true =>
          refine ⟨?_, fun last earlier => ?_⟩
          · simp [hlater]
          · simp [hlater, terminatorIn_cons_entry hentry]
      | false =>
          cases hterminator : child.isTerminator with
          | false => simp [hfirst, hlater, terminatorIn_cons_other hentry hterminator]
          | true =>
              refine ⟨by simp [terminateLast, hfirst], fun last earlier => ?_⟩
              rw [terminatorIn_cons_terminator hterminator]
              cases hlast : last.terminator with
              | none => simp [terminateLast, hlast, hlater]
              | some terminator => simp [terminateLast, hlast, hlater]

theorem unterminated_memberOf (child : SyntaxNode) (terminator : Option Span) :
    Member.unterminated { child.memberOf source kind with terminator } =
      child.memberOf source kind := by
  unfold Member.unterminated memberOf
  split <;> rfl

/-- **One member for each child that is no comment and no separator.** -/
theorem map_unterminated_members (children : List SyntaxNode) :
    (members source kind children).map Member.unterminated =
      (children.filter isEntry).map (memberOf source kind) := by
  induction children with
  | nil => rfl
  | cons child rest ih =>
      cases hentry : child.isEntry with
      | false => simpa [members, hentry] using ih
      | true =>
          rw [members, if_pos hentry, List.map_cons, unterminated_memberOf, ih,
            List.filter_cons_of_pos hentry, List.map_cons]

/-! ## Lists -/

theorem memberList?_kind {comments : List Comment} {parent : Option Span} {list : MemberList}
    (h : body.memberList? source comments parent kind = some list) : list.kind = kind := by
  unfold memberList? at h
  obtain ⟨opening, -, h⟩ := Option.bind_eq_some_iff.mp h
  obtain ⟨closing, -, h⟩ := Option.bind_eq_some_iff.mp h
  dsimp only at h
  split at h <;> cases h
  rfl

/-- **The members of a list are those of a body**: the children between its braces, each entry with
the separator behind it. -/
theorem memberLists_members (root : SyntaxNode) (source : Text) :
    ∀ list ∈ root.memberLists source, ∃ body ∈ root.nodes, body.listKind? = some list.kind
      ∧ list.members = members source list.kind (body.children.filter fun child =>
        list.bodyStart ≤ child.span.start && child.span.stop ≤ list.bodyStop) := by
  refine forall_mem_listsBelow (fun below => below.nodes ⊆ root.nodes) ?_ ?_ root none
    (List.Subset.refl _)
  · intro below hnodes child hchild
    exact List.Subset.trans (nodes_subset_of_child hchild) hnodes
  · intro body hnodes parent listKind list hkind hlist
    obtain ⟨opening, -, closing, -, hopen, hclose, hmembers, -⟩ := memberList?_eq_some hlist
    obtain rfl := memberList?_kind hlist
    refine ⟨body, hnodes body.self_mem_nodes, hkind, ?_⟩
    rw [hmembers, (readMembers_eq _).1, MemberList.bodyStart, MemberList.bodyStop, hopen, hclose]

variable {comments : List Comment}

mutual

theorem exists_parent_listsBelow (hkind : body.listKind? = some kind)
    (herror : body.hasError = false) : ∀ (node : SyntaxNode) (parent : Option Span),
    body ∈ node.nodes → ∃ outer, ∀ list ∈ body.memberList? source comments outer kind,
      list ∈ listsBelow source comments parent node
  | .node nodeKind role span isNamed hasError children, parent, h => by
      rw [nodes] at h
      rcases List.mem_cons.mp h with rfl | hbelow
      · obtain rfl : hasError = false := herror
        refine ⟨parent, fun list hlist => ?_⟩
        simp only [listsBelow, hkind]
        exact List.mem_append_left _ (Option.mem_toList.mpr hlist)
      · obtain ⟨outer, houter⟩ := exists_parent_listsBelowAll hkind herror children (some span) hbelow
        refine ⟨outer, fun list hlist => ?_⟩
        simp only [listsBelow]
        exact List.mem_append_right _ (houter list hlist)

theorem exists_parent_listsBelowAll (hkind : body.listKind? = some kind)
    (herror : body.hasError = false) : ∀ (children : List SyntaxNode) (parent : Option Span),
    body ∈ nodesOfAll children → ∃ outer, ∀ list ∈ body.memberList? source comments outer kind,
      list ∈ listsBelowAll source comments parent children
  | [], _, h => by
      rw [nodesOfAll] at h
      cases h
  | child :: rest, parent, h => by
      rw [nodesOfAll] at h
      rw [listsBelowAll]
      rcases List.mem_append.mp h with hchild | hrest
      · obtain ⟨outer, houter⟩ := exists_parent_listsBelow hkind herror child parent hchild
        exact ⟨outer, fun list hlist => List.mem_append_left _ (houter list hlist)⟩
      · obtain ⟨outer, houter⟩ := exists_parent_listsBelowAll hkind herror rest parent hrest
        exact ⟨outer, fun list hlist => List.mem_append_right _ (houter list hlist)⟩

end

/-- **Every body without a syntax error in it is read**: its list, if it has one, is among those of
the tree. -/
theorem exists_parent_memberLists {root : SyntaxNode} (hkind : body.listKind? = some kind)
    (herror : body.hasError = false) (h : body ∈ root.nodes) :
    ∃ parent, ∀ list ∈ body.memberList? source (root.comments source) parent kind,
      list ∈ root.memberLists source :=
  exists_parent_listsBelow hkind herror root none h

end SyntaxNode

end KeyOrder
