import KeyOrder.Proofs.Syntax.ReadOff

/-!
# What the core of a node takes in

The tokens of a node are the leaves with no comment on the way to them. If every node that is no
comment is a leaf or has a child that is none, **the core of a node reaches from its first token to
its last one** (`coreSpan_reaches_tokens`). No comment takes in a token or lies in one, so a comment
below the node stands before the core, in it or behind it.
-/

namespace KeyOrder

namespace Span

/-- Where a span starts, with the row. -/
def front (span : Span) : Nat × Nat := (span.start, span.startRow)

/-- Where a span ends, with the row. -/
def back (span : Span) : Nat × Nat := (span.stop, span.endRow)

end Span

namespace SyntaxNode

/-! ## Tokens of a tree -/

mutual

/-- The leaves of a tree that have no comment on the way to them and are none, in source order. -/
def tokens : SyntaxNode → List SyntaxNode
  | .node kind role span isNamed hasError children =>
    if kind = .comment then []
    else if children.isEmpty then [.node kind role span isNamed hasError children]
    else tokensOfAll children

/-- The tokens of several trees. -/
def tokensOfAll : List SyntaxNode → List SyntaxNode
  | [] => []
  | child :: rest => tokens child ++ tokensOfAll rest

end

/-- Whether every one of the nodes that is no comment and no leaf has a child that is no comment. -/
def TokensAbound (nodes : List SyntaxNode) : Prop :=
  ∀ node ∈ nodes, node.isComment = false → node.children ≠ [] →
    ∃ child ∈ node.children, child.isComment = false

instance (nodes : List SyntaxNode) : Decidable (TokensAbound nodes) :=
  inferInstanceAs (Decidable (∀ _ ∈ _, _))

variable {node child below token : SyntaxNode} {children : List SyntaxNode} {start stop : Nat}

mutual

/-- **What holds of a node if it holds of its children holds of every node.** -/
theorem induction_children {motive : SyntaxNode → Prop}
    (step : ∀ node, (∀ child ∈ node.children, motive child) → motive node) :
    ∀ node, motive node
  | .node kind role span isNamed hasError children =>
    step (.node kind role span isNamed hasError children) (induction_childrenOfAll step children)

theorem induction_childrenOfAll {motive : SyntaxNode → Prop}
    (step : ∀ node, (∀ child ∈ node.children, motive child) → motive node) :
    ∀ children : List SyntaxNode, ∀ child ∈ children, motive child
  | [] => by simp
  | child :: rest => List.forall_mem_cons.mpr
      ⟨induction_children step child, induction_childrenOfAll step rest⟩

end

theorem mem_nodesOfAll : below ∈ nodesOfAll children ↔ ∃ child ∈ children, below ∈ child.nodes := by
  induction children with
  | nil => simp [nodesOfAll]
  | cons first rest ih => simp [nodesOfAll, ih]

theorem mem_nodes_iff :
    below ∈ node.nodes ↔ below = node ∨ ∃ child ∈ node.children, below ∈ child.nodes := by
  cases node
  rw [nodes, List.mem_cons, mem_nodesOfAll]
  rfl

theorem mem_tokensOfAll :
    token ∈ tokensOfAll children ↔ ∃ child ∈ children, token ∈ child.tokens := by
  induction children with
  | nil => simp [tokensOfAll]
  | cons first rest ih => simp [tokensOfAll, ih]

theorem tokens_eq (node : SyntaxNode) :
    node.tokens = if node.kind = .comment then []
      else if node.children = [] then [node] else tokensOfAll node.children := by
  cases node
  simp only [tokens, List.isEmpty_iff]
  rfl

theorem tokens_of_comment (h : node.isComment = true) : node.tokens = [] := by
  rw [tokens_eq, if_pos (of_decide_eq_true h)]

theorem tokens_of_leaf (h : node.isComment = false) (hleaf : node.children = []) :
    node.tokens = [node] := by
  rw [tokens_eq, if_neg (of_decide_eq_false h), if_pos hleaf]

theorem tokens_of_inner (h : node.isComment = false) (hinner : node.children ≠ []) :
    node.tokens = tokensOfAll node.children := by
  rw [tokens_eq, if_neg (of_decide_eq_false h), if_neg hinner]

/-- A token of a node is the node itself or a token of one of its children. -/
theorem eq_or_of_mem_tokens (h : token ∈ node.tokens) :
    (token = node ∧ node.children = []) ∨ ∃ child ∈ node.children, token ∈ child.tokens := by
  by_cases hcomment : node.isComment = true
  · simp [tokens_of_comment hcomment] at h
  · rw [Bool.not_eq_true] at hcomment
    by_cases hleaf : node.children = []
    · rw [tokens_of_leaf hcomment hleaf] at h
      exact .inl ⟨by simpa using h, hleaf⟩
    · rw [tokens_of_inner hcomment hleaf] at h
      exact .inr (mem_tokensOfAll.mp h)

/-- The nodes of an ordered tree lie in its span. -/
theorem mem_nodes_within (hordered : node.ordered = true) (h : below ∈ node.nodes) :
    node.span.start ≤ below.span.start ∧ below.span.start ≤ below.span.stop
      ∧ below.span.stop ≤ node.span.stop := by
  induction node using induction_children with
  | step node ih =>
      rcases mem_nodes_iff.mp h with rfl | ⟨child, hchild, hbelow⟩
      · exact ⟨Nat.le_refl _, le_of_ordered _ hordered, Nat.le_refl _⟩
      · obtain ⟨hchildOrdered, hstart, hstop⟩ :=
          ordered_of_mem (orderedAll_children hordered) hchild
        have := ih child hchild hchildOrdered hbelow
        omega

theorem tokens_subset_nodes (node : SyntaxNode) : node.tokens ⊆ node.nodes := by
  induction node using induction_children with
  | step node ih =>
      intro token htoken
      rcases eq_or_of_mem_tokens htoken with ⟨rfl, -⟩ | ⟨child, hchild, hbelow⟩
      · exact self_mem_nodes _
      · exact mem_nodes_iff.mpr (.inr ⟨child, hchild, ih child hchild hbelow⟩)

theorem tokensOfAll_follow (hall : orderedAll start stop children = true)
    (h : ∀ child ∈ children, child.tokens.Pairwise fun a b => a.span.stop ≤ b.span.start) :
    (tokensOfAll children).Pairwise fun a b => a.span.stop ≤ b.span.start := by
  induction children generalizing start with
  | nil => exact .nil
  | cons child rest ih =>
      rw [List.forall_mem_cons] at h
      obtain ⟨-, hordered, hbehind⟩ := orderedAll_cons.mp hall
      rw [tokensOfAll]
      refine List.pairwise_append.mpr ⟨h.1, ih hbehind h.2, fun a ha b hb => ?_⟩
      obtain ⟨later, hlater, hb⟩ := mem_tokensOfAll.mp hb
      obtain ⟨hlaterOrdered, hstart, -⟩ := ordered_of_mem hbehind hlater
      have := mem_nodes_within hordered (tokens_subset_nodes child ha)
      have := mem_nodes_within hlaterOrdered (tokens_subset_nodes later hb)
      omega

/-- **The tokens of an ordered tree follow each other.** -/
theorem tokens_follow (hordered : node.ordered = true) :
    node.tokens.Pairwise fun a b => a.span.stop ≤ b.span.start := by
  induction node using induction_children with
  | step node ih =>
      by_cases hcomment : node.isComment = true
      · simp [tokens_of_comment hcomment]
      · rw [Bool.not_eq_true] at hcomment
        by_cases hleaf : node.children = []
        · simp [tokens_of_leaf hcomment hleaf]
        · rw [tokens_of_inner hcomment hleaf]
          exact tokensOfAll_follow (orderedAll_children hordered) fun child hchild =>
            ih child hchild (ordered_of_mem (orderedAll_children hordered) hchild).1

/-- **A comment takes in no token and lies in none**: it stands before a token or behind it. -/
theorem comment_apart_of_token (hordered : node.ordered = true) (hbelow : below ∈ node.nodes)
    (hcomment : below.isComment = true) (htoken : token ∈ node.tokens) :
    below.span.stop ≤ token.span.start ∨ token.span.stop ≤ below.span.start := by
  induction node using induction_children with
  | step node ih =>
      have hall := orderedAll_children hordered
      rcases mem_nodes_iff.mp hbelow with rfl | ⟨outer, houter, hbelow⟩
      · simp [tokens_of_comment hcomment] at htoken
      · rcases eq_or_of_mem_tokens htoken with ⟨-, hleaf⟩ | ⟨inner, hinner, htoken⟩
        · simp [hleaf] at houter
        · obtain ⟨houterOrdered, -⟩ := ordered_of_mem hall houter
          obtain ⟨hinnerOrdered, -⟩ := ordered_of_mem hall hinner
          have hin := mem_nodes_within houterOrdered hbelow
          have hout := mem_nodes_within hinnerOrdered (tokens_subset_nodes inner htoken)
          -- the two stand in the same child, or their children follow each other
          rcases eq_or_of_pairwise (pairwise_of_orderedAll hall) houter hinner
            with rfl | hbefore | hbehind
          · exact ih outer houter houterOrdered hbelow htoken
          · omega
          · omega

/-! ## The ends of the core -/

theorem coreSpan_of_leaf (hleaf : node.children = []) : node.coreSpan = node.span := by
  cases node
  obtain rfl := hleaf
  simp [coreSpan, coreSpans, SyntaxNode.span]

theorem coreSpans_ne_nil (h : ∃ child ∈ children, child.isComment = false) :
    coreSpans children ≠ [] := by
  induction children with
  | nil => simp at h
  | cons first rest ih =>
      rw [coreSpans]
      by_cases hcomment : first.isComment = true
      · obtain ⟨child, hchild, hchildComment⟩ := h
        rw [if_pos hcomment]
        rcases List.mem_cons.mp hchild with rfl | hrest
        · simp [hcomment] at hchildComment
        · exact ih ⟨child, hrest, hchildComment⟩
      · simp [hcomment]

/-- The core of a node with cores below it starts with the first and ends with the last of them. -/
theorem ends_coreSpans (h : coreSpans node.children ≠ []) :
    (coreSpans node.children).head?.map Span.front = some node.coreSpan.front
      ∧ (coreSpans node.children).getLast?.map Span.back = some node.coreSpan.back := by
  cases node with
  | node kind role span isNamed hasError children =>
      change coreSpans children ≠ [] at h
      rw [coreSpan]
      show (coreSpans children).head?.map Span.front = _ ∧
        (coreSpans children).getLast?.map Span.back = _
      cases hcores : coreSpans children with
      | nil => exact absurd hcores h
      | cons first rest => exact ⟨rfl, by rw [List.getLast?_cons]; rfl⟩

/-- If the core of each of the nodes that is no comment reaches from its first token to its last
one, then so do the cores together. -/
theorem ends_tokensOfAll
    (h : ∀ child ∈ children, child.isComment = false →
      child.tokens.head?.map (·.span.front) = some child.coreSpan.front
        ∧ child.tokens.getLast?.map (·.span.back) = some child.coreSpan.back) :
    (tokensOfAll children).head?.map (·.span.front) = (coreSpans children).head?.map Span.front
      ∧ (tokensOfAll children).getLast?.map (·.span.back) =
        (coreSpans children).getLast?.map Span.back := by
  induction children with
  | nil => exact ⟨rfl, rfl⟩
  | cons child rest ih =>
      rw [List.forall_mem_cons] at h
      obtain ⟨hfronts, hbacks⟩ := ih h.2
      rw [tokensOfAll, coreSpans]
      by_cases hcomment : child.isComment = true
      · simp only [hcomment, if_true, tokens_of_comment hcomment, List.nil_append]
        exact ⟨hfronts, hbacks⟩
      · rw [Bool.not_eq_true] at hcomment
        obtain ⟨hfront, hback⟩ := h.1 hcomment
        simp only [hcomment, Bool.false_eq_true, if_false, List.head?_append, List.getLast?_append,
          Option.map_or, hfront, hback, hbacks, List.head?_cons, List.getLast?_cons]
        cases (coreSpans rest).getLast? <;> exact ⟨rfl, rfl⟩

/-- **The core of a node reaches from its first token to its last one.** -/
theorem ends_tokens (hcomment : node.isComment = false) (habound : TokensAbound node.nodes) :
    node.tokens.head?.map (·.span.front) = some node.coreSpan.front
      ∧ node.tokens.getLast?.map (·.span.back) = some node.coreSpan.back := by
  induction node using induction_children with
  | step node ih =>
      by_cases hleaf : node.children = []
      · rw [tokens_of_leaf hcomment hleaf, coreSpan_of_leaf hleaf]
        exact ⟨rfl, rfl⟩
      · have hends := ends_tokensOfAll fun child hchild hchildComment =>
          ih child hchild hchildComment fun below hbelow =>
            habound below (nodes_subset_of_child hchild hbelow)
        rw [tokens_of_inner hcomment hleaf, hends.1, hends.2]
        exact ends_coreSpans (coreSpans_ne_nil (habound node (self_mem_nodes node) hcomment hleaf))

/-! ## What lies in the core -/

/-- Of nodes that follow each other the first one starts first. -/
theorem start_le_of_mem_head? {nodes : List SyntaxNode}
    (hfollow : nodes.Pairwise fun a b => a.span.stop ≤ b.span.start)
    (hproper : ∀ node ∈ nodes, node.span.start ≤ node.span.stop)
    {first : SyntaxNode} (hfirst : first ∈ nodes.head?) :
    ∀ node ∈ nodes, first.span.start ≤ node.span.start := by
  obtain ⟨rest, rfl⟩ := List.head?_eq_some_iff.mp hfirst
  rw [List.pairwise_cons] at hfollow
  intro node hnode
  rcases List.mem_cons.mp hnode with rfl | hrest
  · exact Nat.le_refl _
  · exact Nat.le_trans (hproper first List.mem_cons_self) (hfollow.1 node hrest)

/-- And the last one ends last. -/
theorem stop_le_of_mem_getLast? {nodes : List SyntaxNode}
    (hfollow : nodes.Pairwise fun a b => a.span.stop ≤ b.span.start)
    (hproper : ∀ node ∈ nodes, node.span.start ≤ node.span.stop)
    {last : SyntaxNode} (hlast : last ∈ nodes.getLast?) :
    ∀ node ∈ nodes, node.span.stop ≤ last.span.stop := by
  obtain ⟨before, rfl⟩ := List.getLast?_eq_some_iff.mp hlast
  obtain ⟨-, -, hbehind⟩ := List.pairwise_append.mp hfollow
  intro node hnode
  rcases List.mem_append.mp hnode with hbefore | hend
  · exact Nat.le_trans (hbehind node hbefore last List.mem_cons_self)
      (hproper last (List.mem_append_right _ List.mem_cons_self))
  · obtain rfl := List.mem_singleton.mp hend
    exact Nat.le_refl _

/-- **The core of a node goes from the start of its first token to the end of its last one.** So it
holds every token of the node, it lies in the span of the node, and a comment below the node lies in
it, or before it, or behind it. -/
theorem coreSpan_reaches_tokens (node : SyntaxNode) (hcomment : node.isComment = false)
    (hordered : node.ordered = true) (habound : TokensAbound node.nodes) :
    (∃ first ∈ node.tokens.head?, ∃ last ∈ node.tokens.getLast?,
        node.coreSpan =
          ⟨first.span.start, last.span.stop, first.span.startRow, last.span.endRow⟩)
      ∧ (∀ token ∈ node.tokens, node.coreSpan.contains token.span = true)
      ∧ node.span.contains node.coreSpan = true
      ∧ ∀ below ∈ node.nodes, below.isComment = true →
        node.coreSpan.contains below.span = true ∨ below.span.stop ≤ node.coreSpan.start
          ∨ node.coreSpan.stop ≤ below.span.start := by
  obtain ⟨hfront, hback⟩ := ends_tokens hcomment habound
  obtain ⟨first, hfirst, hfront⟩ := Option.map_eq_some_iff.mp hfront
  obtain ⟨last, hlast, hback⟩ := Option.map_eq_some_iff.mp hback
  obtain ⟨hstart, hstartRow⟩ := Prod.ext_iff.mp hfront
  obtain ⟨hstop, hendRow⟩ := Prod.ext_iff.mp hback
  simp only [Span.front, Span.back] at hstart hstartRow hstop hendRow
  have hproper : ∀ token ∈ node.tokens, token.span.start ≤ token.span.stop := fun token htoken =>
    (mem_nodes_within hordered (tokens_subset_nodes node htoken)).2.1
  have hbehind := start_le_of_mem_head? (tokens_follow hordered) hproper hfirst
  have hbefore := stop_le_of_mem_getLast? (tokens_follow hordered) hproper hlast
  refine ⟨⟨first, hfirst, last, hlast, ?_⟩, fun token htoken => ?_, ?_, ?_⟩
  · rw [hstart, hstop, hstartRow, hendRow]
  · rw [Span.contains_iff, ← hstart, ← hstop]
    exact ⟨hbehind token htoken, hbefore token htoken⟩
  · obtain ⟨hcoreStart, -, hcoreStop⟩ := coreSpan_within node hordered
    rw [Span.contains_iff]
    exact ⟨hcoreStart, hcoreStop⟩
  · intro below hbelow hbelowComment
    -- the comment stands on one side of the first token and on one side of the last
    have hatFirst := comment_apart_of_token hordered hbelow hbelowComment
      (List.mem_of_head? hfirst)
    have hatLast := comment_apart_of_token hordered hbelow hbelowComment
      (List.mem_of_getLast? hlast)
    have hfirstProper := hproper first (List.mem_of_head? hfirst)
    have hlastProper := hproper last (List.mem_of_getLast? hlast)
    rw [Span.contains_iff]
    omega

/-- A member with comments at its ends, between its parts and inside both of them. -/
def commentedMember : SyntaxNode :=
  .node .enumAssignment .none ⟨0, 44, 0, 4⟩ true false
    [.node .comment .none ⟨0, 4, 0, 0⟩ true false [],
      .node .computedPropertyName .name ⟨5, 21, 0, 1⟩ true false
        [.node .comment .none ⟨5, 8, 0, 0⟩ true false [],
          .node .string .none ⟨9, 12, 1, 1⟩ true false [],
          .node .comment .none ⟨13, 16, 1, 1⟩ true false [],
          .node (.other "]") .none ⟨20, 21, 1, 1⟩ false false []],
      .node .comment .none ⟨22, 26, 1, 2⟩ true false [],
      .node (.other "call_expression") .value ⟨27, 40, 2, 3⟩ true false
        [.node .identifier .none ⟨27, 30, 2, 2⟩ true false [],
          .node .comment .none ⟨32, 40, 3, 3⟩ true false []],
      .node .comment .none ⟨40, 44, 4, 4⟩ true false []]

theorem coreSpan_reaches_tokens_commented :
    commentedMember.isComment = false ∧ commentedMember.ordered = true
      ∧ TokensAbound commentedMember.nodes
      ∧ commentedMember.coreSpan = ⟨9, 30, 1, 2⟩
      ∧ (∃ first ∈ commentedMember.tokens.head?, ∃ last ∈ commentedMember.tokens.getLast?,
        commentedMember.coreSpan =
          ⟨first.span.start, last.span.stop, first.span.startRow, last.span.endRow⟩)
      ∧ (∀ token ∈ commentedMember.tokens,
        commentedMember.coreSpan.contains token.span = true)
      ∧ commentedMember.span.contains commentedMember.coreSpan = true
      ∧ ∀ below ∈ commentedMember.nodes, below.isComment = true →
        commentedMember.coreSpan.contains below.span = true
          ∨ below.span.stop ≤ commentedMember.coreSpan.start
          ∨ commentedMember.coreSpan.stop ≤ below.span.start := by
  have hcomment : commentedMember.isComment = false := by decide
  have hordered : commentedMember.ordered = true := by decide +kernel
  have habound : TokensAbound commentedMember.nodes := by decide +kernel
  exact ⟨hcomment, hordered, habound, by decide +kernel,
    coreSpan_reaches_tokens commentedMember hcomment hordered habound⟩

end SyntaxNode

end KeyOrder
