import KeyOrder.Proofs.Syntax.Ordered

/-!
# Lists of one tree are nested or apart

The lists below a node lie in one of its children each, and the children of a node lie one behind
the other. Hence **two lists of an ordered tree are nested or apart**: the child that holds the inner
list of a body stands before, between or behind the braces, or is one of them.
-/

namespace KeyOrder

/-- Two members of a list whose members are related in pairs are the same or related. -/
theorem eq_or_of_pairwise {α : Type} {R : α → α → Prop} {l : List α} (h : l.Pairwise R) {a b : α}
    (ha : a ∈ l) (hb : b ∈ l) : a = b ∨ R a b ∨ R b a := by
  obtain ⟨i, hi, rfl⟩ := List.getElem_of_mem ha
  obtain ⟨j, hj, rfl⟩ := List.getElem_of_mem hb
  have hpairs := List.pairwise_iff_getElem.mp h
  rcases Nat.lt_trichotomy i j with hij | rfl | hij
  · exact .inr (.inl (hpairs i j hi hj hij))
  · exact .inl rfl
  · exact .inr (.inr (hpairs j i hj hi hij))

namespace MemberList

/-- Whether the braces of a list lie between the braces of another. -/
def Encloses (outer inner : MemberList) : Prop :=
  outer.bodyStart ≤ inner.opening.start ∧ inner.closing.stop ≤ outer.bodyStop

instance (outer inner : MemberList) : Decidable (outer.Encloses inner) :=
  inferInstanceAs (Decidable (_ ∧ _))

/-- Two lists of which one is inside the other, or whose braces lie apart from the other's body. -/
def NestedOrApart (outer inner : MemberList) : Prop :=
  outer.Encloses inner ∨ outer.bodyStop ≤ inner.opening.start
    ∨ inner.closing.stop ≤ outer.bodyStart

/-- Two lists of which one has its body in the body of the other, or whose bodies do not meet. -/
def BodiesNestedOrApart (a b : MemberList) : Prop :=
  (a.bodyStart ≤ b.bodyStart ∧ b.bodyStop ≤ a.bodyStop)
    ∨ (b.bodyStart ≤ a.bodyStart ∧ a.bodyStop ≤ b.bodyStop)
    ∨ a.bodyStop ≤ b.bodyStart ∨ b.bodyStop ≤ a.bodyStart

/-- A list whose braces lie between two offsets. -/
structure BracesWithin (list : MemberList) (start stop : Nat) : Prop where
  start_le : start ≤ list.opening.start
  opening_le : list.opening.start ≤ list.opening.stop
  closing_le : list.closing.start ≤ list.closing.stop
  le_stop : list.closing.stop ≤ stop

variable {a b : MemberList} {start stop : Nat}

theorem NestedOrApart.bodies (h : a.NestedOrApart b) (hb : b.BracesWithin start stop) :
    a.BodiesNestedOrApart b := by
  have := hb.opening_le
  have := hb.closing_le
  simp only [NestedOrApart, Encloses, BodiesNestedOrApart, bodyStart, bodyStop] at h ⊢
  omega

end MemberList

namespace SyntaxNode

variable {source : Text} {comments : List Comment} {parent : Option Span} {listKind : ListKind}
  {nodes : List SyntaxNode}

theorem memberList?_bracesWithin {body : SyntaxNode} {list : MemberList}
    (hbody : body.ordered = true)
    (h : body.memberList? source comments parent listKind = some list) :
    list.BracesWithin body.span.start body.span.stop := by
  obtain ⟨opening, hopening, closing, hclosing, hopen, hclose, -, -⟩ := memberList?_eq_some h
  obtain ⟨hopening, hclosing⟩ := braces_mem hopening hclosing
  have hall := orderedAll_children hbody
  obtain ⟨hopening, hstart, -⟩ := ordered_of_mem hall hopening
  obtain ⟨hclosing, -, hstop⟩ := ordered_of_mem hall hclosing
  rw [← hopen] at hstart
  rw [← hclose] at hstop
  exact ⟨hstart, hopen ▸ le_of_ordered opening hopening, hclose ▸ le_of_ordered closing hclosing,
    hstop⟩

theorem listsBelow_bracesWithin {node : SyntaxNode} (h : node.ordered = true) :
    ∀ list ∈ listsBelow source comments parent node,
      list.BracesWithin node.span.start node.span.stop := by
  refine forall_mem_listsBelow (fun below => below.ordered = true
    ∧ node.span.start ≤ below.span.start ∧ below.span.stop ≤ node.span.stop) ?_ ?_ node parent
    ⟨h, Nat.le_refl _, Nat.le_refl _⟩
  · rintro below ⟨hordered, hstart, hstop⟩ child hchild
    obtain ⟨hchildOrdered, hbehind, hbefore⟩ := ordered_of_mem (orderedAll_children hordered) hchild
    exact ⟨hchildOrdered, Nat.le_trans hstart hbehind, Nat.le_trans hbefore hstop⟩
  · rintro body ⟨hordered, hstart, hstop⟩ parent listKind list - hlist
    have hbraces := memberList?_bracesWithin hordered hlist
    exact { hbraces with
      start_le := Nat.le_trans hstart hbraces.start_le
      le_stop := Nat.le_trans hbraces.le_stop hstop }

theorem mem_listsBelowAll {list : MemberList} :
    list ∈ listsBelowAll source comments parent nodes
      ↔ ∃ node ∈ nodes, list ∈ listsBelow source comments parent node := by
  induction nodes with
  | nil => simp [listsBelowAll]
  | cons first rest ih => simp [listsBelowAll, ih]

/-- A list and the lists below its body are nested or apart. -/
theorem nestedOrApart_of_below {body : SyntaxNode} {list inner : MemberList}
    (hbody : body.ordered = true)
    (h : body.memberList? source comments parent listKind = some list)
    (hinner : inner ∈ listsBelowAll source comments (some body.span) body.children) :
    list.NestedOrApart inner := by
  obtain ⟨opening, hopening, closing, hclosing, hopen, hclose, -, -⟩ := memberList?_eq_some h
  obtain ⟨hopening, hclosing⟩ := braces_mem hopening hclosing
  have hall := orderedAll_children hbody
  have hpairs := pairwise_of_orderedAll hall
  obtain ⟨child, hchild, hbelow⟩ := mem_listsBelowAll.mp hinner
  have hin := listsBelow_bracesWithin (ordered_of_mem hall hchild).1 inner hbelow
  have hstart := hin.start_le
  have hstop := hin.le_stop
  have hopeningLe := le_of_ordered opening (ordered_of_mem hall hopening).1
  have hclosingLe := le_of_ordered closing (ordered_of_mem hall hclosing).1
  simp only [MemberList.NestedOrApart, MemberList.Encloses, MemberList.bodyStart,
    MemberList.bodyStop, hopen, hclose]
  -- the child that holds the inner list stands before, at or behind each of the two braces
  rcases eq_or_of_pairwise hpairs hchild hopening with rfl | hbefore | hbehind
  · omega
  · omega
  · rcases eq_or_of_pairwise hpairs hchild hclosing with rfl | hinside | houtside
    · omega
    · omega
    · omega

mutual

theorem listsBelow_pairwise : ∀ (node : SyntaxNode) (parent : Option Span), node.ordered = true →
    (listsBelow source comments parent node).Pairwise MemberList.NestedOrApart
  | .node kind role span isNamed hasError children, parent, h => by
      have hall := orderedAll_children h
      simp only [listsBelow]
      refine List.pairwise_append.mpr ⟨Option.pairwise_toList,
        listsBelowAll_pairwise children _ _ _ hall, fun list hlist inner hinner => ?_⟩
      split at hlist
      · split at hlist
        · simp at hlist
        · exact nestedOrApart_of_below h (Option.mem_toList.mp hlist) hinner
      · simp at hlist

theorem listsBelowAll_pairwise : ∀ (nodes : List SyntaxNode) (parent : Option Span)
    (start stop : Nat), orderedAll start stop nodes = true →
    (listsBelowAll source comments parent nodes).Pairwise MemberList.NestedOrApart
  | [], _, _, _, _ => by simp [listsBelowAll]
  | first :: rest, parent, start, stop, h => by
      obtain ⟨-, hordered, hbehind⟩ := orderedAll_cons.mp h
      simp only [listsBelowAll]
      refine List.pairwise_append.mpr ⟨listsBelow_pairwise first parent hordered,
        listsBelowAll_pairwise rest parent _ _ hbehind, fun a ha b hb => ?_⟩
      obtain ⟨node, hnode, hb⟩ := mem_listsBelowAll.mp hb
      obtain ⟨hnodeOrdered, hstart, -⟩ := ordered_of_mem hbehind hnode
      have hfirst := listsBelow_bracesWithin hordered a ha
      have hrest := listsBelow_bracesWithin hnodeOrdered b hb
      refine .inr (.inl ?_)
      have := hfirst.closing_le
      have := hfirst.le_stop
      have := hrest.start_le
      show a.closing.start ≤ _
      omega

end

/-- **Two lists of an ordered tree are nested or apart.** -/
theorem memberLists_pairwise_bodies {root : SyntaxNode} (h : root.ordered = true) :
    (root.memberLists source).Pairwise MemberList.BodiesNestedOrApart :=
  (listsBelow_pairwise root none h).imp_of_mem fun _ hb hab =>
    hab.bodies (listsBelow_bracesWithin h _ hb)

end SyntaxNode

end KeyOrder
