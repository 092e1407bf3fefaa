import KeyOrder.Proofs.Syntax.InPlace
import Mathlib.Data.List.Perm.Subperm

/-!
# How deep lists are nested

Lists of one tree are the same, nested, or have bodies that lie apart. The nesting depth of some of
them is the length of the longest chain in which each list encloses the next. **Without its outermost
lists a collection is nested one level less deep** (`NestDepth.peel`).
-/

namespace KeyOrder

/-- A list whose elements are all values of `f` at arguments with a property is the image of a list
of such arguments. -/
theorem exists_map_eq {α β : Type} {f : α → β} {p : α → Prop} {l : List β}
    (h : ∀ b ∈ l, ∃ a, p a ∧ f a = b) :
    ∃ arguments : List α, (∀ a ∈ arguments, p a) ∧ arguments.map f = l := by
  induction l with
  | nil => exact ⟨[], by simp, rfl⟩
  | cons b rest ih =>
      rw [List.forall_mem_cons] at h
      obtain ⟨⟨a, ha, rfl⟩, hrest⟩ := h
      obtain ⟨arguments, hall, rfl⟩ := ih hrest
      exact ⟨a :: arguments, List.forall_mem_cons.mpr ⟨ha, hall⟩, rfl⟩

namespace MemberList

variable {a b c : MemberList} {start stop : Nat}

theorem Encloses.trans (hab : a.Encloses b) (hbc : b.Encloses c) (hb : b.InPlace start stop) :
    a.Encloses c := by
  have := hb.opening_lt
  have := hb.closing_lt
  simp only [Encloses, bodyStart, bodyStop] at *
  omega

/-- The body of an enclosed list lies strictly inside the enclosing body. -/
theorem Encloses.body (hab : a.Encloses b) (hb : b.InPlace start stop) :
    a.bodyStart < b.bodyStart ∧ b.bodyStop < a.bodyStop := by
  have := hb.opening_lt
  have := hb.closing_lt
  simp only [Encloses, bodyStart, bodyStop] at *
  omega

/-- A chain of enclosing lists has no list twice. -/
theorem nodup_of_pairwise_encloses {chain : List MemberList} (h : chain.Pairwise Encloses)
    (hplace : ∀ list ∈ chain, list.InPlace start stop) : chain.Nodup := by
  refine h.imp_of_mem fun {a b} ha _ hab heq => ?_
  subst heq
  have := hab.body (hplace a ha)
  omega

/-- Two lists that are nested or apart: one encloses the other, or their bodies do not meet. -/
theorem NestedOrApart.cases (h : a.NestedOrApart b) (hb : b.InPlace start stop) :
    a.Encloses b ∨ a.bodyStop ≤ b.bodyStart ∨ b.bodyStop ≤ a.bodyStart := by
  have := hb.opening_lt
  have := hb.closing_lt
  simp only [NestedOrApart, Encloses, bodyStart, bodyStop] at *
  omega

end MemberList

/-- **Two lists of a tree in place** are the same, nested, or have bodies that do not meet. -/
theorem SyntaxNode.memberLists_cases {root : SyntaxNode} {source : Text}
    (h : root.inPlace = true) {a b : MemberList} (ha : a ∈ root.memberLists source)
    (hb : b ∈ root.memberLists source) :
    a = b ∨ a.Encloses b ∨ b.Encloses a
      ∨ a.bodyStop ≤ b.bodyStart ∨ b.bodyStop ≤ a.bodyStart := by
  have hplace := @memberLists_inPlace source root h
  rcases eq_or_of_pairwise (memberLists_pairwise h) ha hb with heq | hab | hba
  · exact .inl heq
  · rcases hab.cases (hplace b hb) with hin | hbefore | hbehind
    · exact .inr (.inl hin)
    · exact .inr (.inr (.inr (.inl hbefore)))
    · exact .inr (.inr (.inr (.inr hbehind)))
  · rcases hba.cases (hplace a ha) with hin | hbefore | hbehind
    · exact .inr (.inr (.inl hin))
    · exact .inr (.inr (.inr (.inr hbefore)))
    · exact .inr (.inr (.inr (.inl hbehind)))

/-- The largest number of lists that are nested one inside another. -/
structure NestDepth (lists : List MemberList) (depth : Nat) : Prop where
  reached : ∃ chain : List MemberList, chain ⊆ lists ∧ chain.Pairwise MemberList.Encloses
    ∧ chain.length = depth
  greatest : ∀ chain : List MemberList, chain ⊆ lists → chain.Pairwise MemberList.Encloses →
    chain.length ≤ depth

namespace NestDepth

variable {lists old new : List MemberList} {depth : Nat}

/-- Lists in place have a depth. -/
theorem exists_of_inPlace {start stop : Nat}
    (hplace : ∀ list ∈ lists, list.InPlace start stop) : ∃ depth, NestDepth lists depth := by
  have hbound : ∀ chain : List MemberList, chain ⊆ lists → chain.Pairwise MemberList.Encloses →
      chain.length ≤ lists.length := fun chain hchain hpairs =>
    ((MemberList.nodup_of_pairwise_encloses hpairs fun list hlist =>
      hplace list (hchain hlist)).subperm hchain).length_le
  -- a bound that no chain reaches can be lowered
  generalize lists.length = bound at hbound
  induction bound with
  | zero => exact ⟨0, ⟨[], by simp, .nil, rfl⟩, hbound⟩
  | succ bound ih =>
      by_cases hreached : ∃ chain : List MemberList, chain ⊆ lists
          ∧ chain.Pairwise MemberList.Encloses ∧ chain.length = bound + 1
      · exact ⟨bound + 1, hreached, hbound⟩
      · refine ih fun chain hchain hpairs => ?_
        have hle := hbound chain hchain hpairs
        have hne : chain.length ≠ bound + 1 := fun heq => hreached ⟨chain, hchain, hpairs, heq⟩
        omega

/-- Only a collection without lists has no depth. -/
theorem eq_zero_iff (h : NestDepth lists depth) : depth = 0 ↔ lists = [] := by
  constructor
  · rintro rfl
    refine List.eq_nil_iff_forall_not_mem.mpr fun list hlist => ?_
    have hone := h.greatest [list] (by simpa using hlist) (List.pairwise_singleton _ _)
    simp at hone
  · rintro rfl
    obtain ⟨chain, hchain, -, rfl⟩ := h.reached
    rw [List.subset_nil.mp hchain]
    rfl

/-- A chain of lists and the counterparts of a chain are chains together. -/
theorem chain_iff {pairs chain : List (MemberList × MemberList)}
    (hnest : ∀ outer ∈ pairs, ∀ inner ∈ pairs,
      (outer.1.Encloses inner.1 ↔ outer.2.Encloses inner.2))
    (hchain : chain ⊆ pairs) :
    (chain.map Prod.fst).Pairwise MemberList.Encloses
      ↔ (chain.map Prod.snd).Pairwise MemberList.Encloses := by
  rw [List.pairwise_map, List.pairwise_map]
  exact List.Pairwise.iff_of_mem fun {a b} ha hb => hnest a (hchain ha) b (hchain hb)

/-- **Without its outermost lists a collection is nested one level less deep**: `new` holds the
counterparts of those lists of `old` that another one of them encloses. -/
theorem peel {pairs : List (MemberList × MemberList)} (h : NestDepth old (depth + 1))
    (htrans : ∀ a ∈ old, ∀ b ∈ old, ∀ c ∈ old, a.Encloses b → b.Encloses c → a.Encloses c)
    (hnest : ∀ outer ∈ pairs, ∀ inner ∈ pairs,
      (outer.1.Encloses inner.1 ↔ outer.2.Encloses inner.2))
    (hold : ∀ list ∈ old, ∃ pair ∈ pairs, pair.1 = list)
    (hnew : ∀ list, list ∈ new ↔
      ∃ pair ∈ pairs, pair.2 = list ∧ pair.1 ∈ old ∧ ∃ outer ∈ old, outer.Encloses pair.1) :
    NestDepth new depth := by
  constructor
  · obtain ⟨chain, hchain, hpairs, hlength⟩ := h.reached
    cases chain with
    | nil => simp at hlength
    | cons first rest =>
        rw [List.cons_subset] at hchain
        rw [List.pairwise_cons] at hpairs
        -- what follows the first list of a longest chain is enclosed by it
        obtain ⟨counterparts, hall, rfl⟩ := exists_map_eq
          (f := Prod.fst) (p := fun pair => pair ∈ pairs ∧ pair.1 ∈ old ∧ first.Encloses pair.1)
          (l := rest) fun list hlist => by
            obtain ⟨pair, hpair, rfl⟩ := hold list (hchain.2 hlist)
            exact ⟨pair, ⟨hpair, hchain.2 hlist, hpairs.1 _ hlist⟩, rfl⟩
        refine ⟨counterparts.map Prod.snd, fun list hlist => ?_,
          (chain_iff hnest fun pair hpair => (hall pair hpair).1).mp hpairs.2,
          by simpa using hlength⟩
        obtain ⟨pair, hpair, rfl⟩ := List.mem_map.mp hlist
        obtain ⟨hmem, hlisted, hinside⟩ := hall pair hpair
        exact (hnew _).mpr ⟨pair, hmem, rfl, hlisted, first, hchain.1, hinside⟩
  · intro chain hchain hpairs
    obtain ⟨counterparts, hall, rfl⟩ := exists_map_eq
      (f := Prod.snd) (p := fun pair => pair ∈ pairs ∧ pair.1 ∈ old
        ∧ ∃ outer ∈ old, outer.Encloses pair.1)
      (l := chain) fun list hlist => by
        obtain ⟨pair, hpair, rfl, hlisted, hinside⟩ := (hnew list).mp (hchain hlist)
        exact ⟨pair, ⟨hpair, hlisted, hinside⟩, rfl⟩
    have hfirsts := (chain_iff hnest fun pair hpair => (hall pair hpair).1).mpr hpairs
    have hlisted : counterparts.map Prod.fst ⊆ old := fun list hlist => by
      obtain ⟨pair, hpair, rfl⟩ := List.mem_map.mp hlist
      exact (hall pair hpair).2.1
    cases counterparts with
    | nil => simp
    | cons first rest =>
        -- a chain of counterparts goes on outwards by the list that encloses its first one
        obtain ⟨-, hfirst, outer, houter, hencloses⟩ := hall first List.mem_cons_self
        have hlonger := h.greatest (outer :: (first :: rest).map Prod.fst)
          (List.cons_subset.mpr ⟨houter, hlisted⟩)
          (.cons (fun list hlist => by
            rcases List.mem_cons.mp hlist with rfl | hrest
            · exact hencloses
            · exact htrans outer houter first.1 hfirst list (hlisted hlist) hencloses
                ((List.pairwise_cons.mp hfirsts).1 list hrest)) hfirsts)
        simp only [List.length_cons, List.length_map] at hlonger ⊢
        omega

end NestDepth

end KeyOrder
