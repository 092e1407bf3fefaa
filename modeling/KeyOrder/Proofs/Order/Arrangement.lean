import KeyOrder.Proofs.Order.Permutation
import KeyOrder.Proofs.Order.StableSort
import KeyOrder.Proofs.Order.TotalPreorder

/-!
# Arrangements in order

Putting the members into the slots that a plan gives them arranges a list. **A list is in order if
every member may stand before every member behind it** (`Member.MayPrecede`), which looks at names
and question marks only. An arranged list is in order, and the plan of a list in order leaves every
member in place; hence the plan of a list is the identity exactly if the list is in order, and
arranging twice is arranging once.
-/

namespace KeyOrder

open Std

/-- Whether one member may stand somewhere before another. -/
structure Member.MayPrecede (compareNames : String → String → Ordering) (requiredFirst : Bool)
    (a b : Member) : Prop where
  /-- Behind an optional member stand optional members only, if required ones come first. -/
  group : requiredFirst = true → a.optional = true → b.optional = true
  /-- Names of one group do not decrease. -/
  names : (requiredFirst = true → a.optional = b.optional) →
    compareOptional compareNames a.name b.name ≠ .gt

/-- What a member's place depends on. -/
def Member.sortKey (member : Member) : Option String × Bool := (member.name, member.optional)

instance (options : SortOptions) : TransCmp options.compareNames :=
  transCmp_on String.toList (compareNamesFolding Text.toLower options)

namespace Plan

/-- The members in the slots that a plan gives them. -/
def arrange (plan : Plan) (members : List Member) : List Member :=
  plan.sorted.filterMap fun index => members[index]?

variable {compareNames : String → String → Ordering} {requiredFirst : Bool} {members : List Member}

/-! ## One partition -/

/-- Filling slots with members that pass the test, and reading off those that pass it. -/
theorem filter_fillSlots {test : Nat → Bool} {slots values : List Nat}
    (hlength : values.length = (slots.filter test).length)
    (hvalues : ∀ value ∈ values, test value = true) :
    (fillSlots test slots values).filter test = values := by
  induction slots generalizing values with
  | nil =>
      obtain rfl : values = [] := List.length_eq_zero_iff.mp hlength
      rfl
  | cons index slots ih =>
      by_cases htest : test index = true
      · rw [List.filter_cons_of_pos htest] at hlength
        cases values with
        | nil => simp at hlength
        | cons value rest =>
            rw [List.forall_mem_cons] at hvalues
            have hrest := ih (by simpa using hlength) hvalues.2
            simp only [fillSlots, htest, if_true, List.filter_cons_of_pos hvalues.1, hrest]
      · rw [List.filter_cons_of_neg htest] at hlength
        have hfill : fillSlots test (index :: slots) values = index :: fillSlots test slots values := by
          simp [fillSlots, htest]
        rw [hfill, List.filter_cons_of_neg htest, ih hlength hvalues]

/-- Slots that are filled with what stands in them. -/
theorem fillSlots_filter (test : Nat → Bool) (slots : List Nat) :
    fillSlots test slots (slots.filter test) = slots := by
  induction slots with
  | nil => rfl
  | cons index slots ih =>
      by_cases htest : test index = true
      · simp only [fillSlots, htest, if_true, List.filter_cons_of_pos htest, ih]
      · simp only [fillSlots, htest, List.filter_cons_of_neg htest, ih]
        rfl

/-- A member without a name keeps its place in the partition. -/
theorem getElem?_fillSlots {test : Nat → Bool} {slots values : List Nat} {slot index : Nat}
    (hslot : slots[slot]? = some index) (htest : test index = false) :
    (fillSlots test slots values)[slot]? = some index := by
  induction slots generalizing slot values with
  | nil => simp at hslot
  | cons first slots ih =>
      cases slot with
      | zero =>
          obtain rfl : first = index := by simpa using hslot
          simp [fillSlots, htest]
      | succ slot =>
          rw [List.getElem?_cons_succ] at hslot
          by_cases hfirst : test first = true
          · cases values with
            | nil => simpa [fillSlots, hfirst] using ih hslot
            | cons value rest => simpa [fillSlots, hfirst] using ih hslot
          · simpa [fillSlots, hfirst] using ih hslot

/-- The order of members by name in which every two members can be compared. -/
def namesLE (compareNames : String → String → Ordering) (members : List Member) (a b : Nat) :
    Bool :=
  compareNames ((nameAt members a).getD "") ((nameAt members b).getD "") != .gt

theorem namesLE_of_named {a b : Nat} (ha : namedAt members a = true)
    (hb : namedAt members b = true) :
    namesLE compareNames members a b =
      (compareOptional compareNames (nameAt members a) (nameAt members b) != .gt) := by
  obtain ⟨x, hx⟩ := Option.isSome_iff_exists.mp ha
  obtain ⟨y, hy⟩ := Option.isSome_iff_exists.mp hb
  rw [namesLE, hx, hy]
  rfl

/-- Named members can be sorted in either order. -/
theorem mergeSort_namesLE (slots : List Nat) :
    (slots.filter (namedAt members)).mergeSort (namesLE compareNames members) =
      (slots.filter (namedAt members)).mergeSort fun a b =>
        compareOptional compareNames (nameAt members a) (nameAt members b) != .gt := by
  have h := List.map_mergeSort (r := namesLE compareNames members)
    (s := fun a b => compareOptional compareNames (nameAt members a) (nameAt members b) != .gt)
    (f := id) (l := slots.filter (namedAt members)) fun a ha b hb =>
      namesLE_of_named (List.mem_filter.mp ha).2 (List.mem_filter.mp hb).2
  simpa using h

/-- The named members of a partition in sorted order. -/
theorem filter_sortPartition (slots : List Nat) :
    (sortPartition compareNames members slots).filter (namedAt members) =
      (slots.filter (namedAt members)).mergeSort (namesLE compareNames members) := by
  rw [mergeSort_namesLE]
  refine filter_fillSlots (List.mergeSort_perm _ _).length_eq fun value hvalue => ?_
  exact (List.mem_filter.mp (List.mem_mergeSort.mp hvalue)).2

theorem namesLE_trans [TransCmp compareNames] (a b c : Nat)
    (hab : namesLE compareNames members a b = true)
    (hbc : namesLE compareNames members b c = true) : namesLE compareNames members a c = true := by
  simp only [namesLE, bne_iff_ne, ← Ordering.isLE_iff_ne_gt] at hab hbc ⊢
  exact TransCmp.isLE_trans hab hbc

theorem namesLE_total [TransCmp compareNames] (a b : Nat) :
    (namesLE compareNames members a b || namesLE compareNames members b a) = true := by
  have hswap : compareNames ((nameAt members b).getD "") ((nameAt members a).getD "") =
      (compareNames ((nameAt members a).getD "") ((nameAt members b).getD "")).swap :=
    OrientedCmp.eq_swap
  simp only [namesLE, hswap]
  cases compareNames ((nameAt members a).getD "") ((nameAt members b).getD "") <;> rfl

/-- **The names of a sorted partition do not decrease.** -/
theorem pairwise_sortPartition [TransCmp compareNames] (slots : List Nat) :
    (sortPartition compareNames members slots).Pairwise fun a b =>
      compareOptional compareNames (nameAt members a) (nameAt members b) ≠ .gt := by
  have hsorted : ((sortPartition compareNames members slots).filter (namedAt members)).Pairwise
      fun a b => namesLE compareNames members a b = true := by
    rw [filter_sortPartition]
    exact List.pairwise_mergeSort namesLE_trans namesLE_total _
  rw [List.pairwise_filter] at hsorted
  refine hsorted.imp fun {a b} h => ?_
  -- a missing name is equal to every name
  by_cases ha : namedAt members a = true
  · by_cases hb : namedAt members b = true
    · have hle := h ha hb
      rw [namesLE_of_named ha hb] at hle
      simpa using hle
    · have hname : nameAt members b = none := by simpa [namedAt] using hb
      rw [hname]
      cases nameAt members a <;> simp [compareOptional]
  · have hname : nameAt members a = none := by simpa [namedAt] using ha
    rw [hname]
    simp [compareOptional]

/-- Sorting a partition whose names do not decrease changes nothing. -/
theorem sortPartition_eq_self {slots : List Nat}
    (h : slots.Pairwise fun a b =>
      compareOptional compareNames (nameAt members a) (nameAt members b) ≠ .gt) :
    sortPartition compareNames members slots = slots := by
  have hnamed : (slots.filter (namedAt members)).Pairwise fun a b =>
      (compareOptional compareNames (nameAt members a) (nameAt members b) != .gt) = true :=
    (h.filter _).imp fun hle => by simpa using hle
  rw [sortPartition, List.mergeSort_of_pairwise hnamed, fillSlots_filter]

/-! ## Stability

The names alone do not fix the sorted order; that members of one name keep their order does. -/

/-- A sorted order has names that do not decrease, and members of one name in their order. -/
theorem pairwise_stable_mergeSort [TransCmp compareNames] {slots : List Nat}
    (hslots : slots.Pairwise (· < ·)) :
    (slots.mergeSort (namesLE compareNames members)).Pairwise fun a b =>
      namesLE compareNames members a b = true
        ∧ (namesLE compareNames members b a = true → a < b) := by
  refine (pairwise_mergeSort_stable namesLE_trans namesLE_total slots).imp fun {a b} h => ?_
  exact ⟨h.1, fun hge => List.pairwise_iff_forall_sublist.mp hslots (h.2 hge)⟩

/-- **A sorted order is the only one** in which names do not decrease and members of one name keep
their order. -/
theorem mergeSort_eq_of_pairwise [TransCmp compareNames] {slots values : List Nat}
    (hslots : slots.Pairwise (· < ·)) (hperm : values.Perm slots)
    (hvalues : values.Pairwise fun a b => namesLE compareNames members a b = true
      ∧ (namesLE compareNames members b a = true → a < b)) :
    slots.mergeSort (namesLE compareNames members) = values := by
  refine List.Perm.eq_of_pairwise ?_ (pairwise_stable_mergeSort hslots) hvalues
    ((List.mergeSort_perm _ _).trans hperm.symm)
  intro a b _ _ hab hba
  have := hab.2 hba.1
  have := hba.2 hab.1
  omega

/-- A partition sorted by checking its order. -/
theorem sortPartition_eq [TransCmp compareNames] {slots : List Nat} (values : List Nat)
    (hslots : slots.Pairwise (· < ·)) (hperm : values.Perm (slots.filter (namedAt members)))
    (hvalues : values.Pairwise fun a b => namesLE compareNames members a b = true
      ∧ (namesLE compareNames members b a = true → a < b)) :
    sortPartition compareNames members slots = fillSlots (namedAt members) slots values := by
  have hsort := mergeSort_eq_of_pairwise (hslots.filter _) hperm hvalues
  rw [mergeSort_namesLE] at hsort
  rw [sortPartition, hsort]

/-! ## The whole list -/

theorem nameAt_of_getElem? {index : Nat} {member : Member} (h : members[index]? = some member) :
    nameAt members index = member.name := by
  rw [nameAt, h]
  rfl

theorem optionalAt_of_getElem? {index : Nat} {member : Member}
    (h : members[index]? = some member) : optionalAt members index = member.optional := by
  rw [optionalAt, h]
  rfl

/-- Members that may stand one before the other, by their indices. -/
def MayPrecedeAt (compareNames : String → String → Ordering) (requiredFirst : Bool)
    (members : List Member) (i j : Nat) : Prop :=
  ∀ a ∈ members[i]?, ∀ b ∈ members[j]?, a.MayPrecede compareNames requiredFirst b

/-- Names that do not decrease are all that counts inside a group. -/
theorem mayPrecedeAt_of_names {i j : Nat}
    (hgroup : requiredFirst = true → optionalAt members i = true → optionalAt members j = true)
    (hnames : compareOptional compareNames (nameAt members i) (nameAt members j) ≠ .gt) :
    MayPrecedeAt compareNames requiredFirst members i j := by
  intro a ha b hb
  rw [optionalAt_of_getElem? ha, optionalAt_of_getElem? hb] at hgroup
  rw [nameAt_of_getElem? ha, nameAt_of_getElem? hb] at hnames
  exact ⟨hgroup, fun _ => hnames⟩

/-- One of the two groups, sorted. -/
theorem pairwise_sortGroup [TransCmp compareNames] {slots : List Nat} {group : Bool}
    (hgroup : ∀ index ∈ slots, optionalAt members index = group) :
    (sortPartition compareNames members slots).Pairwise
      (MayPrecedeAt compareNames true members) := by
  refine (pairwise_sortPartition slots).imp_of_mem fun {i j} hi hj hnames => ?_
  have hi := hgroup i ((sortPartition_perm _ _ _).mem_iff.mp hi)
  have hj := hgroup j ((sortPartition_perm _ _ _).mem_iff.mp hj)
  exact mayPrecedeAt_of_names (fun _ h => by rw [hj, ← hi, h]) hnames

theorem pairwise_sorted_ofMembers [TransCmp compareNames] :
    (ofMembers compareNames requiredFirst members).sorted.Pairwise
      (MayPrecedeAt compareNames requiredFirst members) := by
  cases requiredFirst with
  | false =>
      exact (pairwise_sortPartition _).imp fun hnames => mayPrecedeAt_of_names (by simp) hnames
  | true =>
      have hrequired : ∀ index ∈ (List.range members.length).filter
          (fun index => !optionalAt members index), optionalAt members index = false :=
        fun index h => by simpa using (List.mem_filter.mp h).2
      have hoptional : ∀ index ∈ (List.range members.length).filter (optionalAt members),
          optionalAt members index = true := fun index h => (List.mem_filter.mp h).2
      refine List.pairwise_append.mpr
        ⟨pairwise_sortGroup hrequired, pairwise_sortGroup hoptional, ?_⟩
      intro i hi j hj a ha b hb
      have hi := hrequired i ((sortPartition_perm _ _ _).mem_iff.mp hi)
      have hj := hoptional j ((sortPartition_perm _ _ _).mem_iff.mp hj)
      rw [optionalAt_of_getElem? ha] at hi
      rw [optionalAt_of_getElem? hb] at hj
      exact ⟨fun _ h => by simp [hi] at h, fun h => by simp [hi, hj] at h⟩

theorem filterMap_range_getElem? (members : List Member) :
    (List.range members.length).filterMap (fun index => members[index]?) = members := by
  induction members with
  | nil => rfl
  | cons member rest ih =>
      rw [List.length_cons, List.range_succ_eq_map, List.filterMap_cons, List.filterMap_map]
      exact congrArg (member :: ·) ih

/-- Every slot with its member: what is said of pairs of members is said of pairs of indices. -/
theorem pairwise_range_iff {R : Member → Member → Prop} :
    (List.range members.length).Pairwise (fun i j => ∀ a ∈ members[i]?, ∀ b ∈ members[j]?, R a b)
      ↔ members.Pairwise R := by
  have h : ((List.range members.length).filterMap fun index => members[index]?).Pairwise R ↔ _ :=
    List.pairwise_filterMap
  rw [filterMap_range_getElem?] at h
  exact h.symm

/-- Two members of which one may stand before the other, by their indices. -/
theorem mayPrecede_at {i j : Nat} (hi : i < members.length) (hj : j < members.length)
    (h : ∀ a ∈ members[i]?, ∀ b ∈ members[j]?, a.MayPrecede compareNames requiredFirst b) :
    (requiredFirst = true → optionalAt members i = true → optionalAt members j = true)
      ∧ ((requiredFirst = true → optionalAt members i = optionalAt members j) →
        compareOptional compareNames (nameAt members i) (nameAt members j) ≠ .gt) := by
  have hi := List.getElem?_eq_getElem hi
  have hj := List.getElem?_eq_getElem hj
  have hmay := h _ hi _ hj
  rw [optionalAt_of_getElem? hi, optionalAt_of_getElem? hj, nameAt_of_getElem? hi,
    nameAt_of_getElem? hj]
  exact ⟨hmay.group, hmay.names⟩

/-- The members in source order, but the required ones before the optional ones. -/
def split (members : List Member) : List Nat :=
  (List.range members.length).filter (fun index => !optionalAt members index)
    ++ (List.range members.length).filter (optionalAt members)

theorem split_perm (members : List Member) : (split members).Perm (List.range members.length) :=
  List.perm_append_comm.trans (List.filter_append_perm _ _)

/-- With required members first, a list whose two groups are in order by name is split only. -/
theorem sorted_ofMembers_of_names
    (h : members.Pairwise fun a b =>
      a.optional = b.optional → compareOptional compareNames a.name b.name ≠ .gt) :
    (ofMembers compareNames true members).sorted = split members := by
  have hnames : ∀ group : Bool, ((List.range members.length).filter fun index =>
      optionalAt members index == group).Pairwise fun a b =>
        compareOptional compareNames (nameAt members a) (nameAt members b) ≠ .gt := by
    intro group
    refine ((pairwise_range_iff.mpr h).filter _).imp_of_mem fun {i j} hi hj hij => ?_
    obtain ⟨hi, higroup⟩ := List.mem_filter.mp hi
    obtain ⟨hj, hjgroup⟩ := List.mem_filter.mp hj
    have hi := List.getElem?_eq_getElem (List.mem_range.mp hi)
    have hj := List.getElem?_eq_getElem (List.mem_range.mp hj)
    rw [optionalAt_of_getElem? hi, beq_iff_eq] at higroup
    rw [optionalAt_of_getElem? hj, beq_iff_eq] at hjgroup
    rw [nameAt_of_getElem? hi, nameAt_of_getElem? hj]
    exact hij _ hi _ hj (higroup.trans hjgroup.symm)
  have hrequired : sortPartition compareNames members
      ((List.range members.length).filter fun index => !optionalAt members index) =
      (List.range members.length).filter fun index => !optionalAt members index :=
    sortPartition_eq_self (by simpa using hnames false)
  have hoptional : sortPartition compareNames members
      ((List.range members.length).filter (optionalAt members)) =
      (List.range members.length).filter (optionalAt members) :=
    sortPartition_eq_self (by simpa using hnames true)
  simp only [ofMembers, split, if_true, hrequired, hoptional]

/-- **The plan of a list in order leaves every member in place.** -/
theorem sorted_ofMembers_eq_range
    (h : members.Pairwise (Member.MayPrecede compareNames requiredFirst)) :
    (ofMembers compareNames requiredFirst members).sorted = List.range members.length := by
  have hrange := (pairwise_range_iff.mpr h).imp_of_mem fun {i j} hi hj hij =>
    mayPrecede_at (List.mem_range.mp hi) (List.mem_range.mp hj) hij
  cases requiredFirst with
  | false => exact sortPartition_eq_self (hrange.imp fun hij => hij.2 (by simp))
  | true =>
      rw [sorted_ofMembers_of_names (h.imp fun hab hsame => hab.names fun _ => hsame)]
      exact filter_not_append_filter (hrange.imp fun hij => hij.1 rfl)

theorem isIdentity_iff {plan : Plan} {n : Nat} (h : plan.sorted.Perm (List.range n)) :
    plan.isIdentity = true ↔ plan.sorted = List.range n := by
  rw [isIdentity, h.length_eq, List.length_range, beq_iff_eq]

/-- Arranging permutes the members. -/
theorem arrange_perm {plan : Plan} (h : plan.sorted.Perm (List.range members.length)) :
    (plan.arrange members).Perm members := by
  have hperm := h.filterMap fun index => members[index]?
  rwa [filterMap_range_getElem?] at hperm

/-- **An arranged list is in order.** -/
theorem pairwise_arrange [TransCmp compareNames] :
    ((ofMembers compareNames requiredFirst members).arrange members).Pairwise
      (Member.MayPrecede compareNames requiredFirst) :=
  List.pairwise_filterMap.mpr pairwise_sorted_ofMembers

/-- **The plan of a list is the identity exactly if the list is in order.** -/
theorem isIdentity_ofMembers_iff [TransCmp compareNames] :
    (ofMembers compareNames requiredFirst members).isIdentity = true
      ↔ members.Pairwise (Member.MayPrecede compareNames requiredFirst) := by
  rw [isIdentity_iff (sorted_ofMembers_perm _ _ _)]
  constructor
  · intro h
    have hpairwise := @pairwise_arrange compareNames requiredFirst members _
    rwa [arrange, h, filterMap_range_getElem?] at hpairwise
  · exact sorted_ofMembers_eq_range

/-- Whether members are in order depends on their names and question marks only. -/
theorem pairwise_mayPrecede_congr {others : List Member}
    (h : others.map Member.sortKey = members.map Member.sortKey) :
    others.Pairwise (Member.MayPrecede compareNames requiredFirst)
      ↔ members.Pairwise (Member.MayPrecede compareNames requiredFirst) := by
  have hkeys : ∀ list : List Member,
      list.Pairwise (Member.MayPrecede compareNames requiredFirst) ↔
        (list.map Member.sortKey).Pairwise fun a b =>
          (requiredFirst = true → a.2 = true → b.2 = true)
            ∧ ((requiredFirst = true → a.2 = b.2) → compareOptional compareNames a.1 b.1 ≠ .gt) := by
    intro list
    rw [List.pairwise_map]
    exact ⟨fun hp => hp.imp fun hab => ⟨hab.group, hab.names⟩,
      fun hp => hp.imp fun hab => ⟨hab.1, hab.2⟩⟩
  rw [hkeys, hkeys, h]

end Plan

end KeyOrder
