import KeyOrder.Proofs.Order.Selection
import Mathlib.Data.List.Nodup

/-!
# What a plan is

A plan is described without sorting (`Plan.Specified`): it is a permutation of the members in which
required members come first if they are to, and inside each partition members without a name keep
their slot while the names of the others do not decrease and members of one name keep their order.
**The planned order is the only one of this kind**: the members without a name fix the slots of the
others, and among these a stably sorted order is unique.
-/

namespace KeyOrder

open Std

namespace Plan

variable {compareNames : String → String → Ordering} {members : List Member}
  {slots order : List Nat}

/-- The parts of a list that are sorted apart from each other: the whole list, or the required
members and the optional ones. -/
def partitions (requiredFirst : Bool) (members : List Member) : List (Nat → Bool) :=
  if requiredFirst then [fun index => !optionalAt members index, optionalAt members]
  else [fun _ => true]

/-- What is asked of the members of one partition, which stand in `slots` before and in `order`
after sorting. -/
structure InOrder (compareNames : String → String → Ordering) (members : List Member)
    (slots order : List Nat) : Prop where
  /-- A member without a name keeps its slot. -/
  anchored : ∀ slot index : Nat, slots[slot]? = some index → namedAt members index = false →
    order[slot]? = some index
  /-- Names do not decrease, and members of equal names keep their order. -/
  stable : (order.filter (namedAt members)).Pairwise fun a b =>
    compareOptional compareNames (nameAt members a) (nameAt members b) ≠ .gt
      ∧ (compareOptional compareNames (nameAt members a) (nameAt members b) = .eq → a < b)

/-- What is asked of a planned order. -/
structure Specified (compareNames : String → String → Ordering) (requiredFirst : Bool)
    (members : List Member) (order : List Nat) : Prop where
  perm : order.Perm (List.range members.length)
  /-- Behind an optional member stand optional members only. -/
  optionalLast : requiredFirst = true →
    order.Pairwise fun a b => optionalAt members a = true → optionalAt members b = true
  inOrder : ∀ part ∈ partitions requiredFirst members,
    InOrder compareNames members ((List.range members.length).filter part) (order.filter part)

/-! ## One partition -/

/-- Named members are in stable order by name in one sense exactly if they are in the other. -/
theorem stable_iff [TransCmp compareNames] {a b : Nat} (ha : namedAt members a = true)
    (hb : namedAt members b = true) :
    (compareOptional compareNames (nameAt members a) (nameAt members b) ≠ .gt
      ∧ (compareOptional compareNames (nameAt members a) (nameAt members b) = .eq → a < b))
    ↔ namesLE compareNames members a b = true
      ∧ (namesLE compareNames members b a = true → a < b) := by
  rw [namesLE_of_named ha hb, namesLE_of_named hb ha]
  obtain ⟨x, hx⟩ := Option.isSome_iff_exists.mp ha
  obtain ⟨y, hy⟩ := Option.isSome_iff_exists.mp hb
  have hswap : compareNames y x = (compareNames x y).swap := OrientedCmp.eq_swap
  simp only [hx, hy, compareOptional, hswap]
  cases compareNames x y <;> simp

theorem pairwise_stable_iff [TransCmp compareNames] :
    ((order.filter (namedAt members)).Pairwise fun a b =>
      compareOptional compareNames (nameAt members a) (nameAt members b) ≠ .gt
        ∧ (compareOptional compareNames (nameAt members a) (nameAt members b) = .eq → a < b))
    ↔ (order.filter (namedAt members)).Pairwise fun a b =>
      namesLE compareNames members a b = true
        ∧ (namesLE compareNames members b a = true → a < b) :=
  List.Pairwise.iff_of_mem fun ha hb =>
    stable_iff (List.mem_filter.mp ha).2 (List.mem_filter.mp hb).2

/-- An order whose values stand in slots of their own kind, and in their own slot if they fail the
test, is read off its values that pass the test. -/
theorem fillSlots_filter_eq {test : Nat → Bool}
    (h : List.Forall₂ (fun index value => (test index = false → value = index)
      ∧ (test index = true → test value = true)) slots order) :
    fillSlots test slots (order.filter test) = order := by
  induction h with
  | nil => rfl
  | @cons index value slots order hkind hrest ih =>
      by_cases htest : test index = true
      · simp only [fillSlots, htest, if_true, List.filter_cons_of_pos (hkind.2 htest), ih]
      · obtain rfl := hkind.1 (eq_false_of_ne_true htest)
        simp only [fillSlots, htest, List.filter_cons_of_neg htest, ih]
        rfl

/-- Where members without a name keep their slots, named members stand in slots of named ones. -/
theorem forall₂_of_anchored (hperm : order.Perm slots) (hnodup : slots.Nodup)
    (h : ∀ slot index : Nat, slots[slot]? = some index → namedAt members index = false →
      order[slot]? = some index) :
    List.Forall₂ (fun index value => (namedAt members index = false → value = index)
      ∧ (namedAt members index = true → namedAt members value = true)) slots order := by
  refine List.forall₂_iff_get.mpr ⟨hperm.length_eq.symm, fun slot hslot horder => ?_⟩
  refine ⟨fun hname => ?_, fun hname => eq_true_of_ne_false fun hvalue => ?_⟩
  · have hkept := h slot _ (List.getElem?_eq_getElem hslot) hname
    exact (List.getElem?_eq_some_iff.mp hkept).2
  · -- a member without a name in the slot would have to be in its own slot as well
    obtain ⟨own, hown, hget⟩ :=
      List.getElem_of_mem (hperm.mem_iff.mp (List.get_mem order ⟨slot, horder⟩))
    have hkept := h own _ (List.getElem?_eq_some_iff.mpr ⟨hown, hget⟩) hvalue
    obtain ⟨hlt, heq⟩ := List.getElem?_eq_some_iff.mp hkept
    obtain rfl : own = slot :=
      (List.Nodup.getElem_inj_iff (hperm.nodup_iff.mpr hnodup)).mp heq
    rw [← hget] at hvalue
    exact absurd (hname.symm.trans hvalue) (by simp)

/-- **The sorted order of a partition is the only one in order.** -/
theorem inOrder_iff [TransCmp compareNames] (hslots : slots.Pairwise (· < ·))
    (hperm : order.Perm slots) :
    InOrder compareNames members slots order
      ↔ order = sortPartition compareNames members slots := by
  constructor
  · rintro ⟨hanchored, hstable⟩
    have hkinds := forall₂_of_anchored hperm (hslots.imp Nat.ne_of_lt) hanchored
    rw [sortPartition_eq (order.filter (namedAt members)) hslots (hperm.filter _)
      (pairwise_stable_iff.mp hstable), fillSlots_filter_eq hkinds]
  · rintro rfl
    refine ⟨fun slot index hslot hname => getElem?_fillSlots hslot hname,
      pairwise_stable_iff.mpr ?_⟩
    rw [filter_sortPartition]
    exact pairwise_stable_mergeSort (hslots.filter _)

/-! ## The whole list -/

theorem pairwise_lt_filter_range (part : Nat → Bool) (n : Nat) :
    ((List.range n).filter part).Pairwise (· < ·) :=
  List.pairwise_lt_range.filter _

theorem filter_sortPartition_of_all {part : Nat → Bool} (h : ∀ index ∈ slots, part index = true) :
    (sortPartition compareNames members slots).filter part =
      sortPartition compareNames members slots :=
  List.filter_eq_self.mpr fun index hindex =>
    h index ((sortPartition_perm compareNames members slots).mem_iff.mp hindex)

theorem filter_sortPartition_of_none {part : Nat → Bool}
    (h : ∀ index ∈ slots, part index = false) :
    (sortPartition compareNames members slots).filter part = [] :=
  List.filter_eq_nil_iff.mpr fun index hindex => by
    simp [h index ((sortPartition_perm compareNames members slots).mem_iff.mp hindex)]

/-- The planned order of a partition is that partition sorted. -/
theorem filter_sorted_ofMembers {requiredFirst : Bool} {part : Nat → Bool}
    (hpart : part ∈ partitions requiredFirst members) :
    (ofMembers compareNames requiredFirst members).sorted.filter part =
      sortPartition compareNames members ((List.range members.length).filter part) := by
  have hrequired : ∀ index ∈ (List.range members.length).filter
      (fun index => !optionalAt members index), optionalAt members index = false :=
    fun index h => by simpa using (List.mem_filter.mp h).2
  have hoptional : ∀ index ∈ (List.range members.length).filter (optionalAt members),
      optionalAt members index = true := fun index h => (List.mem_filter.mp h).2
  cases requiredFirst with
  | false =>
      obtain rfl : part = fun _ => true := by simpa [partitions] using hpart
      simp [ofMembers]
  | true =>
      simp only [partitions, if_true, List.mem_cons, List.not_mem_nil, or_false] at hpart
      simp only [ofMembers, if_true, List.filter_append]
      rcases hpart with rfl | rfl
      · rw [filter_sortPartition_of_all fun index h => by simp [hrequired index h],
          filter_sortPartition_of_none fun index h => by simp [hoptional index h], List.append_nil]
      · rw [filter_sortPartition_of_none hrequired, filter_sortPartition_of_all hoptional,
          List.nil_append]

theorem specified_ofMembers [TransCmp compareNames] (requiredFirst : Bool) :
    Specified compareNames requiredFirst members
      (ofMembers compareNames requiredFirst members).sorted := by
  have hperm := sorted_ofMembers_perm compareNames requiredFirst members
  refine ⟨hperm, fun hfirst => ?_, fun part hpart => ?_⟩
  · have hpairs := @pairwise_sorted_ofMembers compareNames requiredFirst members _
    refine hpairs.imp_of_mem fun {a b} ha hb hab hoptional => ?_
    have ha := List.getElem?_eq_getElem (List.mem_range.mp (hperm.mem_iff.mp ha))
    have hb := List.getElem?_eq_getElem (List.mem_range.mp (hperm.mem_iff.mp hb))
    rw [optionalAt_of_getElem? ha] at hoptional
    rw [optionalAt_of_getElem? hb]
    exact (hab _ ha _ hb).group hfirst hoptional
  · exact (inOrder_iff (pairwise_lt_filter_range part _) (hperm.filter part)).mpr
      (filter_sorted_ofMembers hpart)

/-- An order is put together from its partitions. -/
theorem Specified.eq_ofMembers [TransCmp compareNames] {requiredFirst : Bool}
    (h : Specified compareNames requiredFirst members order) :
    order = (ofMembers compareNames requiredFirst members).sorted := by
  have hparts : ∀ part ∈ partitions requiredFirst members,
      order.filter part =
        sortPartition compareNames members ((List.range members.length).filter part) :=
    fun part hpart => (inOrder_iff (pairwise_lt_filter_range part _) (h.perm.filter part)).mp
      (h.inOrder part hpart)
  cases requiredFirst with
  | false => simpa [ofMembers] using hparts (fun _ => true) (by simp [partitions])
  | true =>
      rw [← filter_not_append_filter (h.optionalLast rfl),
        hparts (fun index => !optionalAt members index) (by simp [partitions]),
        hparts (optionalAt members) (by simp [partitions])]
      rfl

end Plan

/-- **The planned order is the only one that meets the description of a plan**, and the positions
say for every member in which slot of that order it stands. -/
theorem SortOptions.plan_unique (options : SortOptions) (requiredFirst : Bool)
    (members : List Member) :
    let plan := Plan.ofMembers options.compareNames requiredFirst members
    (∀ order, Plan.Specified options.compareNames requiredFirst members order
      ↔ order = plan.sorted)
    ∧ plan.positions.map Position.initial = List.range members.length
    ∧ plan.positions.map (fun position => plan.sorted[position.final]?) =
      (List.range members.length).map some := by
  have hpositions := Plan.map_positions
    (Plan.sorted_ofMembers_perm options.compareNames requiredFirst members)
  refine ⟨fun order => ⟨fun h => h.eq_ofMembers, ?_⟩, hpositions⟩
  rintro rfl
  exact Plan.specified_ofMembers requiredFirst

end KeyOrder
