import KeyOrder.Order.Plan

/-!
# A plan is a permutation

Sorting moves members between slots and neither loses nor doubles one: **the planned order is a
permutation of the members**. In a partition, the sorted names go back into as many slots as they
were taken from.
-/

namespace KeyOrder

namespace Plan

/-- Slots that are filled with as many values as there are slots to fill. -/
theorem fillSlots_perm (test : Nat → Bool) {slots values : List Nat}
    (h : values.length = (slots.filter test).length) :
    (fillSlots test slots values).Perm (values ++ slots.filter fun index => !test index) := by
  induction slots generalizing values with
  | nil =>
      obtain rfl : values = [] := List.length_eq_zero_iff.mp h
      exact List.Perm.refl _
  | cons index slots ih =>
      by_cases htest : test index = true
      · rw [List.filter_cons_of_pos htest] at h
        cases values with
        | nil => simp at h
        | cons value rest =>
            have hrest := @ih rest (by simpa using h)
            simpa [fillSlots, htest] using hrest
      · rw [List.filter_cons_of_neg htest] at h
        have hrest := ih h
        simp only [fillSlots, htest, List.filter_cons, Bool.not_false, if_true]
        exact (hrest.cons index).trans List.perm_middle.symm

/-- Sorting a partition permutes its slots. -/
theorem sortPartition_perm (compareNames : String → String → Ordering) (members : List Member)
    (slots : List Nat) : (sortPartition compareNames members slots).Perm slots := by
  have hsort := List.mergeSort_perm (slots.filter (namedAt members)) fun a b =>
    compareOptional compareNames (nameAt members a) (nameAt members b) != .gt
  have hfill := fillSlots_perm (namedAt members) hsort.length_eq
  exact (hfill.trans (hsort.append_right _)).trans (List.filter_append_perm _ _)

/-- **The planned order is a permutation of the members.** -/
theorem sorted_ofMembers_perm (compareNames : String → String → Ordering) (requiredFirst : Bool)
    (members : List Member) :
    (ofMembers compareNames requiredFirst members).sorted.Perm (List.range members.length) := by
  cases requiredFirst with
  | false => exact sortPartition_perm _ _ _
  | true =>
      have hrequired := sortPartition_perm compareNames members
        ((List.range members.length).filter fun index => !optionalAt members index)
      have hoptional := sortPartition_perm compareNames members
        ((List.range members.length).filter (optionalAt members))
      refine (hrequired.append hoptional).trans ?_
      exact List.perm_append_comm.trans (List.filter_append_perm _ _)

end Plan

end KeyOrder
