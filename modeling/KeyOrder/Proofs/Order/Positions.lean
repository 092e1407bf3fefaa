import KeyOrder.Order.Plan

/-!
# The table of positions

The table of positions is filled by going through the sorted order and entering each slot with the
member that stands in it. **A table filled from a permutation is its inverse** (`positions_eq`): the
entry of a member is the only slot that holds it. No entry is written twice, because no member
stands in two slots, and none keeps what it started with, because every member stands in one.
-/

namespace KeyOrder

namespace Plan

variable {plan : Plan} {order : List Nat} {n slot index : Nat}

/-! ## Slots and members -/

theorem slot_lt (h : order.Perm (List.range n)) (hslot : order[slot]? = some index) : slot < n := by
  have hlt := (List.getElem?_eq_some_iff.mp hslot).1
  rwa [h.length_eq, List.length_range] at hlt

theorem index_lt (h : order.Perm (List.range n)) (hslot : order[slot]? = some index) : index < n :=
  List.mem_range.mp (h.mem_iff.mp (List.mem_of_getElem? hslot))

/-- The slot in which a member stands. -/
def finalOf (plan : Plan) (index : Nat) : Nat := plan.sorted.idxOf index

/-- The slot of a member is the one it stands in. -/
theorem finalOf_eq_iff (h : plan.sorted.Perm (List.range n)) (hindex : index < n) :
    plan.finalOf index = slot ↔ plan.sorted[slot]? = some index := by
  have hnodup : plan.sorted.Nodup := h.nodup_iff.mpr List.nodup_range
  have hmem : index ∈ plan.sorted := h.mem_iff.mpr (List.mem_range.mpr hindex)
  constructor
  · rintro rfl
    have hlt := List.idxOf_lt_length_of_mem hmem
    rw [finalOf, List.getElem?_eq_getElem hlt, List.getElem_idxOf hlt]
  · intro hslot
    obtain ⟨hlt, rfl⟩ := List.getElem?_eq_some_iff.mp hslot
    exact hnodup.idxOf_getElem slot hlt

theorem exists_slot (h : plan.sorted.Perm (List.range n)) (hslot : slot < n) :
    ∃ index, plan.sorted[slot]? = some index ∧ index < n := by
  have hlt : slot < plan.sorted.length := by rwa [h.length_eq, List.length_range]
  have hget := List.getElem?_eq_getElem hlt
  exact ⟨plan.sorted[slot], hget, index_lt h hget⟩

theorem slot_unique (h : plan.sorted.Perm (List.range n)) {other : Nat}
    (hslot : plan.sorted[slot]? = some index) (hother : plan.sorted[other]? = some index) :
    slot = other := by
  have hindex := index_lt h hslot
  rw [← finalOf_eq_iff h hindex] at hslot hother
  exact hslot.symm.trans hother

/-! ## Filling the table -/

/-- One entry changes the entry of its member and no other. -/
theorem getElem?_enterSlot (table : List Position) (member final : Nat) :
    (enterSlot table (member, final))[index]? =
      table[index]?.map fun position =>
        if member = index then { position with final } else position := by
  rw [enterSlot, List.getElem?_modify]
  rcases table[index]? with _ | position
  · rfl
  · split <;> simp_all

/-- **What the filled table says of a member**: the slot in which it stands in the order, counted
from the first slot that is entered, and what the table said before if it does not stand there. -/
theorem getElem?_foldl_enterSlot (order : List Nat) (hnodup : order.Nodup) (first : Nat)
    (table : List Position) :
    ((order.zipIdx first).foldl enterSlot table)[index]? =
      table[index]?.map fun position =>
        if index ∈ order then { position with final := first + order.idxOf index }
        else position := by
  induction order generalizing first table with
  | nil => simp
  | cons member rest ih =>
      obtain ⟨hmember, hrest⟩ := List.nodup_cons.mp hnodup
      rw [List.zipIdx_cons, List.foldl_cons, ih hrest, getElem?_enterSlot, Option.map_map]
      refine congrArg (Option.map · table[index]?) (funext fun position => ?_)
      by_cases hne : member = index
      · subst hne
        simp [hmember]
      · have hbehind : (member :: rest).idxOf index = rest.idxOf index + 1 := by
          rw [List.idxOf_cons, beq_eq_false_iff_ne.mpr hne, cond_false]
        simp only [Function.comp_apply, hne, Ne.symm hne, hbehind, if_false, List.mem_cons,
          false_or, Nat.add_assoc, Nat.add_comm 1]

/-- **The positions of a plan are the slots in which its members stand.** -/
theorem positions_eq (h : plan.sorted.Perm (List.range n)) :
    plan.positions = (List.range n).map fun index => ⟨index, plan.finalOf index⟩ := by
  have hnodup : plan.sorted.Nodup := h.nodup_iff.mpr List.nodup_range
  have hlength : plan.sorted.length = n := by rw [h.length_eq, List.length_range]
  refine List.ext_getElem? fun index => ?_
  rw [positions, getElem?_foldl_enterSlot _ hnodup, hlength, List.getElem?_map, List.getElem?_map,
    Option.map_map]
  by_cases hindex : index < n
  · have hmem : index ∈ plan.sorted := h.mem_iff.mpr (List.mem_range.mpr hindex)
    simp [List.getElem?_range hindex, hmem, finalOf]
  · simp [List.getElem?_eq_none (l := List.range n) (i := index) (by simpa using hindex)]

theorem length_positions (h : plan.sorted.Perm (List.range n)) : plan.positions.length = n := by
  rw [positions_eq h, List.length_map, List.length_range]

/-- The positions of a plan are the inverse of its order. -/
theorem map_positions (h : plan.sorted.Perm (List.range n)) :
    plan.positions.map Position.initial = List.range n
      ∧ plan.positions.map (fun position => plan.sorted[position.final]?) =
        (List.range n).map some := by
  simp only [positions_eq h, List.map_map, Function.comp_def, List.map_id', true_and]
  refine List.map_congr_left fun index hindex => ?_
  exact (finalOf_eq_iff h (List.mem_range.mp hindex)).mp rfl

end Plan

end KeyOrder
