import KeyOrder.Evaluation
import KeyOrder.Proofs.Order.Arrangement
import KeyOrder.Proofs.Order.Positions

/-!
# What the reports say about a list

A member that moves is passed over while it stands before the member that follows it after sorting.
**No list slips through for this reason**: from the first slot that gets another member on, every
member passed over stands before the next one, so the members of the slots climb, and they would
have to climb past the last member. The argument needs every slot of the climb to hold a member that
can be reported, hence members without a name must keep their slots (`Plan.KeepsUnnamed`), as they
do unless required members come first. The climb is stated from a first member on, so that it can be
used where members without a name keep their slots only behind that one.
-/

namespace KeyOrder

open Std

namespace Plan

variable {plan : Plan} {members : List Member} {n slot index : Nat}

/-! ## When nothing is reported -/

/-- **Nothing is reported exactly if every named member that moves stands before the member that
follows it after sorting.** -/
theorem count_select_eq_zero_iff (h : plan.sorted.Perm (List.range n)) :
    (plan.select members).count = 0 ↔
      ∀ slot index, plan.sorted[slot]? = some index → index ≠ slot → namedAt members index = true →
        ∃ next, plan.sorted[slot + 1]? = some next ∧ index < next := by
  have hzero : (plan.select members).count = 0 ↔
      ∀ index < n, plan.reports members ⟨index, plan.finalOf index⟩ = false := by
    simp [Selection.count, select, positions_eq h, List.count_eq_zero]
  rw [hzero]
  constructor
  · intro hall slot index hslot hne hnamed
    have hindex := index_lt h hslot
    have hreport := hall index hindex
    rw [(finalOf_eq_iff h hindex).mpr hslot] at hreport
    simp only [reports, beq_iff_eq, hne, hnamed, Bool.or_eq_true, Bool.not_true, or_self,
      Bool.false_eq_true, if_false, nextSorted] at hreport
    cases hnext : plan.sorted[slot + 1]? with
    | none => simp [hnext] at hreport
    | some next =>
        simp only [hnext, decide_eq_false_iff_not, Nat.not_lt] at hreport
        refine ⟨next, rfl, Nat.lt_of_le_of_ne hreport ?_⟩
        rintro rfl
        have := slot_unique h hslot hnext
        omega
  · intro hall index hindex
    have hslot := (finalOf_eq_iff h hindex).mp rfl
    unfold reports
    split
    · rfl
    · rename_i hmoved
      simp only [Bool.or_eq_true, beq_iff_eq, Bool.not_eq_true', not_or, Bool.not_eq_false]
        at hmoved
      obtain ⟨next, hnext, hlt⟩ := hall _ index hslot hmoved.1 hmoved.2
      simp only [nextSorted, hnext, decide_eq_false_iff_not]
      omega

/-! ## The climb -/

/-- No member without a name changes its slot. -/
def KeepsUnnamed (plan : Plan) (members : List Member) : Prop :=
  ∀ index < members.length, namedAt members index = false → plan.finalOf index = index

/-- Slots that all hold members from their own place or from before it hold their own members. -/
theorem sorted_eq_range_of_le (h : plan.sorted.Perm (List.range n))
    (hle : ∀ slot index : Nat, plan.sorted[slot]? = some index → index ≤ slot) :
    plan.sorted = List.range n := by
  have hown : ∀ slot, slot < n → plan.sorted[slot]? = some slot := by
    intro slot
    induction slot using Nat.strongRecOn with
    | _ slot ih =>
        intro hslot
        obtain ⟨index, hindex, hlt⟩ := exists_slot h hslot
        rcases Nat.lt_or_eq_of_le (hle slot index hindex) with hless | rfl
        · -- the earlier slot holds its own member already
          have := slot_unique h hindex (ih index hless hlt)
          omega
        · exact hindex
  refine List.ext_getElem? fun slot => ?_
  by_cases hslot : slot < n
  · rw [hown slot hslot, List.getElem?_range hslot]
  · rw [List.getElem?_eq_none (by rw [h.length_eq, List.length_range]; omega),
      List.getElem?_eq_none (by rw [List.length_range]; omega)]

section Climb

variable {base : Nat} (h : plan.sorted.Perm (List.range members.length))
  (hkeeps : ∀ index, base ≤ index → index < members.length → namedAt members index = false →
    plan.finalOf index = index)
  (hcount : (plan.select members).count = 0)

include h hkeeps hcount

/-- One step of the climb: behind a slot that holds a member from further down comes another one. -/
theorem climb_step (hslot : plan.sorted[slot]? = some index) (hlt : slot < index)
    (hbase : base ≤ index) :
    ∃ next, plan.sorted[slot + 1]? = some next ∧ slot + 1 < next ∧ base ≤ next := by
  have hindex := index_lt h hslot
  have hnamed : namedAt members index = true := by
    by_cases hname : namedAt members index = true
    · exact hname
    · -- a member without a name would stand in its own slot
      have hown := hkeeps index hbase hindex (by simpa using hname)
      have := (finalOf_eq_iff h hindex).mpr hslot
      omega
  obtain ⟨next, hnext, hless⟩ :=
    (count_select_eq_zero_iff h).mp hcount slot index hslot (by omega) hnamed
  exact ⟨next, hnext, by omega, by omega⟩

/-- The whole climb. -/
theorem climb (hslot : plan.sorted[slot]? = some index) (hlt : slot < index)
    (hbase : base ≤ index) (distance : Nat) :
    ∃ next, plan.sorted[slot + distance]? = some next ∧ slot + distance < next ∧ base ≤ next := by
  induction distance with
  | zero => exact ⟨index, hslot, hlt, hbase⟩
  | succ distance ih =>
      obtain ⟨next, hnext, hless, habove⟩ := ih
      exact climb_step h hkeeps hcount hnext hless habove

/-- **No member moves up**: the climb would run past the last slot. -/
theorem le_of_count_eq_zero (hslot : plan.sorted[slot]? = some index) (hbase : base ≤ index) :
    index ≤ slot := by
  refine Nat.le_of_not_lt fun hlt => ?_
  obtain ⟨next, hnext, -⟩ := climb h hkeeps hcount hslot hlt hbase members.length
  have := slot_lt h hnext
  omega

end Climb

/-- **A list without reports is in place**, if members without a name keep their slots. -/
theorem isIdentity_of_count_eq_zero (h : plan.sorted.Perm (List.range members.length))
    (hkeeps : plan.KeepsUnnamed members) (hcount : (plan.select members).count = 0) :
    plan.isIdentity = true := by
  refine (isIdentity_iff h).mpr (sorted_eq_range_of_le h fun slot index hslot => ?_)
  exact le_of_count_eq_zero h (fun index _ => hkeeps index) hcount hslot (Nat.zero_le index)

/-! ## Members without a name -/

variable {compareNames : String → String → Ordering} {requiredFirst : Bool}

/-- A member without a name stands where its group puts it. -/
theorem getElem?_sorted_of_unnamed {required optional : List Nat}
    (hslot : (required ++ optional)[slot]? = some index) (hname : namedAt members index = false) :
    (sortPartition compareNames members required
      ++ sortPartition compareNames members optional)[slot]? = some index := by
  have hlength := (sortPartition_perm compareNames members required).length_eq
  by_cases hlt : slot < required.length
  · rw [List.getElem?_append_left hlt] at hslot
    rw [List.getElem?_append_left (by omega)]
    exact getElem?_fillSlots hslot hname
  · rw [List.getElem?_append_right (by omega)] at hslot
    rw [List.getElem?_append_right (by omega), hlength]
    exact getElem?_fillSlots hslot hname

/-- A member without a name keeps its slot, unless required members come first and it is optional
with a required member behind it, or required with an optional one before it. -/
theorem finalOf_of_unnamed (hindex : index < members.length) (hname : namedAt members index = false)
    (hbefore : requiredFirst = true → optionalAt members index = false →
      ∀ other < index, optionalAt members other = false)
    (hbehind : requiredFirst = true → optionalAt members index = true →
      ∀ other, index < other → other < members.length → optionalAt members other = true) :
    (ofMembers compareNames requiredFirst members).finalOf index = index := by
  rw [finalOf_eq_iff (sorted_ofMembers_perm _ _ _) hindex]
  cases requiredFirst with
  | false => exact getElem?_fillSlots (List.getElem?_range hindex) hname
  | true =>
      refine getElem?_sorted_of_unnamed ?_ hname
      refine getElem?_filter_not_append_filter (List.getElem?_range hindex) ?_ ?_
      · intro hrequired other hother
        rw [List.take_range, List.mem_range] at hother
        exact hbefore rfl hrequired other (by omega)
      · intro hoptional other hother
        obtain ⟨distance, hdistance⟩ := List.mem_iff_getElem?.mp hother
        rw [List.getElem?_drop] at hdistance
        obtain ⟨hlt, rfl⟩ := List.getElem?_eq_some_iff.mp hdistance
        rw [List.length_range] at hlt
        rw [List.getElem_range]
        cases distance with
        | zero => exact hoptional
        | succ distance => exact hbehind rfl hoptional _ (by omega) hlt

end Plan

end KeyOrder
