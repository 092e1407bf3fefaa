import KeyOrder.Proofs.Order.Enforcement
import Mathlib.Data.List.Perm.Subperm

/-!
# Required members first

With required members first, a list that is not reported has no optional member before a required
one, with one exception. Two members give an optional member in the wrong place away: the last
required one, which moves up, and the one that goes into the last slot. Members without a name are
never reported, so **the optional member goes unnoticed only if neither of the two can be reported**
(`Member.Unnoticed`): the last required member has no name, and the last optional one has no name
either or stands at the end of the list already.

If the last required member has a name, members without one keep their slots behind it, and the
climb from it on would run past the last slot. If it has none, the last slot goes to an optional
member, which has a name if the last optional member has one. The exception cannot be made smaller:
any list of this kind goes unnoticed if its groups are in order by name
(`count_eq_zero_of_unnoticed`).
-/

namespace KeyOrder

open Std

/-! ## The last member of a group -/

/-- The last element that passes a test. -/
theorem getLast?_filter_eq_some_iff {α : Type} {p : α → Bool} {l : List α} {a : α} :
    (l.filter p).getLast? = some a ↔
      ∃ k : Nat, l[k]? = some a ∧ p a = true
        ∧ ∀ (later : Nat) b, k < later → l[later]? = some b → p b = false := by
  constructor
  · intro h
    obtain ⟨before, hbefore⟩ := List.getLast?_eq_some_iff.mp h
    obtain ⟨front, rest, rfl, -, hrest⟩ := List.filter_eq_append_iff.mp hbefore
    obtain ⟨middle, behind, rfl, -, ha, hbehind⟩ := List.filter_eq_cons_iff.mp hrest
    refine ⟨(front ++ middle).length, by simp, ha, fun later b hlater hb => ?_⟩
    have hmem : b ∈ behind := by
      rw [← List.append_assoc, List.getElem?_append_right (Nat.le_of_lt hlater)] at hb
      obtain ⟨distance, hdistance⟩ : ∃ distance, later - (front ++ middle).length = distance + 1 :=
        ⟨_, (Nat.succ_pred_eq_of_pos (Nat.sub_pos_of_lt hlater)).symm⟩
      rw [hdistance, List.getElem?_cons_succ] at hb
      exact List.mem_of_getElem? hb
    simpa using List.filter_eq_nil_iff.mp hbehind b hmem
  · rintro ⟨k, hk, ha, hbehind⟩
    obtain ⟨hlt, hget⟩ := List.getElem?_eq_some_iff.mp hk
    have hdrop : l.drop k = a :: l.drop (k + 1) := by rw [List.drop_eq_getElem_cons hlt, hget]
    have hnone : (l.drop (k + 1)).filter p = [] := by
      refine List.filter_eq_nil_iff.mpr fun b hb => ?_
      obtain ⟨distance, hdistance⟩ := List.mem_iff_getElem?.mp hb
      rw [List.getElem?_drop] at hdistance
      simp [hbehind _ b (by omega) hdistance]
    rw [← List.take_append_drop k l, hdrop, List.filter_append, List.filter_cons_of_pos ha, hnone,
      List.getLast?_concat]

namespace Member

/-- The last required member of a list, or the last optional one. -/
def lastOf (optional : Bool) (members : List Member) : Option Member :=
  (members.filter fun member => member.optional == optional).getLast?

/-- Lists in which an optional member before a required one can go unnoticed. -/
structure Unnoticed (members : List Member) : Prop where
  /-- An optional member stands before a required one. -/
  mixed : ∃ a b, [a, b].Sublist members ∧ a.optional = true ∧ b.optional = false
  /-- The last required member has no name. -/
  required : ∀ last ∈ lastOf false members, last.isNamed = false
  /-- The last optional member has no name either, or it stands at the end of the list. -/
  optional : ∀ last ∈ lastOf true members, last.isNamed = true → members.getLast? = some last

end Member

namespace Plan

variable {compareNames : String → String → Ordering} {members : List Member}
  {index last other : Nat} {group : Bool}

/-- The index of the last member of a group. -/
structure LastAt (members : List Member) (group : Bool) (last : Nat) : Prop where
  lt : last < members.length
  inGroup : optionalAt members last = group
  behind : ∀ later, last < later → later < members.length → optionalAt members later = !group

theorem lastOf_eq_some_iff {member : Member} :
    Member.lastOf group members = some member ↔
      ∃ last, LastAt members group last ∧ members[last]? = some member := by
  rw [Member.lastOf, getLast?_filter_eq_some_iff]
  refine exists_congr fun last => ⟨?_, ?_⟩
  · rintro ⟨hlast, hgroup, hbehind⟩
    obtain ⟨hlt, -⟩ := List.getElem?_eq_some_iff.mp hlast
    refine ⟨⟨hlt, ?_, fun later hless hlater => ?_⟩, hlast⟩
    · rw [optionalAt_of_getElem? hlast]
      simpa using hgroup
    · have hlater := List.getElem?_eq_getElem hlater
      rw [optionalAt_of_getElem? hlater]
      simpa [Bool.eq_not] using hbehind later _ hless hlater
  · rintro ⟨hlast, hmember⟩
    refine ⟨hmember, ?_, fun later b hless hb => ?_⟩
    · simpa [optionalAt_of_getElem? hmember] using hlast.inGroup
    · have hlater := hlast.behind later hless (List.getElem?_eq_some_iff.mp hb).1
      simpa [optionalAt_of_getElem? hb, Bool.eq_not] using hlater

/-- The last index of a group ends the indices of that group. -/
theorem getLast?_filter_range_eq_some_iff {p : Nat → Bool}
    (hp : ∀ index, p index = (optionalAt members index == group)) :
    ((List.range members.length).filter p).getLast? = some last ↔ LastAt members group last := by
  rw [getLast?_filter_eq_some_iff]
  constructor
  · rintro ⟨k, hk, hlast, hbehind⟩
    obtain ⟨hlt, rfl⟩ := List.getElem?_eq_some_iff.mp hk
    rw [List.length_range] at hlt
    rw [List.getElem_range] at hlast ⊢
    refine ⟨hlt, by simpa [hp] using hlast, fun later hless hlater => ?_⟩
    simpa [hp, Bool.eq_not] using hbehind later later hless (List.getElem?_range hlater)
  · rintro ⟨hlt, hgroup, hbehind⟩
    refine ⟨last, List.getElem?_range hlt, by simp [hp, hgroup], fun later b hless hb => ?_⟩
    obtain ⟨hlater, rfl⟩ := List.getElem?_eq_some_iff.mp hb
    rw [List.length_range] at hlater
    rw [List.getElem_range]
    simp [hp, hbehind later hless hlater]

/-! ## What is reported -/

/-- The last required member moves up if an optional member stands before it. -/
theorem LastAt.exists_slot_lt (compareNames : String → String → Ordering)
    (h : LastAt members false last) (hother : other < last)
    (hoptional : optionalAt members other = true) :
    ∃ slot < last, (ofMembers compareNames true members).sorted[slot]? = some last := by
  have hmem : last ∈ (List.range members.length).filter fun i => !optionalAt members i := by
    simp [h.lt, h.inGroup]
  have hsub : ((List.range members.length).filter fun i => !optionalAt members i)
      ⊆ (List.range (last + 1)).erase other := by
    intro i hi
    obtain ⟨hi, hnot⟩ := List.mem_filter.mp hi
    have hne : i ≠ other := by
      rintro rfl
      simp [hoptional] at hnot
    have hle : i ≤ last := by
      refine Nat.le_of_not_lt fun hlt => ?_
      simp [h.behind i hlt (List.mem_range.mp hi)] at hnot
    exact (List.mem_erase_of_ne hne).mpr (List.mem_range.mpr (by omega))
  have hlength := (List.Nodup.subperm (List.nodup_range.filter _) hsub).length_le
  rw [List.length_erase_of_mem (List.mem_range.mpr (by omega)), List.length_range] at hlength
  have hperm := sortPartition_perm compareNames members
    ((List.range members.length).filter fun i => !optionalAt members i)
  obtain ⟨slot, hslot, hget⟩ := List.getElem_of_mem (hperm.mem_iff.mpr hmem)
  refine ⟨slot, by rw [hperm.length_eq] at hslot; omega, ?_⟩
  show (_ ++ _)[slot]? = _
  rw [List.getElem?_append_left hslot, List.getElem?_eq_getElem hslot, hget]

/-- **If the last required member has a name, an optional member before it is noticed.** From the
last required member on, members without a name keep their slots, so the climb from there on would
run past the last slot. -/
theorem LastAt.count_ne_zero_of_required (h : LastAt members false last)
    (hname : namedAt members last = true) (hother : other < last)
    (hoptional : optionalAt members other = true) :
    ((ofMembers compareNames true members).select members).count ≠ 0 := by
  intro hcount
  obtain ⟨slot, hlt, hslot⟩ := h.exists_slot_lt compareNames hother hoptional
  have hkeeps : ∀ index, last ≤ index → index < members.length → namedAt members index = false →
      (ofMembers compareNames true members).finalOf index = index := by
    intro index hbase hindex hunnamed
    have hne : index ≠ last := by
      rintro rfl
      simp [hname] at hunnamed
    refine finalOf_of_unnamed hindex hunnamed (fun _ hnot => ?_) fun _ _ later hlater =>
      h.behind later (by omega)
    simp [h.behind index (by omega) hindex] at hnot
  have := le_of_count_eq_zero (sorted_ofMembers_perm _ _ _) hkeeps hcount hslot (Nat.le_refl last)
  omega

/-- The member that goes into the last slot is optional, and has a name if the last optional member
has one: a member without a name would be in its own slot among the optional ones. -/
theorem LastAt.exists_last_slot (compareNames : String → String → Ordering)
    (h : LastAt members true last)
    (hname : namedAt members last = true) :
    ∃ index, (ofMembers compareNames true members).sorted[members.length - 1]? = some index
      ∧ optionalAt members index = true ∧ namedAt members index = true := by
  have hperm := sorted_ofMembers_perm compareNames true members
  have hends : ((List.range members.length).filter (optionalAt members)).getLast? = some last :=
    (getLast?_filter_range_eq_some_iff (by simp)).mpr h
  have hlast : (split members).getLast? = some last := by
    rw [split, List.getLast?_append, hends, Option.some_or]
  rw [List.getLast?_eq_getElem?, (split_perm members).length_eq, List.length_range] at hlast
  obtain ⟨index, hindex, hlt⟩ := exists_slot hperm (Nat.sub_one_lt_of_lt h.lt)
  refine ⟨index, hindex, ?_, eq_true_of_ne_false fun hunnamed => ?_⟩
  · have hne : sortPartition compareNames members
        ((List.range members.length).filter (optionalAt members)) ≠ [] := by
      rw [← List.length_pos_iff, (sortPartition_perm _ _ _).length_eq, List.length_pos_iff]
      exact List.ne_nil_of_mem (List.mem_of_getLast? hends)
    have hsorted : (ofMembers compareNames true members).sorted.getLast? = some index := by
      rw [List.getLast?_eq_getElem?, hperm.length_eq, List.length_range, hindex]
    have hmem := List.mem_of_getLast? ((List.getLast?_append_of_ne_nil _ hne).symm.trans hsorted)
    exact (List.mem_filter.mp ((sortPartition_perm _ _ _).mem_iff.mp hmem)).2
  · obtain ⟨slot, hslot⟩ := List.mem_iff_getElem?.mp
      ((split_perm members).mem_iff.mpr (List.mem_range.mpr hlt))
    have hown := @getElem?_sorted_of_unnamed members slot index compareNames _ _ hslot hunnamed
    rw [slot_unique hperm hown hindex, hlast, Option.some.injEq] at hslot
    rw [hslot, hunnamed] at hname
    cases hname

/-- **If the last optional member has a name and stands before a required one, it is noticed**: the
member that goes into the last slot is reported. -/
theorem LastAt.count_ne_zero_of_optional (h : LastAt members true last)
    (hname : namedAt members last = true) (hbefore : last < members.length - 1) :
    ((ofMembers compareNames true members).select members).count ≠ 0 := by
  intro hcount
  have hperm := sorted_ofMembers_perm compareNames true members
  obtain ⟨index, hindex, hoptional, hnamed⟩ := h.exists_last_slot compareNames hname
  have hmoved : index ≠ members.length - 1 := by
    rintro rfl
    have hrequired := h.behind (members.length - 1) hbefore (by omega)
    simp [hoptional] at hrequired
  obtain ⟨next, hnext, -⟩ :=
    (count_select_eq_zero_iff hperm).mp hcount _ index hindex hmoved hnamed
  have := slot_lt hperm hnext
  omega

/-- Members in the wrong order, by their indices. -/
theorem exists_mixedAt
    (h : ∃ a b, [a, b].Sublist members ∧ a.optional = true ∧ b.optional = false) :
    ∃ i j, i < j ∧ j < members.length ∧ optionalAt members i = true
      ∧ optionalAt members j = false := by
  obtain ⟨a, b, hsub, ha, hb⟩ := h
  by_contra hnone
  have hpair : members.Pairwise fun a b => a.optional = true → b.optional = true := by
    refine List.pairwise_iff_getElem.mpr fun i j hi hj hij hoptional => ?_
    refine eq_true_of_ne_false fun hrequired => hnone ⟨i, j, hij, hj, ?_, ?_⟩
    · rwa [optionalAt_of_getElem? (List.getElem?_eq_getElem hi)]
    · rwa [optionalAt_of_getElem? (List.getElem?_eq_getElem hj)]
  rw [List.pairwise_iff_forall_sublist.mp hpair hsub ha] at hb
  cases hb

/-- **In a list without reports an optional member before a required one goes unnoticed.** -/
theorem unnoticed_of_count_eq_zero
    (hcount : ((ofMembers compareNames true members).select members).count = 0)
    (hmixed : ∃ a b, [a, b].Sublist members ∧ a.optional = true ∧ b.optional = false) :
    Member.Unnoticed members := by
  obtain ⟨i, j, hij, hj, hi, hrequired⟩ := exists_mixedAt hmixed
  refine ⟨hmixed, fun member hmember => ?_, fun member hmember hname => ?_⟩
  · obtain ⟨last, hlast, hget⟩ := lastOf_eq_some_iff.mp hmember
    have hle : j ≤ last := by
      refine Nat.le_of_not_lt fun hlt => ?_
      simp [hlast.behind j hlt hj] at hrequired
    refine eq_false_of_ne_true fun hname => ?_
    refine hlast.count_ne_zero_of_required ?_ (Nat.lt_of_lt_of_le hij hle) hi hcount
    rwa [namedAt, nameAt_of_getElem? hget]
  · obtain ⟨last, hlast, hget⟩ := lastOf_eq_some_iff.mp hmember
    by_contra hends
    have hne : last ≠ members.length - 1 := by
      rintro rfl
      exact hends (List.getLast?_eq_getElem?.trans hget)
    have hlt := hlast.lt
    refine hlast.count_ne_zero_of_optional ?_ (by omega) hcount
    rwa [namedAt, nameAt_of_getElem? hget]

/-- A member of a group comes before the next one of the group, or it is the last one. -/
theorem next_or_last {p : Nat → Bool} {n slot : Nat}
    (h : ((List.range n).filter p)[slot]? = some index) :
    (∃ next, ((List.range n).filter p)[slot + 1]? = some next ∧ index < next)
      ∨ (slot + 1 = ((List.range n).filter p).length
        ∧ ((List.range n).filter p).getLast? = some index) := by
  obtain ⟨hlt, hget⟩ := List.getElem?_eq_some_iff.mp h
  by_cases hnext : slot + 1 < ((List.range n).filter p).length
  · refine .inl ⟨_, List.getElem?_eq_getElem hnext, ?_⟩
    have hless := List.pairwise_iff_getElem.mp (List.pairwise_lt_range.filter p) slot (slot + 1)
      hlt hnext (Nat.lt_succ_self slot)
    rwa [hget] at hless
  · have hends : slot + 1 = ((List.range n).filter p).length := by omega
    refine .inr ⟨hends, ?_⟩
    rw [List.getLast?_eq_getElem?, ← hends, Nat.add_sub_cancel, h]

/-- **The exception is exact**: a list in which an optional member can go unnoticed has no reports
if its groups are in order by name. Each member of a group has the next one behind it after sorting,
and the last ones of the groups have no name or do not move. -/
theorem count_eq_zero_of_unnoticed (h : Member.Unnoticed members)
    (hnames : members.Pairwise fun a b =>
      a.optional = b.optional → compareOptional compareNames a.name b.name ≠ .gt) :
    ((ofMembers compareNames true members).select members).count = 0 := by
  rw [count_select_eq_zero_iff (sorted_ofMembers_perm _ _ _), sorted_ofMembers_of_names hnames]
  intro slot index hslot hmoved hnamed
  have hindex := index_lt (split_perm members) hslot
  have hmember := List.getElem?_eq_getElem hindex
  rw [namedAt, nameAt_of_getElem? hmember] at hnamed
  have hlength := (split_perm members).length_eq
  rw [List.length_range, split, List.length_append] at hlength
  rw [split] at hslot ⊢
  by_cases hlt : slot < ((List.range members.length).filter
      fun index => !optionalAt members index).length
  · rw [List.getElem?_append_left hlt] at hslot
    rcases next_or_last hslot with ⟨next, hnext, hless⟩ | ⟨-, hends⟩
    · exact ⟨next, by rw [List.getElem?_append_left (List.getElem?_eq_some_iff.mp hnext).1, hnext],
        hless⟩
    · have hlast : LastAt members false index :=
        (getLast?_filter_range_eq_some_iff (by simp)).mp hends
      have hunnamed := h.required _ (lastOf_eq_some_iff.mpr ⟨index, hlast, hmember⟩)
      exact absurd (hunnamed.symm.trans hnamed) (by simp)
  · rw [List.getElem?_append_right (by omega)] at hslot
    rcases next_or_last hslot with ⟨next, hnext, hless⟩ | ⟨hends, hlast⟩
    · refine ⟨next, ?_, hless⟩
      rw [List.getElem?_append_right (by omega), Nat.sub_add_comm (by omega), hnext]
    · have hlast : LastAt members true index :=
        (getLast?_filter_range_eq_some_iff (by simp)).mp hlast
      have hlist := h.optional _ (lastOf_eq_some_iff.mpr ⟨index, hlast, hmember⟩) hnamed
      rw [List.getLast?_eq_getElem?] at hlist
      have hend : index = members.length - 1 := by
        by_contra hne
        have hother := hlast.behind (members.length - 1) (by omega) (by omega)
        rw [optionalAt_of_getElem? hlist, ← optionalAt_of_getElem? hmember, hlast.inGroup] at hother
        cases hother
      omega

end Plan

namespace SortOptions

variable {options : SortOptions} {source : Text} {list : MemberList}

/-! ## Evaluations -/

/-- **A list without violations has no optional member before a required one**, unless it is one in
which such a member goes unnoticed. -/
theorem requiredFirst_of_violations_eq_nil {evaluation : Evaluation}
    (hfirst : options.requiredFirst = true)
    (heval : options.evaluate source list = .ok evaluation) (hnone : evaluation.violations = [])
    (hnoticed : ¬ Member.Unnoticed list.members) :
    list.members.Pairwise fun a b => a.optional = true → b.optional = true := by
  obtain rfl := eq_computeEvaluation heval
  have hcount : ((Plan.ofMembers options.compareNames true list.members).select
      list.members).count = 0 := by
    rw [← hfirst]
    exact violations_computeEvaluation_iff.mp hnone
  refine List.pairwise_iff_forall_sublist.mpr fun {a b} hsub ha => eq_true_of_ne_false fun hb => ?_
  exact hnoticed (Plan.unnoticed_of_count_eq_zero hcount ⟨a, b, hsub, ha, hb⟩)

theorem requiredFirst_ordered :
    (∃ evaluation,
        ({ requiredFirst := true } : SortOptions).evaluate orderedSource ordered = .ok evaluation
          ∧ evaluation.violations = [])
      ∧ ordered.members.Pairwise fun a b => a.optional = true → b.optional = true := by
  -- the last required member is the property named b
  have hnoticed : ¬ Member.Unnoticed ordered.members := fun h => by
    have hunnamed := h.required _ rfl
    cases hunnamed
  have hidentity : (({ requiredFirst := true } : SortOptions).plan ordered.members).isIdentity
      = true := by
    have horder := @Plan.pairwise_arrange ({ requiredFirst := true } : SortOptions).compareNames
      true ordered.members.reverse _
    exact Plan.isIdentity_ofMembers_iff.mpr (arrange_reverse_ordered ▸ horder)
  have hnone : (({ requiredFirst := true } : SortOptions).computeEvaluation orderedSource
      ordered).violations = [] :=
    violations_computeEvaluation_iff.mpr
      (Plan.count_eq_zero_of_isIdentity (plan_perm _ ordered.members) hidentity)
  exact ⟨⟨_, evaluate_of_checkRanges rfl, hnone⟩,
    requiredFirst_of_violations_eq_nil rfl (evaluate_of_checkRanges rfl) hnone hnoticed⟩

/-- The lists that are excepted have no violations if the names of their groups are in order. -/
theorem violations_eq_nil_of_unnoticed (hfirst : options.requiredFirst = true)
    (h : Member.Unnoticed list.members)
    (hnames : list.members.Pairwise fun a b =>
      a.optional = b.optional → compareOptional options.compareNames a.name b.name ≠ .gt) :
    (options.computeEvaluation source list).violations = [] := by
  have hcount := Plan.count_eq_zero_of_unnoticed h hnames
  rw [← hfirst] at hcount
  exact violations_computeEvaluation_iff.mpr hcount

/-- A body with an optional member before a required one, both without a name. -/
def namelessSource : Text := "interface U \x7b [k]?: T; (): T; \x7d".toList

/-- The members of `namelessSource`. -/
def nameless : MemberList where
  kind := .interface
  opening := ⟨12, 13, 0, 0⟩
  closing := ⟨30, 31, 0, 0⟩
  parent := ⟨0, 31, 0, 0⟩
  members :=
    [{ kind := .property, name := none, optional := true
       declaration := ⟨14, 21, 0, 0⟩, terminator := some ⟨21, 22, 0, 0⟩ },
     { kind := .callSignature, name := none, optional := false
       declaration := ⟨23, 28, 0, 0⟩, terminator := some ⟨28, 29, 0, 0⟩ }]
  comments := []
  stringValued := false

/-- Both members of `nameless` change places in the plan, and neither is reported. -/
theorem nameless_optional_first_not_reported :
    ∃ evaluation,
      ({ requiredFirst := true } : SortOptions).evaluate namelessSource nameless = .ok evaluation
        ∧ evaluation.plan.sorted = [1, 0] ∧ evaluation.violations = []
        ∧ ¬ nameless.members.Pairwise fun a b => a.optional = true → b.optional = true := by
  have hplan : ({ requiredFirst := true } : SortOptions).plan nameless.members = ⟨[1, 0]⟩ := by
    have hrequired : Plan.sortPartition ({ requiredFirst := true } : SortOptions).compareNames
        nameless.members [1] = [1] := Plan.sortPartition_eq [] (by decide) (by decide) .nil
    have hoptional : Plan.sortPartition ({ requiredFirst := true } : SortOptions).compareNames
        nameless.members [0] = [0] := Plan.sortPartition_eq [] (by decide) (by decide) .nil
    show Plan.mk (Plan.sortPartition _ _ [1] ++ Plan.sortPartition _ _ [0]) = _
    rw [hrequired, hoptional]
    rfl
  refine ⟨_, evaluate_of_checkRanges rfl, ?_, violations_computeEvaluation_iff.mpr ?_, by decide⟩
  · rw [computeEvaluation, hplan]
  · rw [computeEvaluation, hplan]
    rfl

end SortOptions

end KeyOrder
