import KeyOrder.Proofs.Order.Specification

/-!
# One member out of place

Take a list in strict order and move one member from index `p` to index `q`. Every member between
the two places changes its index, and all of them move back when the list is sorted; but **what is
reported does not grow with their number**. A member that only makes room keeps its successor behind
it and is passed over. What remains is the one pair that the move turned round, of which the member
that stands too late is reported, and the last slot: if it changes hands, the member that goes back
into it is reported as well, because it has no successor.
-/

namespace KeyOrder

open Std

namespace Plan

variable {members moved : List Member} {member : Member} {p q n i : Nat}

/-! ## Where the move puts a member -/

/-- The index of the member that stood at `i`, after the member at `p` has been moved to `q`. -/
def place (p q i : Nat) : Nat :=
  if i = p then q
  else if p < i ∧ i ≤ q then i - 1
  else if q ≤ i ∧ i < p then i + 1
  else i

@[simp] theorem place_self (p q : Nat) : place p q p = q := if_pos rfl

theorem place_down (hlt : p < i) (hle : i ≤ q) : place p q i = i - 1 := by
  rw [place, if_neg (by omega), if_pos ⟨hlt, hle⟩]

theorem place_up (hle : q ≤ i) (hlt : i < p) : place p q i = i + 1 := by
  rw [place, if_neg (by omega), if_neg (by omega), if_pos ⟨hle, hlt⟩]

theorem place_outside (h : i < p ∧ i < q ∨ p < i ∧ q < i) : place p q i = i := by
  rw [place, if_neg (by omega), if_neg (by omega), if_neg (by omega)]

theorem place_lt (hp : p < n) (hq : q < n) (hi : i < n) : place p q i < n := by
  unfold place
  split_ifs <;> omega

/-- Moving the member back undoes the move. -/
@[simp] theorem place_place (p q i : Nat) : place q p (place p q i) = i := by
  unfold place
  split_ifs <;> omega

/-- **A member is found again in its place.** -/
theorem getElem?_move {α : Type} {list : List α} {a : α} (ha : list[p]? = some a)
    (hq : q < list.length) :
    ((list.eraseIdx p).insertIdx q a)[place p q i]? = list[i]? := by
  obtain ⟨hp, -⟩ := List.getElem?_eq_some_iff.mp ha
  have hlength : (list.eraseIdx p).length = list.length - 1 := List.length_eraseIdx_of_lt hp
  rcases Nat.lt_trichotomy i p with hlt | rfl | hgt
  · by_cases hiq : i < q
    · rw [place_outside (.inl ⟨hlt, hiq⟩), List.getElem?_insertIdx_of_lt hiq,
        List.getElem?_eraseIdx_of_lt hlt]
    · rw [place_up (by omega) hlt, List.getElem?_insertIdx_of_gt (by omega), Nat.add_sub_cancel,
        List.getElem?_eraseIdx_of_lt hlt]
  · rw [place_self, List.getElem?_insertIdx_self, if_pos (by omega), ha]
  · by_cases hiq : i ≤ q
    · rw [place_down hgt hiq, List.getElem?_insertIdx_of_lt (by omega),
        List.getElem?_eraseIdx_of_ge (by omega), Nat.sub_add_cancel (by omega)]
    · rw [place_outside (.inr ⟨hgt, by omega⟩), List.getElem?_insertIdx_of_gt (by omega),
        List.getElem?_eraseIdx_of_ge (by omega), Nat.sub_add_cancel (by omega)]

theorem length_move {α : Type} {list : List α} {a : α} (ha : list[p]? = some a)
    (hq : q < list.length) : ((list.eraseIdx p).insertIdx q a).length = list.length := by
  obtain ⟨hp, -⟩ := List.getElem?_eq_some_iff.mp ha
  rw [List.length_insertIdx, List.length_eraseIdx_of_lt hp, if_pos (by omega)]
  omega

/-! ## The plan after the move -/

/-- The indices that are moved about are the same ones. -/
theorem map_place_perm (hp : p < n) (hq : q < n) :
    ((List.range n).map (place p q)).Perm (List.range n) := by
  have hinjective : Function.Injective (place p q) :=
    Function.LeftInverse.injective (place_place p q)
  rw [List.perm_ext_iff_of_nodup (List.nodup_range.map hinjective) List.nodup_range]
  intro i
  simp only [List.mem_map, List.mem_range]
  constructor
  · rintro ⟨j, hj, rfl⟩
    exact place_lt hp hq hj
  · exact fun hi => ⟨place q p i, place_lt hq hp hi, place_place q p i⟩

section Move

variable {compareNames : String → String → Ordering} {requiredFirst : Bool}
  (hmember : members[p]? = some member) (hq : q < members.length)
  (hnamed : ∀ m ∈ members, m.isNamed = true)

include hmember hq hnamed in
theorem namedAt_move (hi : i < members.length) :
    namedAt ((members.eraseIdx p).insertIdx q member) i = true := by
  obtain ⟨hp, -⟩ := List.getElem?_eq_some_iff.mp hmember
  have hback := place_lt hq hp hi
  have hget := getElem?_move (i := place q p i) hmember hq
  rw [place_place, List.getElem?_eq_getElem hback] at hget
  rw [namedAt, nameAt_of_getElem? hget]
  exact hnamed _ (List.getElem_mem hback)

include hmember hq hnamed in
/-- **Sorting moves the member back**: the list sorted again is the list as it was. -/
theorem sorted_move [TransCmp compareNames]
    (hsorted : members.Pairwise fun a b => compareOptional compareNames a.name b.name = .lt)
    (hgroups : requiredFirst = true → ∀ a ∈ members, ∀ b ∈ members, a.optional = b.optional) :
    (ofMembers compareNames requiredFirst ((members.eraseIdx p).insertIdx q member)).sorted
      = (List.range members.length).map (place p q) := by
  obtain ⟨hp, -⟩ := List.getElem?_eq_some_iff.mp hmember
  have hlength := length_move hmember hq
  have hpairs : ((List.range members.length).map (place p q)).Pairwise fun a b =>
      ∃ x ∈ members, ∃ y ∈ members,
        ((members.eraseIdx p).insertIdx q member)[a]? = some x
        ∧ ((members.eraseIdx p).insertIdx q member)[b]? = some y
        ∧ compareOptional compareNames x.name y.name = .lt := by
    refine List.pairwise_map.mpr (List.pairwise_lt_range.imp_of_mem fun {i j} hi hj hij => ?_)
    rw [List.mem_range] at hi hj
    refine ⟨members[i], List.getElem_mem hi, members[j], List.getElem_mem hj, ?_, ?_, ?_⟩
    · rw [getElem?_move hmember hq, List.getElem?_eq_getElem hi]
    · rw [getElem?_move hmember hq, List.getElem?_eq_getElem hj]
    · exact List.pairwise_iff_getElem.mp hsorted i j hi hj hij
  symm
  refine Specified.eq_ofMembers ⟨?_, fun hfirst => ?_, fun part _ => ⟨?_, ?_⟩⟩
  · rw [hlength]
    exact map_place_perm hp hq
  · refine hpairs.imp fun {a b} ⟨x, hx, y, hy, hax, hby, _⟩ hoptional => ?_
    rw [optionalAt_of_getElem? hax] at hoptional
    rw [optionalAt_of_getElem? hby, ← hgroups hfirst x hx y hy, hoptional]
  · intro slot index hslot hname
    have hindex := (List.mem_filter.mp (List.mem_of_getElem? hslot)).1
    rw [hlength, List.mem_range] at hindex
    simp [namedAt_move hmember hq hnamed hindex] at hname
  · refine (hpairs.sublist ((List.filter_sublist).trans List.filter_sublist)).imp
      fun {a b} ⟨x, _, y, _, hax, hby, hlt⟩ => ?_
    rw [nameAt_of_getElem? hax, nameAt_of_getElem? hby, hlt]
    exact ⟨nofun, nofun⟩

end Move

/-! ## What is reported -/

/-- Whether the member at `i` is reported after the move: it moves back, and no member that stands
behind it follows it in the sorted list. -/
def Disturbed (n p q i : Nat) : Prop :=
  place q p i ≠ i ∧ (place q p i + 1 < n → place p q (place q p i + 1) < i)

/-- After a move towards the end the moved member is reported. Those in front of it only made room;
the one right in front of it goes back into the last slot if the moved member stands there. -/
theorem disturbed_iff_of_lt (hpq : p < q) (hq : q < n) :
    Disturbed n p q i ↔ i = q ∨ (q = n - 1 ∧ i = q - 1) := by
  unfold Disturbed
  rcases Nat.lt_trichotomy i q with hlt | rfl | hgt
  · by_cases hi : p ≤ i
    · have hback : place q p i = i + 1 := place_up hi hlt
      rw [hback]
      by_cases hnext : i + 2 ≤ q
      · have hfollow : place p q (i + 1 + 1) = i + 1 := place_down (by omega) hnext
        rw [hfollow]
        omega
      · have hfollow : place p q (i + 1 + 1) = i + 1 + 1 := place_outside (by omega)
        rw [hfollow]
        omega
    · have hback : place q p i = i := place_outside (by omega)
      rw [hback]
      omega
  · have hfollow : place p i (p + 1) = p := place_down (Nat.lt_succ_self p) hpq
    rw [place_self, hfollow]
    omega
  · have hback : place q p i = i := place_outside (by omega)
    rw [hback]
    omega

/-- After a move towards the beginning the member that stood in front of the moved one is reported.
Those between only made room; the moved member is reported as well if it goes back into the last
slot. -/
theorem disturbed_iff_of_gt (hqp : q < p) (hp : p < n) :
    Disturbed n p q i ↔ i = p ∨ (p = n - 1 ∧ i = q) := by
  unfold Disturbed
  rcases Nat.lt_trichotomy i q with hlt | rfl | hgt
  · have hback : place q p i = i := place_outside (by omega)
    rw [hback]
    omega
  · have hfollow : place p i (p + 1) = p + 1 := place_outside (by omega)
    rw [place_self, hfollow]
    omega
  · by_cases hi : i ≤ p
    · have hback : place q p i = i - 1 := place_down hgt hi
      rw [hback, Nat.sub_add_cancel (by omega)]
      by_cases hlast : i = p
      · subst hlast
        rw [place_self]
        omega
      · have hfollow : place p q i = i + 1 := place_up (by omega) (by omega)
        rw [hfollow]
        omega
    · have hback : place q p i = i := place_outside (by omega)
      rw [hback]
      omega

/-- The members that are reported are counted index by index. -/
theorem count_select_eq_countP {plan : Plan} (h : plan.sorted.Perm (List.range n))
    (members : List Member) :
    (plan.select members).count = (List.range n).countP fun index =>
      plan.reports members ⟨index, plan.finalOf index⟩ := by
  simp only [Selection.count, select, positions_eq h, List.count, List.countP_map, List.map_map]
  exact List.countP_congr fun index _ => by simp [Function.comp_def]

theorem countP_range_eq_length {test : Nat → Bool} {list : List Nat} (hnodup : list.Nodup)
    (hmem : ∀ index, index ∈ list ↔ index < n ∧ test index = true) :
    (List.range n).countP test = list.length := by
  rw [List.countP_eq_length_filter]
  refine List.Perm.length_eq ?_
  rw [List.perm_ext_iff_of_nodup (List.nodup_range.filter _) hnodup]
  intro index
  rw [hmem, List.mem_filter, List.mem_range]

section Reports

variable {plan : Plan} (hp : p < n) (hq : q < n)
  (hplan : plan.sorted = (List.range n).map (place p q))

include hp hq hplan

theorem finalOf_of_sorted_eq (hi : i < n) : plan.finalOf i = place q p i := by
  rw [finalOf_eq_iff (hplan ▸ map_place_perm hp hq) hi, hplan, List.getElem?_map,
    List.getElem?_range (place_lt hq hp hi), Option.map_some, place_place]

theorem reports_iff_disturbed (hi : i < n) (hname : namedAt moved i = true) :
    plan.reports moved ⟨i, plan.finalOf i⟩ = true ↔ Disturbed n p q i := by
  rw [finalOf_of_sorted_eq hp hq hplan hi, reports, Disturbed]
  by_cases hback : i = place q p i
  · simp [← hback]
  · have hmoves : (i == place q p i || !namedAt moved i) = false := by simp [hback, hname]
    rw [hmoves, nextSorted, hplan, List.getElem?_map]
    by_cases hlt : place q p i + 1 < n
    · rw [List.getElem?_range hlt]
      simp [hlt, Ne.symm hback]
    · simp [hlt, Ne.symm hback]

/-- **One member is reported, or two if the last slot changes hands.** -/
theorem count_select_of_sorted_eq (hne : p ≠ q)
    (hnamed : ∀ i < n, namedAt moved i = true) :
    (plan.select moved).count = if p = n - 1 ∨ q = n - 1 then 2 else 1 := by
  rw [count_select_eq_countP (hplan ▸ map_place_perm hp hq)]
  have hcount : ∀ list : List Nat, list.Nodup → (∀ i, i ∈ list ↔ i < n ∧ Disturbed n p q i) →
      (List.range n).countP (fun i => plan.reports moved ⟨i, plan.finalOf i⟩) = list.length := by
    intro list hnodup hmem
    refine countP_range_eq_length hnodup fun i => ?_
    rw [hmem]
    exact and_congr_right fun hi => (reports_iff_disturbed hp hq hplan hi (hnamed i hi)).symm
  rcases Nat.lt_or_gt_of_ne hne with hpq | hqp
  · simp only [disturbed_iff_of_lt hpq hq] at hcount
    by_cases hlast : q = n - 1
    · rw [if_pos (.inr hlast)]
      exact hcount [q, q - 1] (by simp; omega) fun i => by simp; omega
    · rw [if_neg (by omega)]
      exact hcount [q] (by simp) fun i => by simp; omega
  · simp only [disturbed_iff_of_gt hqp hp] at hcount
    by_cases hlast : p = n - 1
    · rw [if_pos (.inl hlast)]
      exact hcount [p, q] (by simp; omega) fun i => by simp; omega
    · rw [if_neg (by omega)]
      exact hcount [p] (by simp) fun i => by simp; omega

end Reports

end Plan

/-- **Moving one member never cascades.** In a list of named members in strict order, with required
members not first or all of them equally optional, let the member at `p` be taken out and put back
so that it stands at `q`. However many members changed their index by this, one member is reported;
or two, if the member was taken from the end of the list or put there. -/
theorem SortOptions.count_select_move (options : SortOptions) {members : List Member}
    {member : Member} {p q : Nat} (hnamed : ∀ m ∈ members, m.isNamed = true)
    (hsorted : members.Pairwise fun a b => options.compare a.name b.name = .lt)
    (hgroups : options.requiredFirst = true →
      ∀ a ∈ members, ∀ b ∈ members, a.optional = b.optional)
    (hmember : members[p]? = some member) (hq : q < members.length) (hne : p ≠ q) :
    let moved := (members.eraseIdx p).insertIdx q member
    ((options.plan moved).select moved).count
      = if p = members.length - 1 ∨ q = members.length - 1 then 2 else 1 := by
  intro moved
  obtain ⟨hp, -⟩ := List.getElem?_eq_some_iff.mp hmember
  exact Plan.count_select_of_sorted_eq hp hq
    (Plan.sorted_move hmember hq hnamed hsorted hgroups) hne
    fun i hi => Plan.namedAt_move hmember hq hnamed hi

namespace SortOptions

/-- An optional member with a name. -/
def rung (name : String) : Member where
  kind := .property
  name := some name
  optional := true
  declaration := default
  terminator := none

/-- Optional members in order. -/
def ladder : List Member := [rung "a", rung "b", rung "c", rung "d"]

/-- The first of four members, moved to the third place and to the last one. -/
theorem count_select_move_ladder :
    (∀ m ∈ ladder, m.isNamed = true)
      ∧ (ladder.Pairwise fun a b =>
        ({ requiredFirst := true } : SortOptions).compare a.name b.name = .lt)
      ∧ (∀ a ∈ ladder, ∀ b ∈ ladder, a.optional = b.optional)
      ∧ (({ requiredFirst := true } : SortOptions).plan
          [rung "b", rung "c", rung "a", rung "d"] |>.select
          [rung "b", rung "c", rung "a", rung "d"]).count = 1
      ∧ (({ requiredFirst := true } : SortOptions).plan
          [rung "b", rung "c", rung "d", rung "a"] |>.select
          [rung "b", rung "c", rung "d", rung "a"]).count = 2 := by
  have hnamed : ∀ m ∈ ladder, m.isNamed = true := by decide
  have hsorted : ladder.Pairwise fun a b =>
      ({ requiredFirst := true } : SortOptions).compare a.name b.name = .lt := by decide +kernel
  have hgroups : ∀ a ∈ ladder, ∀ b ∈ ladder, a.optional = b.optional := by decide
  have hcount := fun q => @count_select_move { requiredFirst := true } ladder (rung "a") 0 q
    hnamed hsorted (fun _ => hgroups) rfl
  exact ⟨hnamed, hsorted, hgroups, hcount 2 (by decide) (by decide),
    hcount 3 (by decide) (by decide)⟩

end SortOptions

end KeyOrder
