import KeyOrder.Proofs.Order.Selection

/-!
# What a list without violations looks like

The evaluation of a list reports no violation and has no new body exactly if the plan of the list is
the identity, as long as members without a name keep their slots. Hence **a sorted list is never
reported again**, and with the same proviso a list that is not reported is sorted.
-/

namespace KeyOrder

open Std

/-- A traversal that succeeds at every element. -/
theorem mapM_eq_pure_map {m : Type → Type} [Monad m] [LawfulMonad m] {α β : Type} {f : α → m β}
    {g : α → β} {l : List α} (h : ∀ a ∈ l, f a = pure (g a)) : l.mapM f = pure (l.map g) := by
  induction l with
  | nil => rfl
  | cons a rest ih =>
      rw [List.forall_mem_cons] at h
      rw [List.mapM_cons, h.1, ih h.2]
      simp

/-! ## Evaluations -/

namespace Plan

variable {plan : Plan} {members : List Member}

/-- A plan that is the identity reports nothing. -/
theorem count_eq_zero_of_isIdentity (h : plan.sorted.Perm (List.range members.length))
    (hidentity : plan.isIdentity = true) : (plan.select members).count = 0 := by
  refine (count_select_eq_zero_iff h).mpr fun slot index hslot hne => ?_
  rw [(isIdentity_iff h).mp hidentity] at hslot
  obtain ⟨hlt, hindex⟩ := List.getElem?_eq_some_iff.mp hslot
  rw [List.getElem_range] at hindex
  exact absurd hindex.symm hne

/-- What is said about the members and how many of them are reported agree. -/
theorem violations_eq_nil_iff (h : plan.sorted.Perm (List.range members.length)) (source : Text) :
    plan.violations members source = [] ↔ (plan.select members).count = 0 := by
  have hlength : members.length = plan.positions.length := (length_positions h).symm
  have hreports : plan.violations members source = [] ↔
      ∀ pair ∈ members.zip plan.positions, plan.reports members pair.2 = false := by
    simp [violations, List.filterMap_eq_nil_iff]
  have hcount : (plan.select members).count = 0 ↔
      ∀ position ∈ plan.positions, plan.reports members position = false := by
    simp [Selection.count, select, List.count_eq_zero]
  rw [hreports, hcount, ← List.forall_mem_map (f := Prod.snd)
    (P := fun position => plan.reports members position = false),
    List.map_snd_zip (Nat.le_of_eq hlength.symm)]

end Plan

namespace SortOptions

variable {options : SortOptions} {source : Text} {list : MemberList}

theorem plan_perm (options : SortOptions) (members : List Member) :
    (options.plan members).sorted.Perm (List.range members.length) :=
  Plan.sorted_ofMembers_perm _ _ _

/-- A list whose ranges fit the source has an evaluation. -/
theorem evaluate_of_checkRanges (h : list.checkRanges source = .ok ()) :
    options.evaluate source list = .ok (options.computeEvaluation source list) := by
  rw [evaluate, h]
  rfl

/-- A list is refused for its ranges only. -/
theorem exists_range_of_checkRanges {error : EvaluationError}
    (h : list.checkRanges source = .error error) :
    ∃ start stop length, error = .rangeOutsideSource start stop length := by
  simp only [MemberList.checkRanges] at h
  split at h
  · cases h
    exact ⟨_, _, _, rfl⟩
  · split at h
    · cases h
      exact ⟨_, _, _, rfl⟩
    · cases h

theorem eq_computeEvaluation {evaluation : Evaluation}
    (h : options.evaluate source list = .ok evaluation) :
    evaluation = options.computeEvaluation source list := by
  unfold evaluate at h
  cases hcheck : list.checkRanges source with
  | error error =>
      rw [hcheck] at h
      cases h
  | ok =>
      rw [hcheck] at h
      cases h
      rfl

/-- **Nothing to report and nothing to rewrite go together.** -/
theorem violations_computeEvaluation_iff :
    (options.computeEvaluation source list).violations = []
      ↔ (options.computeEvaluation source list).selection.count = 0 :=
  Plan.violations_eq_nil_iff (options.plan_perm list.members) source

theorem replacement_computeEvaluation_iff :
    (options.computeEvaluation source list).replacement = none
      ↔ (options.computeEvaluation source list).selection.count = 0 := by
  simp only [computeEvaluation]
  split <;> simp_all

/-! ## Sorted lists stay as they are -/

/-- A body in order, with required members first. -/
def orderedSource : Text := "interface U \x7b a: T; (): T; b: T; x?: T; \x7d".toList

/-- The members of `orderedSource`. -/
def ordered : MemberList where
  kind := .interface
  opening := ⟨12, 13, 0, 0⟩
  closing := ⟨40, 41, 0, 0⟩
  parent := ⟨0, 41, 0, 0⟩
  members :=
    [{ kind := .property, name := some "a", optional := false
       declaration := ⟨14, 18, 0, 0⟩, terminator := some ⟨18, 19, 0, 0⟩ },
     { kind := .callSignature, name := none, optional := false
       declaration := ⟨20, 25, 0, 0⟩, terminator := some ⟨25, 26, 0, 0⟩ },
     { kind := .property, name := some "b", optional := false
       declaration := ⟨27, 31, 0, 0⟩, terminator := some ⟨31, 32, 0, 0⟩ },
     { kind := .property, name := some "x", optional := true
       declaration := ⟨33, 38, 0, 0⟩, terminator := some ⟨38, 39, 0, 0⟩ }]
  comments := []
  stringValued := false

/-- **Sorting is idempotent and what it gives is never reported.** The members in their planned
slots are a permutation of the members; their plan is the identity and flags none of them; and any
list with their names and question marks in that order, if its ranges fit its source, is evaluated
to no violation and no new body. -/
theorem arranged_lints_clean (options : SortOptions) (members : List Member) :
    let arranged := (options.plan members).arrange members
    arranged.Perm members
      ∧ (options.plan arranged).isIdentity = true
      ∧ (∀ flag ∈ ((options.plan arranged).select arranged).flagged, flag = false)
      ∧ ∀ (source : Text) (list : MemberList),
        list.members.map Member.sortKey = arranged.map Member.sortKey →
        list.checkRanges source = .ok () →
        ∃ evaluation, options.evaluate source list = .ok evaluation
          ∧ evaluation.plan.isIdentity = true ∧ evaluation.selection.count = 0
          ∧ evaluation.violations = [] ∧ evaluation.replacement = none := by
  intro arranged
  have horder : arranged.Pairwise
      (Member.MayPrecede options.compareNames options.requiredFirst) := Plan.pairwise_arrange
  have hidentity : (options.plan arranged).isIdentity = true :=
    Plan.isIdentity_ofMembers_iff.mpr horder
  refine ⟨Plan.arrange_perm (options.plan_perm members), hidentity, ?_, ?_⟩
  · have hcount := Plan.count_eq_zero_of_isIdentity (options.plan_perm arranged) hidentity
    rw [Selection.count, List.count_eq_zero] at hcount
    intro flag hflag
    exact eq_false_of_ne_true fun htrue => hcount (htrue ▸ hflag)
  · intro source list hkeys hcheck
    have hsame : (options.plan list.members).isIdentity = true :=
      Plan.isIdentity_ofMembers_iff.mpr ((Plan.pairwise_mayPrecede_congr hkeys).mpr horder)
    have hcount : (options.computeEvaluation source list).selection.count = 0 :=
      Plan.count_eq_zero_of_isIdentity (options.plan_perm list.members) hsame
    exact ⟨_, evaluate_of_checkRanges hcheck, hsame, hcount,
      violations_computeEvaluation_iff.mpr hcount, replacement_computeEvaluation_iff.mpr hcount⟩

/-- Sorted with required members first, the members of `ordered` in reverse give `ordered`. -/
theorem arrange_reverse_ordered :
    (({ requiredFirst := true } : SortOptions).plan ordered.members.reverse).arrange
      ordered.members.reverse = ordered.members := by
  have hrequired : Plan.sortPartition ({ requiredFirst := true } : SortOptions).compareNames
      ordered.members.reverse [1, 2, 3] = [3, 2, 1] :=
    Plan.sortPartition_eq [3, 1] (by decide) (by decide) (by decide +kernel)
  have hoptional : Plan.sortPartition ({ requiredFirst := true } : SortOptions).compareNames
      ordered.members.reverse [0] = [0] :=
    Plan.sortPartition_eq [0] (by decide) (by decide) (by decide +kernel)
  show (Plan.sortPartition _ _ [1, 2, 3] ++ Plan.sortPartition _ _ [0]).filterMap _ = _
  rw [hrequired, hoptional]
  rfl

theorem arranged_lints_clean_ordered :
    ordered.checkRanges orderedSource = .ok ()
      ∧ ∃ evaluation,
        ({ requiredFirst := true } : SortOptions).evaluate orderedSource ordered = .ok evaluation
          ∧ evaluation.violations = [] ∧ evaluation.replacement = none := by
  obtain ⟨evaluation, heval, -, -, hviolations, hreplacement⟩ :=
    (arranged_lints_clean { requiredFirst := true } ordered.members.reverse).2.2.2
      orderedSource ordered (by rw [arrange_reverse_ordered]) rfl
  exact ⟨rfl, evaluation, heval, hviolations, hreplacement⟩

/-! ## Unsorted lists are noticed -/

/-- **The plan of a list in which nothing is reported is the identity**, and the other way round, as
long as members without a name keep their slots; they do unless required members come first. -/
theorem count_eq_zero_iff_isIdentity (options : SortOptions) (members : List Member) :
    (options.requiredFirst = false → (options.plan members).KeepsUnnamed members)
      ∧ ((options.plan members).KeepsUnnamed members →
        (((options.plan members).select members).count = 0
          ↔ (options.plan members).isIdentity = true)
        ∧ ∀ (source : Text) (list : MemberList),
          list.members = members → list.checkRanges source = .ok () →
          ∃ evaluation, options.evaluate source list = .ok evaluation
            ∧ (evaluation.selection.count = 0 ↔ (options.plan members).isIdentity = true)
            ∧ (evaluation.replacement = none ↔ (options.plan members).isIdentity = true)) := by
  refine ⟨fun hfirst index hindex hname => ?_, fun hkeeps => ?_⟩
  · exact Plan.finalOf_of_unnamed hindex hname (by simp [hfirst]) (by simp [hfirst])
  have hiff : ((options.plan members).select members).count = 0
      ↔ (options.plan members).isIdentity = true :=
    ⟨Plan.isIdentity_of_count_eq_zero (options.plan_perm members) hkeeps,
      Plan.count_eq_zero_of_isIdentity (options.plan_perm members)⟩
  refine ⟨hiff, ?_⟩
  rintro source list rfl hcheck
  exact ⟨_, evaluate_of_checkRanges hcheck, hiff, replacement_computeEvaluation_iff.trans hiff⟩

/-- In descending order `ordered` is not sorted, and the member without a name does not hide it. -/
theorem count_eq_zero_iff_isIdentity_ordered :
    (({ direction := .descending } : SortOptions).plan ordered.members).isIdentity = false
      ∧ ∃ evaluation,
        ({ direction := .descending } : SortOptions).evaluate orderedSource ordered
            = .ok evaluation
          ∧ evaluation.selection.count ≠ 0 ∧ evaluation.replacement ≠ none := by
  have hmoved : (({ direction := .descending } : SortOptions).plan ordered.members).isIdentity
      = false := by
    have hsorted : Plan.sortPartition ({ direction := .descending } : SortOptions).compareNames
        ordered.members [0, 1, 2, 3] = [3, 1, 2, 0] :=
      Plan.sortPartition_eq [3, 2, 0] (by decide) (by decide) (by decide +kernel)
    show Plan.isIdentity ⟨Plan.sortPartition _ _ [0, 1, 2, 3]⟩ = false
    rw [hsorted]
    rfl
  obtain ⟨hkeeps, hiff⟩ :=
    count_eq_zero_iff_isIdentity { direction := .descending } ordered.members
  obtain ⟨evaluation, heval, hcount, hreplacement⟩ :=
    (hiff (hkeeps rfl)).2 orderedSource ordered rfl rfl
  rw [hmoved] at hcount hreplacement
  exact ⟨hmoved, evaluation, heval, by simpa using hcount, by simpa using hreplacement⟩

end SortOptions

end KeyOrder
