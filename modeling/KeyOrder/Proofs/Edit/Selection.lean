import KeyOrder.Edit

/-!
# The edits that are applied together

Edits are looked at in the order in which they start, the longest first, and one is kept unless it
changes nothing or overlaps one kept before. What holds of the edits kept so far
(`Edit.Selected`) is kept by every step: **the edits kept do not overlap, and every edit that is
left out, if it changes anything, overlaps one kept before it**.
-/

namespace KeyOrder

namespace Edit

/-- The order in which edits are looked at: by their start, and the longest first. -/
def Precedes (a b : Edit) : Prop :=
  a.start < b.start ∨ (a.start = b.start ∧ b.stop ≤ a.stop)

/-- The test by which edits are put into that order. -/
def comesFirst (a b : Edit) : Bool :=
  a.start < b.start || (a.start = b.start && b.stop ≤ a.stop)

theorem comesFirst_iff {a b : Edit} : a.comesFirst b = true ↔ a.Precedes b := by
  simp [comesFirst, Precedes]

theorem comesFirst_trans (a b c : Edit) (hab : a.comesFirst b = true)
    (hbc : b.comesFirst c = true) : a.comesFirst c = true := by
  rw [comesFirst_iff, Precedes] at hab hbc ⊢
  omega

theorem comesFirst_total (a b : Edit) : (a.comesFirst b || b.comesFirst a) = true := by
  rw [Bool.or_eq_true, comesFirst_iff, comesFirst_iff, Precedes, Precedes]
  omega

theorem overlaps_iff {a b : Edit} :
    a.overlaps b = true ↔ a.start < b.stop ∧ b.start < a.stop := by
  simp [overlaps]

/-- What is known when the edits `seen` have been looked at and `kept` are those kept of them. -/
structure Selected (source : Text) (seen kept : List Edit) : Prop where
  sublist : kept.Sublist seen
  changes : ∀ edit ∈ kept, edit.isNoop source = false
  apart : kept.Pairwise fun a b => a.overlaps b = false
  covered : ∀ edit ∈ seen, edit.isNoop source = false →
    edit ∈ kept ∨ ∃ other ∈ kept, other.Precedes edit ∧ other.overlaps edit = true

variable {source : Text} {seen kept edits : List Edit} {edit : Edit}

/-- What one step does: it leaves the edit out for a reason, or keeps it. -/
theorem keepEdit_cases (source : Text) (kept : List Edit) (edit : Edit) :
    (keepEdit source kept edit = kept
      ∧ (edit.isNoop source = true ∨ edit ∈ kept
        ∨ ∃ other ∈ kept, other.overlaps edit = true))
    ∨ (keepEdit source kept edit = kept ++ [edit] ∧ edit.isNoop source = false
      ∧ ∀ other ∈ kept, other.overlaps edit = false) := by
  unfold keepEdit
  split
  · rename_i h
    refine .inl ⟨rfl, ?_⟩
    rcases Bool.or_eq_true_iff.mp h with hnoop | hany
    · exact .inl hnoop
    · obtain ⟨other, hother, hor⟩ := List.any_eq_true.mp hany
      rcases Bool.or_eq_true_iff.mp hor with hoverlaps | heq
      · exact .inr (.inr ⟨other, hother, hoverlaps⟩)
      · exact .inr (.inl (of_decide_eq_true heq ▸ hother))
  · rename_i h
    simp only [Bool.or_eq_true, not_or, Bool.not_eq_true, List.any_eq_false] at h
    exact .inr ⟨rfl, h.1, fun other hother => by simpa using (h.2 other hother).1⟩

/-- **One step keeps what is known.** -/
theorem Selected.step (h : Selected source seen kept)
    (hprecedes : ∀ other ∈ seen, other.Precedes edit) :
    Selected source (seen ++ [edit]) (keepEdit source kept edit) := by
  have hseen : ∀ old ∈ seen ++ [edit], old ∈ seen ∨ old = edit := by simp
  rcases keepEdit_cases source kept edit with ⟨hkeep, hreason⟩ | ⟨hkeep, hchanges, hapart⟩
  · rw [hkeep]
    refine ⟨h.sublist.trans (List.sublist_append_left _ _), h.changes, h.apart, ?_⟩
    intro old hold hnoop
    rcases hseen old hold with hold | rfl
    · exact h.covered old hold hnoop
    · rcases hreason with hnoop' | hmem | ⟨other, hother, hoverlaps⟩
      · simp [hnoop] at hnoop'
      · exact .inl hmem
      · exact .inr ⟨other, hother, hprecedes other (h.sublist.subset hother), hoverlaps⟩
  · rw [hkeep]
    refine ⟨h.sublist.append (List.Sublist.refl _), ?_, ?_, ?_⟩
    · intro old hold
      rcases List.mem_append.mp hold with hold | hold
      · exact h.changes old hold
      · obtain rfl := List.mem_singleton.mp hold
        exact hchanges
    · refine List.pairwise_append.mpr ⟨h.apart, List.pairwise_singleton _ _, ?_⟩
      intro other hother old hold
      obtain rfl := List.mem_singleton.mp hold
      exact hapart other hother
    · intro old hold hnoop
      rcases hseen old hold with hold | rfl
      · rcases h.covered old hold hnoop with hkept | ⟨other, hother, hcovers⟩
        · exact .inl (List.mem_append_left _ hkept)
        · exact .inr ⟨other, List.mem_append_left _ hother, hcovers⟩
      · exact .inl (List.mem_append_right _ (List.mem_singleton.mpr rfl))

/-- What is known when all edits have been looked at. -/
theorem Selected.run (h : Selected source seen kept) (hsorted : (seen ++ edits).Pairwise Precedes) :
    Selected source (seen ++ edits) (edits.foldl (keepEdit source) kept) := by
  induction edits generalizing seen kept with
  | nil => simpa using h
  | cons edit rest ih =>
      have hprecedes : ∀ other ∈ seen, other.Precedes edit := fun other hother =>
        (List.pairwise_append.mp hsorted).2.2 other hother edit List.mem_cons_self
      have hassoc : seen ++ edit :: rest = (seen ++ [edit]) ++ rest := by simp
      rw [hassoc] at hsorted ⊢
      exact ih (h.step hprecedes) hsorted

/-- **What is kept of a list of edits**: edits that change something, in order and apart from each
other, such that every other edit that changes something overlaps one of them before it. -/
theorem selectEdits_spec (source : Text) (edits : List Edit) :
    (∀ edit ∈ selectEdits source edits, edit ∈ edits ∧ edit.isNoop source = false)
      ∧ ((selectEdits source edits).Pairwise fun a b => a.Precedes b ∧ a.overlaps b = false)
      ∧ ∀ edit ∈ edits, edit.isNoop source = false → edit ∈ selectEdits source edits
        ∨ ∃ other ∈ selectEdits source edits, other.Precedes edit ∧ other.overlaps edit = true := by
  have hsorted : (edits.mergeSort comesFirst).Pairwise Precedes :=
    (List.pairwise_mergeSort comesFirst_trans comesFirst_total edits).imp comesFirst_iff.mp
  have hempty : Selected source [] [] := ⟨.slnil, by simp, .nil, by simp⟩
  have hselected := hempty.run hsorted
  refine ⟨fun edit hedit => ⟨?_, hselected.changes edit hedit⟩, ?_, fun edit hedit hnoop => ?_⟩
  · exact List.mem_mergeSort.mp (hselected.sublist.subset hedit)
  · exact (hsorted.sublist hselected.sublist).and hselected.apart
  · exact hselected.covered edit (List.mem_mergeSort.mpr hedit) hnoop

/-- Edits in order that do not overlap lie one behind the other, if each has something to
replace. -/
theorem pairwise_behind (h : edits.Pairwise fun a b => a.Precedes b ∧ a.overlaps b = false)
    (hnonempty : ∀ edit ∈ edits, edit.start < edit.stop) :
    edits.Pairwise fun a b => a.stop ≤ b.start := by
  refine h.imp_of_mem fun {a b} ha hb hab => ?_
  have hapart := (not_congr overlaps_iff).mp (ne_true_of_eq_false hab.2)
  have hfirst : a.start < b.start ∨ (a.start = b.start ∧ b.stop ≤ a.stop) := hab.1
  have := hnonempty a ha
  have := hnonempty b hb
  omega

/-- Nothing is kept only of edits that change nothing. -/
theorem isNoop_of_selectEdits_eq_nil (h : selectEdits source edits = []) :
    ∀ edit ∈ edits, edit.isNoop source = true := by
  intro edit hedit
  refine eq_true_of_ne_false fun hchanges => ?_
  rcases (selectEdits_spec source edits).2.2 edit hedit hchanges with hkept | ⟨other, hother, -⟩
  · simp [h] at hkept
  · simp [h] at hother

end Edit

end KeyOrder
