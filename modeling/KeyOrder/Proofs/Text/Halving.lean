import KeyOrder.Text.Partition

/-!
# Halving

In a sequence in which everything that passes a test stands in front of everything that fails it,
halving finds the place between the two: **every element in front of it passes and none from it on
does**. So it counts the elements that pass, and dropping as many leaves those that fail.
-/

namespace KeyOrder

variable {α : Type} {test : α → Bool} {items : Array α} {base size : Nat}

/-- No element from the found point on passes the test, if none behind a failing one does. -/
theorem partitionBase_spec
    (hmono : ∀ i j : Nat, i ≤ j → items[i]?.any test = false → items[j]?.any test = false)
    (hbehind : ∀ i : Nat, base + size ≤ i → items[i]?.any test = false) :
    ∀ i : Nat, partitionBase test items base size < i → items[i]?.any test = false := by
  fun_induction partitionBase test items base size with
  | case1 base size hsize half middle htest ih => exact ih fun i hi => hbehind i (by omega)
  | case2 base size hsize half middle htest ih =>
      exact ih fun i hi => hmono middle i (by omega) (by simpa using htest)
  | case3 base size hsize => exact fun i hi => hbehind i (by omega)

/-- Every element in front of the found point passes the test. -/
theorem partitionBase_passes
    (hmono : ∀ i j : Nat, i ≤ j → items[i]?.any test = false → items[j]?.any test = false)
    (hbefore : ∀ i < base, items[i]?.any test = true) :
    ∀ i < partitionBase test items base size, items[i]?.any test = true := by
  fun_induction partitionBase test items base size with
  | case1 base size hsize half middle htest ih =>
      refine ih fun i hi => eq_true_of_ne_false fun hfails => ?_
      have hmiddle := hmono i middle (by omega) hfails
      simp [htest] at hmiddle
  | case2 base size hsize half middle htest ih => exact ih hbefore
  | case3 base size hsize => exact hbefore

theorem partitionPoint_spec
    (hmono : ∀ i j : Nat, i ≤ j → items[i]?.any test = false → items[j]?.any test = false)
    {i : Nat} (hi : partitionPoint test items ≤ i) : items[i]?.any test = false := by
  have hout : ∀ i : Nat, items.size ≤ i → items[i]?.any test = false := by
    intro i hi
    rw [Array.getElem?_eq_none hi]
    rfl
  have hbase : ∀ i : Nat, partitionBase test items 0 items.size < i →
      items[i]?.any test = false :=
    partitionBase_spec hmono fun i hi => hout i (by omega)
  simp only [partitionPoint] at hi
  split at hi
  · exact hout i (by omega)
  · split at hi
    · exact hbase i hi
    · rename_i htest
      rcases Nat.lt_or_eq_of_le hi with hlt | rfl
      · exact hbase i hlt
      · simpa using htest

theorem partitionPoint_passes
    (hmono : ∀ i j : Nat, i ≤ j → items[i]?.any test = false → items[j]?.any test = false)
    {i : Nat} (hi : i < partitionPoint test items) : items[i]?.any test = true := by
  have hbase : ∀ i < partitionBase test items 0 items.size, items[i]?.any test = true :=
    partitionBase_passes hmono (by simp)
  simp only [partitionPoint] at hi
  split at hi
  · omega
  · split at hi
    · rename_i htest
      rcases Nat.lt_or_eq_of_le (Nat.le_of_lt_succ hi) with hlt | rfl
      · exact hbase i hlt
      · exact htest
    · exact hbase i hi

section Lists

variable {l : List α} (h : l.Pairwise fun a b => test b = true → test a = true)
include h

/-- In a list whose passing elements stand in front, nothing behind a failing one passes. -/
theorem fails_of_le_of_fails {i j : Nat} (hij : i ≤ j) (hfails : l.toArray[i]?.any test = false) :
    l.toArray[j]?.any test = false := by
  simp only [List.getElem?_toArray] at hfails ⊢
  cases hj : l[j]? with
  | none => rfl
  | some b =>
      obtain ⟨hlt, rfl⟩ := List.getElem?_eq_some_iff.mp hj
      rw [List.getElem?_eq_getElem (by omega)] at hfails
      rcases Nat.lt_or_eq_of_le hij with hless | rfl
      · have hpair := List.pairwise_iff_getElem.mp h i j (by omega) hlt hless
        exact eq_false_of_ne_true fun hb => by simp [hpair hb] at hfails
      · exact hfails

/-- **What halving drops from a list are the elements that pass the test**, if they stand in
front. -/
theorem drop_partitionPoint :
    l.drop (partitionPoint test l.toArray) = l.filter fun a => !test a := by
  have hmono : ∀ i j : Nat, i ≤ j → l.toArray[i]?.any test = false →
      l.toArray[j]?.any test = false := fun _ _ => fails_of_le_of_fails h
  have htake : (l.take (partitionPoint test l.toArray)).filter (fun a => !test a) = [] := by
    refine List.filter_eq_nil_iff.mpr fun a ha => ?_
    obtain ⟨i, hi, rfl⟩ := List.mem_take_iff_getElem.mp ha
    have hpasses := partitionPoint_passes hmono (i := i) (by omega)
    rw [List.getElem?_toArray, List.getElem?_eq_getElem (by omega)] at hpasses
    simpa using hpasses
  have hdrop : (l.drop (partitionPoint test l.toArray)).filter (fun a => !test a) =
      l.drop (partitionPoint test l.toArray) := by
    refine List.filter_eq_self.mpr fun a ha => ?_
    obtain ⟨i, hi⟩ := List.mem_iff_getElem?.mp ha
    rw [List.getElem?_drop] at hi
    have hfails := partitionPoint_spec hmono (Nat.le_add_right _ i)
    rw [List.getElem?_toArray, hi] at hfails
    simpa using hfails
  calc l.drop (partitionPoint test l.toArray)
      = (l.take (partitionPoint test l.toArray) ++ l.drop (partitionPoint test l.toArray)).filter
          fun a => !test a := by rw [List.filter_append, htake, hdrop, List.nil_append]
    _ = l.filter fun a => !test a := by rw [List.take_append_drop]

/-- **Halving counts the elements that pass the test**, if they stand in front. -/
theorem partitionPoint_eq_countP : partitionPoint test l.toArray = l.countP test := by
  have hle : partitionPoint test l.toArray ≤ l.length := by
    refine Nat.le_of_not_lt fun hlt => ?_
    have hpasses := partitionPoint_passes (fun _ _ => fails_of_le_of_fails h) hlt
    simp at hpasses
  have hdropped : l.length - partitionPoint test l.toArray = l.countP fun a => !test a := by
    rw [← List.length_drop, drop_partitionPoint h, List.countP_eq_length_filter]
  have hall : l.length = l.countP test + l.countP fun a => !test a := by
    rw [List.length_eq_countP_add_countP test]
    simp
  omega

end Lists

end KeyOrder
