import Mathlib.Data.List.Basic

/-!
# Sorting keeps ties in order

Members of one name keep their order when they are sorted, and so do edits with one start. Both rely
on one fact about sorting: **two elements that tie stand in the sorted list as they do in the list
itself**. Elements that all tie with each other are in order as they stand, so sorting, which keeps
every part of a list that is in order, keeps them. Moving the elements that pass a test behind the
others keeps ties in the same way, and what is needed of it comes first.
-/

namespace KeyOrder

open List

variable {α : Type}

/-! ## Splitting by a test -/

/-- A list whose elements that pass a test all come last. -/
theorem filter_not_append_filter {p : α → Bool} {l : List α}
    (h : l.Pairwise fun a b => p a = true → p b = true) :
    l.filter (fun a => !p a) ++ l.filter p = l := by
  induction l with
  | nil => rfl
  | cons a rest ih =>
      rw [List.pairwise_cons] at h
      by_cases ha : p a = true
      · have hall : ∀ b ∈ rest, p b = true := fun b hb => h.1 b hb ha
        have hnone : rest.filter (fun a => !p a) = [] :=
          List.filter_eq_nil_iff.mpr fun b hb => by simp [hall b hb]
        simp [ha, hnone, List.filter_eq_self.mpr hall]
      · simp [ha, ih h.2]

/-- An element of a list keeps its place when the elements that pass a test are moved behind the
others, if all elements in front of it fail the test like it, or all behind it pass it like it. -/
theorem getElem?_filter_not_append_filter {p : α → Bool} {l : List α} {k : Nat} {a : α}
    (hk : l[k]? = some a) (hbefore : p a = false → ∀ b ∈ l.take k, p b = false)
    (hbehind : p a = true → ∀ b ∈ l.drop k, p b = true) :
    (l.filter (fun b => !p b) ++ l.filter p)[k]? = some a := by
  obtain ⟨hlt, hget⟩ := List.getElem?_eq_some_iff.mp hk
  have htake : (l.take k).length = k := by rw [List.length_take]; omega
  have hdrop : l.drop k = a :: l.drop (k + 1) := by rw [List.drop_eq_getElem_cons hlt, hget]
  have hsplit : ∀ q : α → Bool, l.filter q = (l.take k).filter q ++ (l.drop k).filter q := by
    intro q
    rw [← List.filter_append, List.take_append_drop]
  cases ha : p a with
  | false =>
      have hall : (l.take k).filter (fun b => !p b) = l.take k :=
        List.filter_eq_self.mpr fun b hb => by simp [hbefore ha b hb]
      rw [hsplit fun b => !p b, hall, hdrop, List.append_assoc,
        List.getElem?_append_right (Nat.le_of_eq htake), htake]
      simp [ha]
  | true =>
      have hnone : (l.drop k).filter (fun b => !p b) = [] :=
        List.filter_eq_nil_iff.mpr fun b hb => by simp [hbehind ha b hb]
      have hall : (l.drop k).filter p = l.drop k := List.filter_eq_self.mpr (hbehind ha)
      have hlength : ((l.take k).filter (fun b => !p b) ++ (l.take k).filter p).length = k := by
        rw [(List.perm_append_comm.trans (List.filter_append_perm _ _)).length_eq, htake]
      rw [hsplit fun b => !p b, hsplit p, hnone, hall, List.append_nil, ← List.append_assoc,
        List.getElem?_append_right (Nat.le_of_eq hlength), hlength, hdrop]
      simp

/-! ## Sorting -/

variable {le : α → α → Bool}
  (trans : ∀ a b c : α, le a b = true → le b c = true → le a c = true)
  (total : ∀ a b : α, (le a b || le b a) = true)

include trans total

/-- Elements that tie with each other keep their order. -/
theorem filter_mergeSort_of_tie {p : α → Bool} (l : List α)
    (htie : ∀ a b, p a = true → p b = true → le a b = true) :
    (l.mergeSort le).filter p = l.filter p := by
  have hties : (l.filter p).Pairwise fun a b => le a b = true :=
    List.pairwise_of_forall_mem_list fun a ha b hb =>
      htie a b (List.mem_filter.mp ha).2 (List.mem_filter.mp hb).2
  have hsub := (List.sublist_mergeSort trans total hties List.filter_sublist).filter p
  rw [List.filter_filter, List.filter_congr fun _ _ => Bool.and_self _] at hsub
  exact (hsub.eq_of_length ((List.mergeSort_perm _ _).filter _).length_eq.symm).symm

/-- **A sorted list is in order, and two of its elements that tie stand in the list as they do in
the sorted one.** -/
theorem pairwise_mergeSort_stable (l : List α) :
    (l.mergeSort le).Pairwise fun a b =>
      le a b = true ∧ (le b a = true → [a, b] <+ l) := by
  rw [List.pairwise_iff_forall_sublist]
  intro a b hsub
  have hle := List.pairwise_iff_forall_sublist.mp (List.pairwise_mergeSort trans total l) hsub
  refine ⟨hle, fun hge => ?_⟩
  have haa : le a a = true := by simpa using total a a
  have hties := hsub.filter fun y => le a y && le y a
  rw [filter_mergeSort_of_tie trans total l] at hties
  · simp only [List.filter_cons, haa, hle, hge, Bool.and_self, if_true, List.filter_nil] at hties
    exact hties.trans List.filter_sublist
  · intro x y hx hy
    rw [Bool.and_eq_true] at hx hy
    exact trans x a y hx.2 hy.1

end KeyOrder
