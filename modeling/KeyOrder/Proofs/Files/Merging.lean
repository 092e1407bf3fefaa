import KeyOrder.Files.Path
import KeyOrder.Proofs.Order.TotalPreorder

/-!
# Merging lists of paths

Paths are ordered by their components, and **two paths are level if and only if their components are
the same**. So in a sorted list equal ones stand together, and dropping those that repeat the one
before leaves every list of components once (`nodup_dedup_sort`), and loses none
(`exists_mem_dedup_sort`).
-/

namespace KeyOrder

open Std

/-! ## The order of components -/

namespace PathComponent

/-- The text of a name. -/
def text : PathComponent → String
  | .name text => text
  | _ => ""

theorem compare_eq_compareLex :
    PathComponent.compare = compareLex (compareOn rank) (compareOn text) := by
  funext a b
  cases a <;> cases b <;> simp [PathComponent.compare, compareLex, compareOn, rank, text]
  all_goals rfl

instance : TransCmp PathComponent.compare := by
  rw [compare_eq_compareLex]
  infer_instance

instance : LawfulEqCmp PathComponent.compare where
  compare_self := ReflCmp.compare_self
  eq_of_compare {a b} h := by
    rw [compare_eq_compareLex, compareLex_eq_eq] at h
    have hrank : a.rank = b.rank := LawfulEqCmp.eq_of_compare h.1
    have htext : a.text = b.text := LawfulEqCmp.eq_of_compare h.2
    cases a <;> cases b <;> simp_all [rank, text]

end PathComponent

namespace Path

theorem compareComponents_eq_compareLex :
    compareComponents = List.compareLex PathComponent.compare := by
  funext a b
  fun_induction compareComponents a b with
  | case1 => rfl
  | case2 => rfl
  | case3 => rfl
  | case4 a as b bs ih => rw [List.compareLex_cons_cons, ih]

instance : TransCmp compareComponents := by
  rw [compareComponents_eq_compareLex]
  infer_instance

instance : LawfulEqCmp compareComponents := by
  rw [compareComponents_eq_compareLex]
  infer_instance

instance : TransCmp Path.compare := transCmp_on components compareComponents

theorem compare_eq_eq_iff {a b : Path} : compare a b = .eq ↔ a.components = b.components := by
  rw [compare, LawfulEqCmp.compare_eq_iff_eq]

theorem compare_bne_gt (a b : Path) : (compare a b != .gt) = (compare a b).isLE := by
  cases compare a b <;> rfl

theorem compare_bne_gt_trans (a b c : Path) (hab : (compare a b != .gt) = true)
    (hbc : (compare b c != .gt) = true) : (compare a c != .gt) = true := by
  rw [compare_bne_gt] at hab hbc ⊢
  exact TransCmp.isLE_trans hab hbc

theorem compare_bne_gt_total (a b : Path) :
    (compare a b != .gt || compare b a != .gt) = true := by
  have hswap : compare b a = (compare a b).swap := OrientedCmp.eq_swap
  rw [hswap]
  cases compare a b <;> rfl

theorem pairwise_sort (paths : List Path) :
    (sort paths).Pairwise fun a b => compare a b ≠ .gt := by
  refine (List.pairwise_mergeSort compare_bne_gt_trans compare_bne_gt_total paths).imp ?_
  intro a b hle
  simpa using hle

theorem sort_of_pairwise {paths : List Path} (h : paths.Pairwise fun a b => compare a b ≠ .gt) :
    sort paths = paths :=
  List.mergeSort_of_pairwise (h.imp fun hle => by simpa using hle)

/-! ## Dropping repeated paths -/

/-- The first path stays. -/
theorem exists_dedup_cons (path : Path) (rest : List Path) :
    ∃ others, dedup (path :: rest) = path :: others := by
  cases rest with
  | nil => exact ⟨[], rfl⟩
  | cons next rest =>
      rw [dedup]
      split
      · exact ⟨[], rfl⟩
      · split
        · exact ⟨_, rfl⟩
        · exact ⟨_, rfl⟩

theorem dedup_cons_cons (path next : Path) (rest : List Path) :
    dedup (path :: next :: rest) =
      if path.components = next.components then path :: (dedup (next :: rest)).tail
      else path :: dedup (next :: rest) := by
  obtain ⟨others, hothers⟩ := exists_dedup_cons next rest
  simp only [dedup, hothers, List.tail_cons]

theorem dedup_sublist (paths : List Path) : (dedup paths).Sublist paths := by
  induction paths with
  | nil => exact List.Sublist.slnil
  | cons path rest ih =>
      cases rest with
      | nil => exact List.Sublist.refl _
      | cons next rest =>
          rw [dedup_cons_cons]
          split
          · exact ((List.tail_sublist _).trans ih).cons_cons path
          · exact ih.cons_cons path

/-- No list of components is lost. -/
theorem exists_mem_dedup {paths : List Path} {path : Path} (h : path ∈ paths) :
    ∃ kept ∈ dedup paths, kept.components = path.components := by
  induction paths with
  | nil => cases h
  | cons first rest ih =>
      cases rest with
      | nil => exact ⟨path, h, rfl⟩
      | cons next rest =>
          obtain ⟨others, hothers⟩ := exists_dedup_cons next rest
          rw [dedup_cons_cons]
          rcases List.mem_cons.mp h with rfl | hrest
          · exact ⟨path, by split <;> exact List.mem_cons_self, rfl⟩
          · obtain ⟨kept, hkept, hcomponents⟩ := ih hrest
            split
            · -- the second is dropped, but the first stands for it
              rename_i hequal
              rw [hothers] at hkept ⊢
              rcases List.mem_cons.mp hkept with rfl | hkept
              · exact ⟨first, List.mem_cons_self, hequal.trans hcomponents⟩
              · exact ⟨kept, List.mem_cons_of_mem _ hkept, hcomponents⟩
            · exact ⟨kept, List.mem_cons_of_mem _ hkept, hcomponents⟩

/-- **Of a sorted list what is left rises strictly.** -/
theorem pairwise_dedup {paths : List Path} (h : paths.Pairwise fun a b => compare a b ≠ .gt) :
    (dedup paths).Pairwise fun a b => compare a b = .lt := by
  induction paths with
  | nil => exact List.Pairwise.nil
  | cons path rest ih =>
      cases rest with
      | nil => exact List.pairwise_singleton _ _
      | cons next rest =>
          obtain ⟨hpath, hrest⟩ := List.pairwise_cons.mp h
          obtain ⟨others, hothers⟩ := exists_dedup_cons next rest
          have hrising := ih hrest
          rw [hothers] at hrising
          obtain ⟨hnext, hbehind⟩ := List.pairwise_cons.mp hrising
          rw [dedup_cons_cons, hothers]
          split
          · rename_i hequal
            refine List.pairwise_cons.mpr ⟨fun other hother => ?_, hbehind⟩
            rw [compare, hequal]
            exact hnext other hother
          · rename_i hdiffer
            have hless : compare path next = .lt := by
              have hle := hpath next List.mem_cons_self
              have hne : compare path next ≠ .eq := fun heq => hdiffer (compare_eq_eq_iff.mp heq)
              cases hcompare : compare path next <;> simp_all
            refine List.pairwise_cons.mpr ⟨fun other hother => ?_, hrising⟩
            rcases List.mem_cons.mp hother with rfl | hother
            · exact hless
            · exact TransCmp.lt_trans hless (hnext other hother)

/-! ## Sorting and dropping -/

theorem mem_of_mem_dedup_sort {paths : List Path} {path : Path} (h : path ∈ dedup (sort paths)) :
    path ∈ paths :=
  List.mem_mergeSort.mp ((dedup_sublist _).subset h)

/-- **Every list of components is still there.** -/
theorem exists_mem_dedup_sort {paths : List Path} {path : Path} (h : path ∈ paths) :
    ∃ kept ∈ dedup (sort paths), kept.components = path.components :=
  exists_mem_dedup (List.mem_mergeSort.mpr h)

/-- **No two paths have the same components.** -/
theorem nodup_dedup_sort (paths : List Path) : ((dedup (sort paths)).map components).Nodup := by
  rw [List.Nodup, List.pairwise_map]
  refine (pairwise_dedup (pairwise_sort paths)).imp ?_
  intro a b hless heq
  rw [compare_eq_eq_iff.mpr heq] at hless
  cases hless

end Path

end KeyOrder
