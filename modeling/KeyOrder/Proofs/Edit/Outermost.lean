import KeyOrder.Proofs.Edit.Selection
import KeyOrder.Proofs.Edit.Splicing
import Mathlib.Data.List.Nodup
import Mathlib.Data.List.Pairwise

/-!
# The outermost edits of a nest

The edits of one pass replace bodies of a syntax tree, so two of them are nested or apart. Each is
known by its place in the list, since the same range may be there more than once. One edit blocks
another if it has an effect and a larger range around that of the other, or the same range and an
earlier place. **Of a nest of edits those are kept that have an effect and are not blocked**: a
blocked edit is also blocked by an edit that is kept, the first of those that block it, and in the
order in which edits are looked at that one comes before it.
-/

namespace KeyOrder

namespace Edit

/-- Whether the range of an edit lies in that of another. -/
def Covers (a b : Edit) : Prop := a.start ≤ b.start ∧ b.stop ≤ a.stop

/-- Whether two edits replace the same range. -/
def SameRange (a b : Edit) : Prop := a.start = b.start ∧ a.stop = b.stop

/-- Two edits of which one range lies in the other, or that have no byte in common. -/
def NestedOrApart (a b : Edit) : Prop :=
  a.Covers b ∨ b.Covers a ∨ a.stop ≤ b.start ∨ b.stop ≤ a.start

instance (a b : Edit) : Decidable (a.Covers b) := inferInstanceAs (Decidable (_ ∧ _))

instance (a b : Edit) : Decidable (a.SameRange b) := inferInstanceAs (Decidable (_ ∧ _))

instance (a b : Edit) : Decidable (a.NestedOrApart b) := inferInstanceAs (Decidable (_ ∨ _ ∨ _))

/-- Whether an edit keeps another one from being applied, each with its place: it has an effect, and
a larger range around that of the other, or the same range and an earlier place. -/
def Blocks (source : Text) (a b : Edit × Nat) : Prop :=
  a.1.isNoop source = false
    ∧ ((a.1.Covers b.1 ∧ ¬ a.1.SameRange b.1) ∨ (a.1.SameRange b.1 ∧ a.2 < b.2))

instance (source : Text) (a b : Edit × Nat) : Decidable (Blocks source a b) :=
  inferInstanceAs (Decidable (_ ∧ (_ ∧ _ ∨ _ ∧ _)))

/-- Whether an edit with its place has an effect and none of the edits blocks it. -/
def Outermost (source : Text) (edits : List Edit) (edit : Edit × Nat) : Prop :=
  edit.1.isNoop source = false ∧ ∀ other ∈ edits.zipIdx, ¬ Blocks source other edit

instance (source : Text) (edits : List Edit) (edit : Edit × Nat) :
    Decidable (Outermost source edits edit) :=
  inferInstanceAs (Decidable (_ ∧ _))

/-- The outermost edits, in the order in which they are given. -/
def outermost (source : Text) (edits : List Edit) : List Edit :=
  (edits.zipIdx.filter (Outermost source edits ·)).map Prod.fst

/-- The order in which edits are looked at, down to their places. -/
def RanksBefore (a b : Edit × Nat) : Prop :=
  a.1.Precedes b.1 ∧ (a.1.SameRange b.1 → a.2 < b.2)

variable {source : Text} {edits : List Edit} {a b c : Edit × Nat}

/-! ## Blocking -/

theorem Blocks.trans (hab : Blocks source a b) (hbc : Blocks source b c) : Blocks source a c := by
  obtain ⟨hchanges, hab⟩ := hab
  refine ⟨hchanges, ?_⟩
  have hbc := hbc.2
  simp only [Covers, SameRange] at hab hbc ⊢
  omega

/-- An edit is looked at before those that it blocks. -/
theorem Blocks.ranksBefore (h : Blocks source a b) : RanksBefore a b := by
  have h := h.2
  simp only [RanksBefore, Precedes, Covers, SameRange] at h ⊢
  omega

theorem Blocks.overlaps (h : Blocks source a b) (hnonempty : b.1.start < b.1.stop) :
    a.1.overlaps b.1 = true := by
  have h := h.2
  rw [overlaps_iff]
  simp only [Covers, SameRange] at h
  omega

theorem RanksBefore.asymm (hab : RanksBefore a b) (hba : RanksBefore b a) : False := by
  simp only [RanksBefore, Precedes, SameRange] at hab hba
  omega

/-- **Of two edits that are nested or apart, the one that is looked at first blocks the other if
they overlap**, provided that it has an effect. -/
theorem RanksBefore.blocks (h : RanksBefore a b) (hnested : a.1.NestedOrApart b.1)
    (hchanges : a.1.isNoop source = false) (hoverlaps : a.1.overlaps b.1 = true) :
    Blocks source a b := by
  refine ⟨hchanges, ?_⟩
  rw [overlaps_iff] at hoverlaps
  simp only [RanksBefore, Precedes, NestedOrApart, Covers, SameRange] at h hnested ⊢
  omega

/-! ## What is kept of a ranked list -/

section Ranked

variable {ranked seen rest : List (Edit × Nat)}

/-- **A blocked edit is blocked by an outermost one**, the first of those that block it. -/
theorem exists_outermost_blocks (hranked : ranked.Pairwise RanksBefore)
    (hmem : ∀ other, other ∈ ranked ↔ other ∈ edits.zipIdx) (ha : a ∈ ranked)
    (hblocks : Blocks source a b) :
    ∃ first ∈ ranked, Outermost source edits first ∧ Blocks source first b := by
  obtain ⟨first, hfirst⟩ : ∃ first, ranked.find? (Blocks source · b) = some first :=
    Option.isSome_iff_exists.mp (List.find?_isSome.mpr ⟨a, ha, by simpa using hblocks⟩)
  obtain ⟨hblocked, before, behind, rfl, hbefore⟩ := List.find?_eq_some_iff_append.mp hfirst
  have hblocked : Blocks source first b := by simpa using hblocked
  refine ⟨first, by simp, ⟨hblocked.1, fun other hother hother' => ?_⟩, hblocked⟩
  have hranks := hother'.ranksBefore
  rw [List.pairwise_append, List.pairwise_cons] at hranked
  rcases List.mem_append.mp ((hmem other).mpr hother) with hmem | hmem
  · have hnot := hbefore other hmem
    simp only [Bool.not_eq_true', decide_eq_false_iff_not] at hnot
    exact hnot (hother'.trans hblocked)
  · rcases List.mem_cons.mp hmem with rfl | hmem
    · exact hranks.asymm hranks
    · exact hranks.asymm (hranked.2.1.1 other hmem)

/-- What keeping edits one by one relies on: every edit is there with its place, in the order in
which edits are looked at, and the edits form a nest of ranges that are not empty. -/
structure Nest (edits : List Edit) (ranked : List (Edit × Nat)) : Prop where
  ordered : ranked.Pairwise RanksBefore
  mem_iff : ∀ edit, edit ∈ ranked ↔ edit ∈ edits.zipIdx
  nested : ∀ a ∈ edits, ∀ b ∈ edits, a.NestedOrApart b
  nonempty : ∀ edit ∈ edits, edit.start < edit.stop

theorem Nest.mem (h : Nest edits ranked) (ha : a ∈ ranked) : a.1 ∈ edits :=
  List.mem_of_getElem? (List.mem_zipIdx_iff_getElem?.mp ((h.mem_iff a).mp ha))

/-- **One step** keeps an edit exactly if it is outermost. -/
theorem Nest.keepEdit_eq (h : Nest edits (seen ++ b :: rest)) :
    keepEdit source ((seen.filter (Outermost source edits ·)).map Prod.fst) b.1
      = ((seen ++ [b]).filter (Outermost source edits ·)).map Prod.fst := by
  have hbefore : ∀ a ∈ seen, RanksBefore a b := fun a ha =>
    (List.pairwise_append.mp h.ordered).2.2 a ha b List.mem_cons_self
  have hmem : b ∈ seen ++ b :: rest := by simp
  have hnonempty := h.nonempty b.1 (h.mem hmem)
  rw [List.filter_append, List.map_append]
  rcases keepEdit_cases source ((seen.filter (Outermost source edits ·)).map Prod.fst) b.1 with
    ⟨hkeep, hreason⟩ | ⟨hkeep, hchanges, hapart⟩
  · have hnot : ¬ Outermost source edits b := by
      rintro ⟨hchanges, hfree⟩
      -- a reason to leave the edit out is an outermost edit seen before that overlaps it
      obtain ⟨a, ha, hoverlaps⟩ : ∃ a ∈ seen.filter (Outermost source edits ·),
          a.1.overlaps b.1 = true := by
        rcases hreason with hnoop | hkept | ⟨other, hother, hoverlaps⟩
        · simp [hchanges] at hnoop
        · obtain ⟨a, ha, heq⟩ := List.mem_map.mp hkept
          exact ⟨a, ha, by rw [heq, overlaps_iff]; exact ⟨hnonempty, hnonempty⟩⟩
        · obtain ⟨a, ha, rfl⟩ := List.mem_map.mp hother
          exact ⟨a, ha, hoverlaps⟩
      obtain ⟨ha, hout⟩ := List.mem_filter.mp ha
      have hlisted : a ∈ seen ++ b :: rest := List.mem_append_left _ ha
      have hnested := h.nested a.1 (h.mem hlisted) b.1 (h.mem hmem)
      exact hfree a ((h.mem_iff a).mp hlisted)
        ((hbefore a ha).blocks hnested (of_decide_eq_true hout).1 hoverlaps)
    rw [hkeep]
    simp [hnot]
  · have hout : Outermost source edits b := by
      refine ⟨hchanges, fun other hother hblocks => ?_⟩
      obtain ⟨first, hfirst, hout, hblocked⟩ :=
        exists_outermost_blocks h.ordered h.mem_iff ((h.mem_iff other).mpr hother) hblocks
      have hseen : first ∈ seen := by
        rcases List.mem_append.mp hfirst with hseen | hlater
        · exact hseen
        · rcases List.mem_cons.mp hlater with rfl | hlater
          · exact (hblocked.ranksBefore.asymm hblocked.ranksBefore).elim
          · have hafter := (List.pairwise_append.mp h.ordered).2.1
            exact (hblocked.ranksBefore.asymm ((List.pairwise_cons.mp hafter).1 first hlater)).elim
      have hkept := hapart first.1
        (List.mem_map_of_mem (List.mem_filter.mpr ⟨hseen, by simpa using hout⟩))
      simp [hblocked.overlaps hnonempty] at hkept
    rw [hkeep]
    simp [hout]

/-- **All steps together** keep the outermost edits. -/
theorem Nest.foldl_keepEdit (h : Nest edits (seen ++ rest)) :
    (rest.map Prod.fst).foldl (keepEdit source)
        ((seen.filter (Outermost source edits ·)).map Prod.fst)
      = ((seen ++ rest).filter (Outermost source edits ·)).map Prod.fst := by
  induction rest generalizing seen with
  | nil => simp
  | cons b rest ih =>
      have hassoc : seen ++ b :: rest = (seen ++ [b]) ++ rest := by simp
      rw [List.map_cons, List.foldl_cons, h.keepEdit_eq, hassoc]
      exact ih (hassoc ▸ h)

end Ranked

/-! ## Edits that form a nest -/

/-- Edits with their places, in the order in which they are looked at. -/
def ranking (edits : List Edit) : List (Edit × Nat) :=
  edits.zipIdx.mergeSort (List.zipIdxLE comesFirst)

theorem pairwise_ranking (edits : List Edit) : (ranking edits).Pairwise RanksBefore := by
  have hsorted : (ranking edits).Pairwise fun a b => List.zipIdxLE comesFirst a b = true :=
    List.pairwise_mergeSort (List.zipIdxLE_trans comesFirst_trans)
      (List.zipIdxLE_total comesFirst_total) _
  have hplaces : (ranking edits).Pairwise fun a b => a.2 ≠ b.2 := by
    have hnodup : (edits.zipIdx.map Prod.snd).Nodup := by
      rw [List.zipIdx_map_snd]
      exact List.nodup_range'
    exact List.pairwise_map.mp (((List.mergeSort_perm _ _).map Prod.snd).nodup_iff.mpr hnodup)
  refine (hsorted.and hplaces).imp fun {a b} ⟨hle, hne⟩ => ?_
  unfold List.zipIdxLE at hle
  split at hle
  · rename_i hfirst
    refine ⟨comesFirst_iff.mp hfirst, fun hsame => ?_⟩
    have hback : b.1.comesFirst a.1 = true := by
      simp only [SameRange] at hsame
      rw [comesFirst_iff, Precedes]
      omega
    rw [if_pos hback] at hle
    exact Nat.lt_of_le_of_ne (of_decide_eq_true hle) hne
  · cases hle

theorem nest_ranking (hnested : edits.Pairwise NestedOrApart)
    (hnonempty : ∀ edit ∈ edits, edit.start < edit.stop) : Nest edits (ranking edits) := by
  refine ⟨pairwise_ranking edits, fun edit => (List.mergeSort_perm _ _).mem_iff, ?_, hnonempty⟩
  have hself : ∀ edit ∈ edits, edit.NestedOrApart edit :=
    fun edit _ => .inl ⟨Nat.le_refl _, Nat.le_refl _⟩
  have hflip : edits.Pairwise (flip NestedOrApart) := hnested.imp fun {a b} hab => by
    simp only [flip, NestedOrApart, Covers] at hab ⊢
    omega
  exact fun a ha b hb => hnested.forall_of_forall_of_flip hself hflip ha hb

/-- **What is kept of a nest of edits is the outermost ones.** -/
theorem selectEdits_perm_outermost (hnested : edits.Pairwise NestedOrApart)
    (hnonempty : ∀ edit ∈ edits, edit.start < edit.stop) :
    (selectEdits source edits).Perm (outermost source edits) := by
  have hselect : selectEdits source edits
      = ((ranking edits).map Prod.fst).foldl (keepEdit source) [] := by
    rw [ranking, List.mergeSort_zipIdx]
    rfl
  have hkept := @Nest.foldl_keepEdit source edits [] (ranking edits)
    (nest_ranking hnested hnonempty)
  simp only [List.filter_nil, List.map_nil, List.nil_append] at hkept
  rw [hselect, hkept]
  exact ((List.mergeSort_perm _ _).filter _).map _

/-- The edit that writes the text of its range again. -/
def original (source : Text) (edit : Edit) : Edit :=
  { edit with replacement := source.slice edit.start edit.stop }

theorem isNoop_original {edit : Edit} (h : edit.inBounds source = true) :
    (edit.original source).isNoop source = true := by
  obtain ⟨hle, -, hstart, hstop⟩ := inBounds_iff.mp h
  exact isNoop_iff.mpr ⟨hle, hstart, hstop, rfl⟩

/-- **One pass rewrites exactly the outermost edits.** Of edits in bounds that replace something and
are nested or apart, those are kept that have an effect and that no other edit with an effect covers
with a larger range, or with the same range from an earlier place. They lie one behind the other and
are accepted, and the result is the source with the replacement of each in place of its range: with
the text of the source in these places it would be the source again. -/
theorem selectEdits_rewrites_outermost
    (hbounds : ∀ edit ∈ edits, edit.inBounds source = true)
    (hnonempty : ∀ edit ∈ edits, edit.start < edit.stop)
    (hnested : edits.Pairwise NestedOrApart) :
    (selectEdits source edits).Perm (outermost source edits)
      ∧ ((selectEdits source edits).Pairwise fun a b => a.stop ≤ b.start)
      ∧ validateEdits source (selectEdits source edits) = .ok ()
      ∧ applyEdits source (selectEdits source edits)
        = .ok (splicedFrom source 0 (selectEdits source edits))
      ∧ splicedFrom source 0 ((selectEdits source edits).map (original source)) = source := by
  obtain ⟨hkept, hpairs, -⟩ := selectEdits_spec source edits
  have hkeptNonempty : ∀ edit ∈ selectEdits source edits, edit.start < edit.stop :=
    fun edit hedit => hnonempty edit (hkept edit hedit).1
  have hkeptBounds : ∀ edit ∈ selectEdits source edits, edit.inBounds source = true :=
    fun edit hedit => hbounds edit (hkept edit hedit).1
  have hbehind := pairwise_behind hpairs hkeptNonempty
  have hvalid : validateEdits source (selectEdits source edits) = .ok () :=
    validateEdits_eq_ok_iff.mpr ⟨hkeptBounds, hpairs.imp And.right⟩
  refine ⟨selectEdits_perm_outermost hnested hnonempty, hbehind, hvalid,
    applyEdits_eq_splicedFrom hvalid hkeptNonempty hbehind, ?_⟩
  rw [splicedFrom_of_isNoop, Text.dropBytes_zero]
  · intro edit hedit
    obtain ⟨kept, hmem, rfl⟩ := List.mem_map.mp hedit
    exact isNoop_original (hkeptBounds kept hmem)
  · exact List.pairwise_map.mpr hbehind
  · exact Text.isBoundary_append [] source
  · simp

/-- A nest of edits of ten digits: two have the same range, and one is without effect. -/
def digitEdits : List Edit :=
  [⟨4, 6, ['i'], none⟩, ⟨2, 8, ['o'], none⟩, ⟨2, 8, ['p'], none⟩, ⟨8, 10, ['8', '9'], none⟩,
    ⟨9, 10, ['t'], none⟩]

/-- Of two edits of one range the first is kept, and an edit without effect does not block the one
inside it. -/
theorem selectEdits_rewrites_outermost_digits :
    (selectEdits "0123456789".toList digitEdits).Perm [⟨2, 8, ['o'], none⟩, ⟨9, 10, ['t'], none⟩]
      ∧ ∃ result, applyEdits "0123456789".toList (selectEdits "0123456789".toList digitEdits)
        = .ok result := by
  obtain ⟨hperm, -, -, happly, -⟩ := @selectEdits_rewrites_outermost "0123456789".toList digitEdits
    (by decide) (by decide) (by decide)
  have houtermost : outermost "0123456789".toList digitEdits
      = [⟨2, 8, ['o'], none⟩, ⟨9, 10, ['t'], none⟩] := by decide
  exact ⟨houtermost ▸ hperm, _, happly⟩

end Edit

end KeyOrder
