import KeyOrder.Proofs.Edit.Outermost
import Mathlib.Algebra.BigOperators.Group.List.Basic
import Mathlib.Algebra.GroupWithZero.Nat

/-!
# When applying edits is exact

Applying edits that are accepted should give the source with every replacement in place of its range
and nothing else changed (`Splices`), in whatever order the edits are given and also where ranges
are empty, touch each other or start together. Edits that start together are applied in the order in
which they are given. So **an insertion that is given before the replacement of a range that starts
where it inserts is lost**: when the turn of that range comes, it lies on the inserted text and no
longer on its own. Whatever the edits write, applying them is exact as long as this does not happen
(`ReplacementsFirst`), and only then.
-/

namespace KeyOrder

variable {source text : Text} {edits others : List Edit} {start : Nat}

/-- The range of an edit. -/
def Edit.range (edit : Edit) : Nat × Nat := (edit.start, edit.stop)

/-- The edit of the same range that writes another text. -/
def Edit.writing (edit : Edit) (replacement : Text) : Edit := { edit with replacement }

/-- **The text is the source with every edit in place of its range**: put into the order in which
their ranges lie, one behind the other, the edits stand in the text with exactly the source between
them. -/
def Splices (source : Text) (edits : List Edit) (text : Text) : Prop :=
  ∃ ordered : List Edit, ordered.Perm edits ∧ (ordered.Pairwise fun a b => a.stop ≤ b.start)
    ∧ text = splicedFrom source 0 ordered

/-- Of edits that start together, only the one given first replaces anything; the others insert. -/
def ReplacementsFirst (edits : List Edit) : Prop :=
  edits.Pairwise fun a b => b.start < b.stop → a.start ≠ b.start

instance (edits : List Edit) : Decidable (ReplacementsFirst edits) :=
  inferInstanceAs (Decidable (List.Pairwise _ _))

/-! ## What depends on ranges only -/

theorem validateEdits_congr (h : others.map Edit.range = edits.map Edit.range) :
    validateEdits source others = .ok () ↔ validateEdits source edits = .ok () := by
  have hranges : ∀ list : List Edit, validateEdits source list = .ok ()
      ↔ (∀ range ∈ list.map Edit.range, (Edit.mk range.1 range.2 [] none).inBounds source = true)
        ∧ (list.map Edit.range).Pairwise fun a b =>
          (Edit.mk a.1 a.2 [] none).overlaps (Edit.mk b.1 b.2 [] none) = false := by
    intro list
    rw [validateEdits_eq_ok_iff, List.forall_mem_map, List.pairwise_map]
    rfl
  rw [hranges, hranges, h]

theorem replacementsFirst_congr (h : others.map Edit.range = edits.map Edit.range) :
    ReplacementsFirst others ↔ ReplacementsFirst edits := by
  have hranges : ∀ list : List Edit, ReplacementsFirst list
      ↔ (list.map Edit.range).Pairwise fun a b => b.1 < b.2 → a.1 ≠ b.1 := by
    intro list
    rw [List.pairwise_map]
    rfl
  rw [hranges, hranges, h]

/-- No two edits in turn overlap, in either order. -/
theorem pairwise_apart_inTurn (h : validateEdits source edits = .ok ()) :
    (inTurn edits).Pairwise fun a b => a.overlaps b = false := by
  refine (List.Perm.pairwise_iff (fun {a b} hab => ?_) (inTurn_perm edits)).mpr
    (validateEdits_eq_ok_iff.mp h).2
  rw [Edit.overlaps, Bool.and_comm]
  exact hab

/-! ## Replacements first -/

/-- **Edits are applied from right to left**, if replacements are given first. -/
theorem pairwise_reverse_inTurn (h : validateEdits source edits = .ok ())
    (hfirst : ReplacementsFirst edits) :
    (inTurn edits).reverse.Pairwise fun a b => a.stop ≤ b.start := by
  have hbounds := (validateEdits_eq_ok_iff.mp h).1
  rw [List.pairwise_reverse]
  refine ((pairwise_inTurn edits).and (pairwise_apart_inTurn h)).imp_of_mem
    fun {a b} ha _ ⟨hturn, hapart⟩ => ?_
  have hapart := (not_congr Edit.overlaps_iff).mp (ne_true_of_eq_false hapart)
  have hle := (Edit.inBounds_iff.mp (hbounds a ((inTurn_perm edits).mem_iff.mp ha))).1
  rcases Nat.lt_or_eq_of_le hturn.1 with hlt | heq
  · omega
  · -- they start together, so the later one is given later and inserts
    have hempty := List.pairwise_iff_forall_sublist.mp hfirst (hturn.2 heq.symm)
    have : ¬ b.start < b.stop := fun hlt => hempty hlt heq.symm
    omega

/-- **With replacements first, edits are applied and give exactly the source with every edit in
place of its range.** -/
theorem exists_splices (h : validateEdits source edits = .ok ())
    (hfirst : ReplacementsFirst edits) :
    ∃ text, applyEdits source edits = .ok text ∧ Splices source edits text := by
  have horder := pairwise_reverse_inTurn h hfirst
  exact ⟨_, applyEdits_of_pairwise h horder, _,
    (List.reverse_perm _).trans (inTurn_perm edits), horder, rfl⟩

/-! ## Counting characters -/

/-- What edits take out of the source and what they put in make up the difference between the source
and the result. -/
theorem count_splicedFrom (c : Char) (hbounds : ∀ edit ∈ edits, edit.inBounds source = true)
    (horder : edits.Pairwise fun a b => a.stop ≤ b.start) (hstart : source.isBoundary start = true)
    (hbehind : ∀ edit ∈ edits, start ≤ edit.start) :
    (splicedFrom source start edits).count c
        + (edits.map fun edit => (source.slice edit.start edit.stop).count c).sum
      = (source.dropBytes start).count c
        + (edits.map fun edit => edit.replacement.count c).sum := by
  induction edits generalizing start with
  | nil => simp [splicedFrom]
  | cons edit rest ih =>
      rw [List.forall_mem_cons] at hbounds hbehind
      rw [List.pairwise_cons] at horder
      obtain ⟨hle, -, hfirst, hlast⟩ := Edit.inBounds_iff.mp hbounds.1
      have hrest := ih hbounds.2 horder.2 hlast horder.1
      have hsource := Text.slice_append_dropBytes hfirst hlast hle
      rw [splicedFrom, ← Text.slice_append_dropBytes hstart hfirst hbehind.1, ← hsource]
      simp only [List.count_append, List.map_cons, List.sum_cons]
      omega

theorem Splices.count (h : Splices source edits text)
    (hbounds : ∀ edit ∈ edits, edit.inBounds source = true) (c : Char) :
    text.count c + (edits.map fun edit => (source.slice edit.start edit.stop).count c).sum
      = source.count c + (edits.map fun edit => edit.replacement.count c).sum := by
  obtain ⟨ordered, hperm, horder, rfl⟩ := h
  have hcount := count_splicedFrom c (fun edit hedit => hbounds edit (hperm.mem_iff.mp hedit))
    horder (Text.isBoundary_append [] source) (by simp)
  rwa [(hperm.map _).sum_eq, (hperm.map _).sum_eq, Text.byteLength_nil, Text.dropBytes_zero]
    at hcount

/-! ## An insertion that is lost -/

namespace Edit

variable {edit : Edit}

theorem applyTo_of_inBounds (h : edit.inBounds text = true) :
    edit.applyTo text = .ok (edit.splice text) := if_pos h

/-- An edit that writes the text of its range again can be applied without effect. -/
theorem applyTo_of_original (h : edit.inBounds source = true)
    (horiginal : edit.replacement = source.slice edit.start edit.stop) :
    edit.applyTo source = .ok source := by
  obtain ⟨hle, -, hstart, -⟩ := inBounds_iff.mp h
  rw [applyTo_of_inBounds h, splice, horiginal, Text.takeBytes_append_slice hstart hle,
    Text.takeBytes_append_dropBytes]

/-- Inserting nothing has no effect. -/
theorem applyTo_of_empty (hbound : text.isBoundary edit.start = true)
    (hempty : edit.stop = edit.start) (hnothing : edit.replacement = []) :
    edit.applyTo text = .ok text := by
  have hle : edit.start ≤ text.byteLength := by
    obtain ⟨before, behind, rfl, hbefore⟩ := Text.isBoundary_iff.mp hbound
    rw [Text.byteLength_append]
    omega
  have hfits : edit.inBounds text = true :=
    inBounds_iff.mpr ⟨by omega, by omega, hbound, hempty ▸ hbound⟩
  exact applyTo_of_original hfits (by rw [hnothing, hempty, Text.slice_self])

end Edit

section Run

variable {edit : Edit} {front : List Edit} {middle : Text}

theorem foldlM_applyTo_cons (h : edit.applyTo text = .ok middle) (rest : List Edit) :
    (edit :: rest).foldlM (fun text edit => edit.applyTo text) text
      = rest.foldlM (fun text edit => edit.applyTo text) middle := by
  rw [List.foldlM_cons, h]
  rfl

/-- Edits without effect are passed over. -/
theorem foldlM_applyTo_append_of_forall (h : ∀ edit ∈ front, edit.applyTo text = .ok text)
    (rest : List Edit) :
    (front ++ rest).foldlM (fun text edit => edit.applyTo text) text
      = rest.foldlM (fun text edit => edit.applyTo text) text := by
  induction front with
  | nil => rfl
  | cons edit front ih =>
      rw [List.forall_mem_cons] at h
      rw [List.cons_append, foldlM_applyTo_cons h.1, ih h.2]

end Run

/-- Some character of one byte does not fill a text. -/
theorem Text.exists_count_lt_byteLength (h : text ≠ []) :
    ∃ c : Char, c.utf8Size = 1 ∧ text.count c < text.byteLength := by
  have hboth : ∀ rest : Text, rest.count 'x' + rest.count 'y' ≤ rest.byteLength := by
    intro rest
    induction rest with
    | nil => simp
    | cons c rest ih =>
        have hsize := c.utf8Size_pos
        have hone : (if c = 'x' then 1 else 0) + (if c = 'y' then 1 else 0) ≤ 1 := by
          by_cases hx : c = 'x'
          · subst hx
            decide
          · rw [if_neg hx]
            split <;> omega
        simp only [List.count_cons, beq_iff_eq, Text.byteLength_cons]
        omega
  have hpos : 0 < text.byteLength := by
    cases text with
    | nil => exact absurd rfl h
    | cons c rest => exact Nat.lt_of_lt_of_le c.utf8Size_pos (Nat.le_add_right _ _)
  have hle := hboth text
  by_cases hx : text.count 'x' < text.byteLength
  · exact ⟨'x', by decide, hx⟩
  · exact ⟨'y', by decide, by omega⟩

theorem Text.byteLength_replicate {c : Char} (h : c.utf8Size = 1) (n : Nat) :
    Text.byteLength (List.replicate n c) = n := by
  induction n with
  | zero => rfl
  | succ n ih => rw [List.replicate_succ, Text.byteLength_cons, ih, h, Nat.add_comm]

namespace Edit

variable {insertion removal : Edit}

/-- Text that is inserted in front of a range and is as long as the range: removing the range then
takes the inserted text out again. -/
theorem applyTo_splice_of_removal (hbound : source.isBoundary insertion.start = true)
    (hempty : insertion.stop = insertion.start) (hstart : removal.start = insertion.start)
    (hstop : removal.stop = insertion.start + insertion.replacement.byteLength)
    (hnothing : removal.replacement = []) :
    removal.applyTo (insertion.splice source) = .ok source := by
  obtain ⟨before, behind, rfl, hbefore⟩ := Text.isBoundary_iff.mp hbound
  have hsplice : insertion.splice (before ++ behind)
      = (before ++ insertion.replacement) ++ behind := by
    rw [splice, hempty, ← hbefore, Text.takeBytes_append, Text.dropBytes_append]
  have hlast : removal.stop = (before ++ insertion.replacement).byteLength := by
    rw [hstop, Text.byteLength_append, hbefore]
  have hfits : removal.inBounds ((before ++ insertion.replacement) ++ behind) = true := by
    refine inBounds_iff.mpr ⟨by omega, ?_, ?_, ?_⟩
    · rw [hlast, Text.byteLength_append _ behind]
      exact Nat.le_add_right _ _
    · rw [hstart, ← hbefore, List.append_assoc]
      exact Text.isBoundary_append _ _
    · rw [hlast]
      exact Text.isBoundary_append _ _
  rw [hsplice, applyTo_of_inBounds hfits, splice, hnothing, hlast, hstart, ← hbefore,
    Text.dropBytes_append, List.append_assoc before, Text.takeBytes_append, List.append_nil]

end Edit

theorem exists_append_of_pair_sublist {α : Type} {a b : α} {list : List α}
    (h : [a, b].Sublist list) :
    ∃ before between behind, list = before ++ a :: (between ++ b :: behind) := by
  obtain ⟨front, rest, rfl, ha, hb⟩ := List.cons_sublist_iff.mp h
  obtain ⟨before, u, rfl⟩ := List.append_of_mem ha
  obtain ⟨v, behind, rfl⟩ := List.append_of_mem (List.singleton_sublist.mp hb)
  exact ⟨before, u ++ v, behind, by simp⟩

/-- Of edits that start together, the one given first is applied first. -/
theorem pair_sublist_inTurn {a b : Edit} (h : [a, b].Sublist edits) (hstart : b.start = a.start) :
    [a, b].Sublist (inTurn edits) :=
  List.pair_sublist_mergeSort turn_trans turn_total (decide_eq_true (Nat.le_of_eq hstart)) h

/-- An edit whose turn comes between those of two that start together, of which the second replaces
something, inserts at the same place. -/
theorem range_of_between {a b edit : Edit} {before between behind : List Edit}
    (hvalid : validateEdits source edits = .ok ())
    (hturn : inTurn edits = before ++ a :: (between ++ b :: behind)) (hstart : b.start = a.start)
    (hsome : b.start < b.stop) (hedit : edit ∈ between) :
    edit.start = a.start ∧ edit.stop = a.start := by
  have hle : edit.start ≤ edit.stop := by
    have hmem : edit ∈ inTurn edits := by simp [hturn, hedit]
    exact (Edit.inBounds_iff.mp
      ((validateEdits_eq_ok_iff.mp hvalid).1 edit ((inTurn_perm edits).mem_iff.mp hmem))).1
  have horder := (pairwise_inTurn edits).and (pairwise_apart_inTurn hvalid)
  rw [hturn, List.pairwise_append, List.pairwise_cons, List.pairwise_append] at horder
  have hbehind := horder.2.1.1 edit (List.mem_append_left _ hedit)
  have hahead := horder.2.1.2.2.2 edit hedit b (.head _)
  have hapart := (not_congr Edit.overlaps_iff).mp (ne_true_of_eq_false hahead.2)
  omega

/-- **An insertion in front of a range is lost if it is given before the removal of that range**:
among edits that write what stands in the source anyway, the two give the source again, because the
removal takes out what was inserted. -/
theorem applyEdits_of_removal {insertion removal : Edit} {rest : List Edit}
    (hvalid : validateEdits source others = .ok ())
    (hperm : others.Perm (insertion :: removal :: rest))
    (hturn : [insertion, removal].Sublist others)
    (hrest : ∀ edit ∈ rest, edit.replacement = source.slice edit.start edit.stop)
    (hstart : removal.start = insertion.start) (hempty : insertion.stop = insertion.start)
    (hlength : removal.stop = insertion.start + insertion.replacement.byteLength)
    (hsome : removal.start < removal.stop) (hnothing : removal.replacement = []) :
    applyEdits source others = .ok source := by
  have hbounds := (validateEdits_eq_ok_iff.mp hvalid).1
  have hpair : [insertion, removal].Sublist (inTurn others) := pair_sublist_inTurn hturn hstart
  obtain ⟨before, between, behind, heq⟩ := exists_append_of_pair_sublist hpair
  have hothers : (before ++ (between ++ behind)).Perm rest := by
    have hinTurn := (inTurn_perm others).trans hperm
    rw [heq] at hinTurn
    have hrest := (List.perm_middle.symm.trans hinTurn).cons_inv
    rw [← List.append_assoc] at hrest ⊢
    exact (List.perm_middle.symm.trans hrest).cons_inv
  have hnoop : ∀ edit ∈ before ++ (between ++ behind), edit.applyTo source = .ok source := by
    intro edit hedit
    have hmem := hothers.mem_iff.mp hedit
    have hfits := hbounds edit (hperm.mem_iff.mpr (.tail _ (.tail _ hmem)))
    exact Edit.applyTo_of_original hfits (hrest edit hmem)
  have hinsert := hbounds insertion (hperm.mem_iff.mpr (.head _))
  have hbound := (Edit.inBounds_iff.mp hinsert).2.2.1
  have hbetween : ∀ edit ∈ between,
      edit.applyTo (insertion.splice source) = .ok (insertion.splice source) := by
    intro edit hedit
    have hmem : edit ∈ rest :=
      hothers.mem_iff.mp (List.mem_append_right _ (List.mem_append_left _ hedit))
    obtain ⟨hsame, hstop⟩ := range_of_between hvalid heq hstart hsome hedit
    have hnothing : edit.replacement = [] := by
      rw [hrest edit hmem, hsame, hstop, Text.slice_self]
    refine Edit.applyTo_of_empty ?_ (hstop.trans hsame.symm) hnothing
    rw [hsame, Edit.splice, List.append_assoc]
    exact Text.isBoundary_takeBytes_append _ hbound hbound (Nat.le_refl _)
  have hremove := Edit.applyTo_splice_of_removal hbound hempty hstart hlength hnothing
  rw [applyEdits_of_validateEdits hvalid, heq,
    foldlM_applyTo_append_of_forall fun edit hedit => hnoop edit (List.mem_append_left _ hedit),
    foldlM_applyTo_cons (Edit.applyTo_of_inBounds hinsert),
    foldlM_applyTo_append_of_forall hbetween, foldlM_applyTo_cons hremove,
    ← List.append_nil behind, foldlM_applyTo_append_of_forall]
  · rfl
  · exact fun edit hedit =>
      hnoop edit (List.mem_append_right _ (List.mem_append_right _ hedit))

/-- If the source is what such edits should give, then what is inserted is spelled with the
characters of what is removed. -/
theorem Splices.count_of_removal {insertion removal : Edit} {rest : List Edit}
    (h : Splices source others source) (hbounds : ∀ edit ∈ others, edit.inBounds source = true)
    (hperm : others.Perm (insertion :: removal :: rest))
    (hrest : ∀ edit ∈ rest, edit.replacement = source.slice edit.start edit.stop)
    (hempty : insertion.stop = insertion.start) (hnothing : removal.replacement = []) (c : Char) :
    (source.slice removal.start removal.stop).count c = insertion.replacement.count c := by
  have hcount := h.count hbounds c
  have hsame : (rest.map fun edit => edit.replacement.count c)
      = rest.map fun edit => (source.slice edit.start edit.stop).count c :=
    List.map_congr_left fun edit hedit => by rw [hrest edit hedit]
  rw [(hperm.map _).sum_eq, (hperm.map _).sum_eq] at hcount
  simp only [List.map_cons, List.sum_cons, hsame, hempty, hnothing, Text.slice_self,
    List.count_nil] at hcount
  omega

/-- Edits of given ranges of which all but two write what stands in the source anyway. -/
theorem exists_others_of_pair (source : Text) {a b : Edit} (hpair : [a, b].Sublist edits)
    (first second : Text) :
    ∃ others rest, others.map Edit.range = edits.map Edit.range
      ∧ others.Perm (a.writing first :: b.writing second :: rest)
      ∧ [a.writing first, b.writing second].Sublist others
      ∧ ∀ edit ∈ rest, edit.replacement = source.slice edit.start edit.stop := by
  obtain ⟨before, between, behind, rfl⟩ := exists_append_of_pair_sublist hpair
  let same : List Edit → List Edit := List.map (Edit.original source)
  have hsame : ∀ list, (same list).map Edit.range = list.map Edit.range :=
    fun list => List.map_map
  refine ⟨same before ++ a.writing first :: (same between ++ b.writing second :: same behind),
    same (before ++ (between ++ behind)), ?_, ?_, ?_, ?_⟩
  · simp only [List.map_append, List.map_cons, hsame]
    rfl
  · refine List.perm_middle.trans (.cons _ ?_)
    rw [← List.append_assoc]
    refine List.perm_middle.trans (.cons _ (.of_eq ?_))
    simp only [same, List.map_append, List.append_assoc]
  · refine .trans (.cons_cons _ ?_) (List.sublist_append_right _ _)
    exact .trans (.cons_cons _ (List.nil_sublist _)) (List.sublist_append_right _ _)
  · rintro _ hedit
    obtain ⟨edit, -, rfl⟩ := List.mem_map.mp hedit
    rfl

/-- **Where an insertion is given before the replacement of a range that starts with it, edits of
these ranges can be lost**: the source comes out unchanged although it should not. -/
theorem exists_lost_insertion {a b : Edit} (hvalid : validateEdits source edits = .ok ())
    (hpair : [a, b].Sublist edits) (hstart : a.start = b.start) (hsome : b.start < b.stop) :
    ∃ others, others.map Edit.range = edits.map Edit.range
      ∧ applyEdits source others = .ok source ∧ ¬ Splices source others source := by
  obtain ⟨hbounds, hapart⟩ := validateEdits_eq_ok_iff.mp hvalid
  have hempty : a.stop = a.start := by
    have hle := (Edit.inBounds_iff.mp (hbounds a (hpair.subset (.head _)))).1
    have hab := List.pairwise_iff_forall_sublist.mp hapart hpair
    have := (not_congr Edit.overlaps_iff).mp (ne_true_of_eq_false hab)
    omega
  obtain ⟨-, -, hfirst, hlast⟩ :=
    Edit.inBounds_iff.mp (hbounds b (hpair.subset (.tail _ (.head _))))
  -- the inserted text is as long as the removed one, and cannot be mistaken for it
  obtain ⟨c, hsize, hcount⟩ :=
    Text.exists_count_lt_byteLength (Text.slice_ne_nil hfirst hlast hsome)
  rw [Text.byteLength_slice hfirst hlast (Nat.le_of_lt hsome)] at hcount
  have hlength := Text.byteLength_replicate hsize (b.stop - b.start)
  obtain ⟨others, rest, hranges, hperm, hturn, hrest⟩ :=
    exists_others_of_pair source hpair (List.replicate (b.stop - b.start) c) []
  have hvalid := (validateEdits_congr hranges).mpr hvalid
  refine ⟨others, hranges, applyEdits_of_removal hvalid hperm hturn hrest hstart.symm hempty ?_
    hsome rfl, fun hsplices => ?_⟩
  · show b.stop = a.start + Text.byteLength (List.replicate (b.stop - b.start) c)
    omega
  · have hsame : (source.slice b.start b.stop).count c = b.stop - b.start :=
      (hsplices.count_of_removal (validateEdits_eq_ok_iff.mp hvalid).1 hperm hrest hempty rfl
        c).trans List.count_replicate_self
    omega

/-- **Applying accepted edits is exact, whatever they write, if and only if replacements come
first.** Edits with the given ranges are applied and give the source with every edit in place of its
range, and nothing else changed, exactly if of those that start together only the one given first
replaces anything. -/
theorem applyEdits_splices_iff (hvalid : validateEdits source edits = .ok ()) :
    (∀ others, others.map Edit.range = edits.map Edit.range →
      ∃ text, applyEdits source others = .ok text ∧ Splices source others text)
    ↔ ReplacementsFirst edits := by
  constructor
  · intro hexact
    refine List.pairwise_iff_forall_sublist.mpr fun {a b} hpair hsome hstart => ?_
    obtain ⟨others, hranges, happly, hlost⟩ := exists_lost_insertion hvalid hpair hstart hsome
    obtain ⟨text, htext, hsplices⟩ := hexact others hranges
    rw [happly] at htext
    cases htext
    exact hlost hsplices
  · intro hfirst others hranges
    exact exists_splices ((validateEdits_congr hranges).mpr hvalid)
      ((replacementsFirst_congr hranges).mpr hfirst)

/-- Edits that are given from the last one to the first are applied as they are given. -/
theorem applyEdits_of_descending (h : validateEdits source edits = .ok ())
    (hdescending : edits.Pairwise fun a b => b.start ≤ a.start) :
    applyEdits source edits = edits.foldlM (fun text edit => edit.applyTo text) source := by
  have hturn : inTurn edits = edits := List.mergeSort_of_pairwise (hdescending.imp decide_eq_true)
  rw [applyEdits_of_validateEdits h, hturn]

/-- Two edits that touch at one end, the replacement given before the insertion, and one far off. -/
theorem applyEdits_splices_touching :
    let edits := [⟨3, 6, ['Y', 'Y', 'Y'], none⟩, ⟨3, 3, ['X'], none⟩, ⟨0, 0, ['Z'], none⟩]
    validateEdits "abcdef".toList edits = .ok () ∧ ReplacementsFirst edits
      ∧ applyEdits "abcdef".toList edits = .ok "ZabcXYYY".toList
      ∧ Splices "abcdef".toList edits "ZabcXYYY".toList := by
  intro edits
  have hvalid : validateEdits "abcdef".toList edits = .ok () := by decide
  have hfirst : ReplacementsFirst edits := by decide
  have happly : applyEdits "abcdef".toList edits = .ok "ZabcXYYY".toList := by
    rw [applyEdits_of_descending hvalid (by decide)]
    decide
  obtain ⟨text, htext, hsplices⟩ := (applyEdits_splices_iff hvalid).mpr hfirst edits rfl
  rw [happly] at htext
  cases htext
  exact ⟨hvalid, hfirst, happly, hsplices⟩

/-- **Accepted edits need not be applied exactly.** An insertion that is given before the
replacement of the range that starts there is overwritten, and the end of that range stays. Where
the range holds a character of two bytes, the edits are not even applied. -/
theorem applyEdits_overwrites_insertion :
    let letters := [⟨3, 3, ['X'], none⟩, ⟨3, 6, ['Y', 'Y', 'Y'], none⟩]
    let accent := [⟨0, 0, ['X'], none⟩, ⟨0, 2, ['Y'], none⟩]
    validateEdits "abcdef".toList letters = .ok ()
      ∧ applyEdits "abcdef".toList letters = .ok "abcYYYf".toList
      ∧ ¬ Splices "abcdef".toList letters "abcYYYf".toList
      ∧ validateEdits "é".toList accent = .ok ()
      ∧ applyEdits "é".toList accent = .error (.rangeLost 0 2) := by
  intro letters accent
  have hletters : validateEdits "abcdef".toList letters = .ok () := by decide
  have haccent : validateEdits "é".toList accent = .ok () := by decide
  refine ⟨hletters, ?_, fun hsplices => ?_, haccent, ?_⟩
  · rw [applyEdits_of_descending hletters (by decide)]
    decide
  · -- the inserted letter is missing
    exact absurd (hsplices.count (by decide) 'X') (by decide)
  · rw [applyEdits_of_descending haccent (by decide)]
    decide

end KeyOrder
