import KeyOrder.Edit
import KeyOrder.Proofs.Order.StableSort
import KeyOrder.Proofs.Text.Slice
import Mathlib.Data.List.Nodup

/-!
# Edits written from left to right

Edits are applied from the last one to the first. **The result is the source read from left to right
with each replacement in place of the range of its edit** (`splicedFrom`): an edit that is applied
leaves everything in front of it as it is, so the offsets of the edits still to come stay valid.
-/

namespace KeyOrder

/-- The source from byte `start` on, with the replacements of edits that lie one behind the other in
place of their ranges. -/
def splicedFrom (source : Text) (start : Nat) : List Edit → Text
  | [] => source.dropBytes start
  | edit :: rest =>
    source.slice start edit.start ++ edit.replacement ++ splicedFrom source edit.stop rest

namespace Text

theorem takeBytes_append_dropBytes (text : Text) (n : Nat) :
    text.takeBytes n ++ text.dropBytes n = text := by
  induction text generalizing n with
  | nil => rfl
  | cons c rest ih =>
      by_cases hn : n = 0
      · simp [hn]
      · simp only [takeBytes, dropBytes, hn, if_false, List.cons_append, ih]

/-- A cut inside the first of two pieces sees that piece only. -/
theorem takeBytes_takeBytes_append {text : Text} (behind : Text) {a b : Nat}
    (ha : text.isBoundary a = true) (hb : text.isBoundary b = true) (hab : a ≤ b) :
    (text.takeBytes b ++ behind).takeBytes a = text.takeBytes a := by
  obtain ⟨before, middle, rest, rfl, rfl, rfl⟩ := exists_cut ha hb hab
  rw [takeBytes_append_add, takeBytes_append, List.append_assoc, takeBytes_append,
    takeBytes_append]

/-- A boundary inside the first of two pieces is one of both together. -/
theorem isBoundary_takeBytes_append {text : Text} (behind : Text) {a b : Nat}
    (ha : text.isBoundary a = true) (hb : text.isBoundary b = true) (hab : a ≤ b) :
    (text.takeBytes b ++ behind).isBoundary a = true := by
  obtain ⟨before, middle, rest, rfl, rfl, rfl⟩ := exists_cut ha hb hab
  rw [takeBytes_append_add, takeBytes_append, List.append_assoc]
  exact isBoundary_append before (middle ++ behind)

end Text

variable {source : Text} {edits : List Edit} {start : Nat}

theorem Edit.inBounds_iff {edit : Edit} : edit.inBounds source = true ↔ edit.start ≤ edit.stop
    ∧ edit.stop ≤ source.byteLength ∧ source.isBoundary edit.start = true
    ∧ source.isBoundary edit.stop = true := by
  simp [Edit.inBounds, and_assoc]

/-! ## Edits that can be applied together -/

theorem firstOutOfBounds_eq_none_iff {index : Nat} : firstOutOfBounds source index edits = none
    ↔ ∀ edit ∈ edits, edit.inBounds source = true := by
  induction edits generalizing index with
  | nil => simp [firstOutOfBounds]
  | cons edit rest ih =>
      simp only [firstOutOfBounds, List.forall_mem_cons]
      split
      · rename_i hbounds
        rw [ih]
        exact ⟨fun h => ⟨hbounds, h⟩, And.right⟩
      · rename_i hbounds
        exact ⟨nofun, fun h => absurd h.1 hbounds⟩

theorem firstOverlap_eq_none_iff {index : Nat} : firstOverlap index edits = none
    ↔ edits.Pairwise fun a b => a.overlaps b = false := by
  induction edits generalizing index with
  | nil => simp [firstOverlap]
  | cons edit rest ih =>
      rw [List.pairwise_cons, ← List.findIdx?_eq_none_iff]
      simp only [firstOverlap]
      split
      · rename_i distance hfound
        simp [hfound]
      · rename_i hnone
        rw [ih]
        exact ⟨fun h => ⟨hnone, h⟩, And.right⟩

/-- **Edits are accepted exactly if each is in bounds and no two of them overlap.** -/
theorem validateEdits_eq_ok_iff : validateEdits source edits = .ok ()
    ↔ (∀ edit ∈ edits, edit.inBounds source = true)
      ∧ edits.Pairwise fun a b => a.overlaps b = false := by
  rw [← @firstOutOfBounds_eq_none_iff source edits 0, ← @firstOverlap_eq_none_iff edits 0]
  unfold validateEdits
  cases hbounds : firstOutOfBounds source 0 edits with
  | some error => simp
  | none => cases hoverlap : firstOverlap 0 edits <;> simp

/-- Edits in the order in which they are applied: those that start last come first. -/
def inTurn (edits : List Edit) : List Edit := edits.mergeSort fun a b => b.start ≤ a.start

theorem inTurn_perm (edits : List Edit) : (inTurn edits).Perm edits := List.mergeSort_perm _ _

theorem turn_trans (a b c : Edit) (hab : decide (b.start ≤ a.start) = true)
    (hbc : decide (c.start ≤ b.start) = true) : decide (c.start ≤ a.start) = true := by
  simp only [decide_eq_true_eq] at hab hbc ⊢
  omega

theorem turn_total (a b : Edit) :
    (decide (b.start ≤ a.start) || decide (a.start ≤ b.start)) = true := by
  simp only [Bool.or_eq_true, decide_eq_true_eq]
  omega

/-- Edits with one start are applied in the order in which they are given. -/
theorem pairwise_inTurn (edits : List Edit) : (inTurn edits).Pairwise fun a b =>
    b.start ≤ a.start ∧ (a.start = b.start → [a, b].Sublist edits) := by
  have hstable := pairwise_mergeSort_stable turn_trans turn_total edits
  refine hstable.imp fun {a b} h => ⟨of_decide_eq_true h.1, fun heq => h.2 ?_⟩
  exact decide_eq_true (Nat.le_of_eq heq)

/-- Accepted edits are applied one by one, the last one first. -/
theorem applyEdits_of_validateEdits (h : validateEdits source edits = .ok ()) :
    applyEdits source edits
      = (inTurn edits).foldlM (fun text edit => edit.applyTo text) source := by
  simp only [applyEdits, h, bind, Except.bind]
  rfl

/-- Edits that are applied have been accepted. -/
theorem validateEdits_of_applyEdits {text : Text} (h : applyEdits source edits = .ok text) :
    validateEdits source edits = .ok () := by
  cases hvalid : validateEdits source edits with
  | error error => simp [applyEdits, hvalid, bind, Except.bind] at h
  | ok => rfl

/-! ## The text that they give -/

/-- One edit after another from the last one on, when all of them lie behind `start`: the range of
each is still in place when its turn comes. -/
theorem foldrM_applyTo (hbounds : ∀ edit ∈ edits, edit.inBounds source = true)
    (horder : edits.Pairwise fun a b => a.stop ≤ b.start) (hstart : source.isBoundary start = true)
    (hbehind : ∀ edit ∈ edits, start ≤ edit.start) :
    edits.foldrM (fun edit text => edit.applyTo text) source
      = .ok (source.takeBytes start ++ splicedFrom source start edits) := by
  induction edits generalizing start with
  | nil =>
      rw [splicedFrom, Text.takeBytes_append_dropBytes]
      rfl
  | cons edit rest ih =>
      rw [List.forall_mem_cons] at hbounds hbehind
      rw [List.pairwise_cons] at horder
      obtain ⟨hle, -, hfirst, hlast⟩ := Edit.inBounds_iff.mp hbounds.1
      have hrest := ih hbounds.2 horder.2 hlast horder.1
      have hlength := Text.byteLength_takeBytes hlast
      have hfits : edit.inBounds
          (source.takeBytes edit.stop ++ splicedFrom source edit.stop rest) = true := by
        refine Edit.inBounds_iff.mpr ⟨hle, ?_, Text.isBoundary_takeBytes_append _ hfirst hlast hle,
          Text.isBoundary_takeBytes_append _ hlast hlast (Nat.le_refl _)⟩
        rw [Text.byteLength_append, hlength]
        exact Nat.le_add_right _ _
      have hbefore := Text.takeBytes_takeBytes_append (splicedFrom source edit.stop rest) hfirst
        hlast hle
      have hafter : (source.takeBytes edit.stop ++ splicedFrom source edit.stop rest).dropBytes
          edit.stop = splicedFrom source edit.stop rest := by
        have hdrop := Text.dropBytes_append (source.takeBytes edit.stop)
          (splicedFrom source edit.stop rest)
        rwa [hlength] at hdrop
      rw [List.foldrM_cons, hrest]
      show edit.applyTo _ = _
      rw [Edit.applyTo, if_pos hfits, Edit.splice, hbefore, hafter, splicedFrom,
        ← Text.takeBytes_append_slice hstart hbehind.1]
      simp only [List.append_assoc]

/-- **Applying edits that come to lie one behind the other is writing the source from left to
right.** -/
theorem applyEdits_of_pairwise (h : validateEdits source edits = .ok ())
    (horder : (inTurn edits).reverse.Pairwise fun a b => a.stop ≤ b.start) :
    applyEdits source edits = .ok (splicedFrom source 0 (inTurn edits).reverse) := by
  have hbounds : ∀ edit ∈ (inTurn edits).reverse, edit.inBounds source = true := fun edit hedit =>
    (validateEdits_eq_ok_iff.mp h).1 edit
      ((inTurn_perm edits).mem_iff.mp (List.mem_reverse.mp hedit))
  have happly := foldrM_applyTo hbounds horder (Text.isBoundary_append [] source) (by simp)
  rw [List.foldrM_reverse, Text.byteLength_nil, Text.takeBytes_zero, List.nil_append] at happly
  rw [applyEdits_of_validateEdits h]
  exact happly

/-- The same of edits that are given in the order in which they lie. -/
theorem applyEdits_eq_splicedFrom (h : validateEdits source edits = .ok ())
    (hnonempty : ∀ edit ∈ edits, edit.start < edit.stop)
    (horder : edits.Pairwise fun a b => a.stop ≤ b.start) :
    applyEdits source edits = .ok (splicedFrom source 0 edits) := by
  have hstarts : edits.Pairwise fun a b => a.start < b.start :=
    horder.imp_of_mem fun {a b} ha _ hab => by
      have := hnonempty a ha
      omega
  have hdescending : edits.reverse.Pairwise fun a b => b.start ≤ a.start :=
    List.pairwise_reverse.mpr (hstarts.imp Nat.le_of_lt)
  have hreverse : inTurn edits = edits.reverse := by
    refine List.Perm.eq_of_pairwise (fun a b ha hb hab hba => ?_)
      ((pairwise_inTurn edits).imp And.left) hdescending
      ((inTurn_perm edits).trans (List.reverse_perm _).symm)
    have hnodup : (edits.map Edit.start).Nodup :=
      List.pairwise_map.mpr (hstarts.imp fun hlt => Nat.ne_of_lt hlt)
    exact List.inj_on_of_nodup_map hnodup ((inTurn_perm edits).mem_iff.mp ha)
      (List.mem_reverse.mp hb) (Nat.le_antisymm hba hab)
  have happly := applyEdits_of_pairwise h
  rw [hreverse, List.reverse_reverse] at happly
  exact happly horder

/-! ## What does not matter -/

/-- An edit without its description. -/
def Edit.bare (edit : Edit) : Edit := { edit with description := none }

theorem splicedFrom_map_bare (source : Text) (start : Nat) (edits : List Edit) :
    splicedFrom source start (edits.map Edit.bare) = splicedFrom source start edits := by
  induction edits generalizing start with
  | nil => rfl
  | cons edit rest ih => simp only [List.map_cons, splicedFrom, ih, Edit.bare]

theorem Edit.isNoop_iff {edit : Edit} : edit.isNoop source = true ↔ edit.start ≤ edit.stop
    ∧ source.isBoundary edit.start = true ∧ source.isBoundary edit.stop = true
    ∧ edit.replacement = source.slice edit.start edit.stop := by
  unfold Edit.isNoop Text.slice?
  split
  · rename_i hbounds
    simp only [Bool.and_eq_true, decide_eq_true_eq] at hbounds
    rw [beq_iff_eq, Option.some.injEq]
    exact ⟨fun h => ⟨hbounds.1.1, hbounds.1.2, hbounds.2, h.symm⟩, fun h => h.2.2.2.symm⟩
  · rename_i hbounds
    simp only [Bool.and_eq_true, decide_eq_true_eq, not_and] at hbounds
    constructor
    · intro h
      cases h
    · rintro ⟨hle, hstart, hstop, -⟩
      exact absurd hstop (hbounds ⟨hle, hstart⟩)

/-- Edits without effect give the source again. -/
theorem splicedFrom_of_isNoop (hnoop : ∀ edit ∈ edits, edit.isNoop source = true)
    (horder : edits.Pairwise fun a b => a.stop ≤ b.start) (hstart : source.isBoundary start = true)
    (hbehind : ∀ edit ∈ edits, start ≤ edit.start) :
    splicedFrom source start edits = source.dropBytes start := by
  induction edits generalizing start with
  | nil => rfl
  | cons edit rest ih =>
      rw [List.forall_mem_cons] at hnoop hbehind
      rw [List.pairwise_cons] at horder
      obtain ⟨hle, hfirst, hlast, hsame⟩ := Edit.isNoop_iff.mp hnoop.1
      rw [splicedFrom, ih hnoop.2 horder.2 hlast horder.1, hsame,
        Text.slice_append_slice hstart hfirst hbehind.1 hle,
        Text.slice_append_dropBytes hstart hlast (Nat.le_trans hbehind.1 hle)]

/-! ## Verified edits -/

variable {parses : Text → Bool} {text : Text}

/-- **A source that parses stays one** when edits are applied. -/
theorem applyVerified_ok (h : applyVerified parses source edits = .ok text)
    (hparses : parses source = true) : applyEdits source edits = .ok text ∧ parses text = true := by
  unfold applyVerified at h
  cases happly : applyEdits source edits with
  | error error => simp [happly, bind, Except.bind] at h
  | ok result =>
      cases hresult : parses result with
      | false =>
          simp [happly, hparses, hresult, bind, Except.bind, throw, throwThe,
            MonadExceptOf.throw] at h
      | true =>
          simp only [happly, hparses, hresult, bind, Except.bind, pure, Except.pure] at h
          cases h
          exact ⟨rfl, hresult⟩

/-- One edit in bounds is applied if its result parses. -/
theorem applyVerified_singleton {edit : Edit} (hbounds : edit.inBounds source = true)
    (hsplice : edit.splice source = text) (hparses : parses text = true) :
    applyVerified parses source [edit] = .ok text := by
  subst hsplice
  have hvalid : validateEdits source [edit] = .ok () := by
    simp [validateEdits, firstOutOfBounds, firstOverlap, hbounds]
  simp [applyVerified, applyEdits, Edit.applyTo, hbounds, hvalid, hparses, bind, Except.bind, pure,
    Except.pure]

end KeyOrder
