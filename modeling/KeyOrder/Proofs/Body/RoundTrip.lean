import KeyOrder.Evaluation
import KeyOrder.Proofs.Body.Ownership
import KeyOrder.Proofs.Order.Permutation
import Mathlib.Data.List.Forall2

/-!
# Comments round-trip

After the body of a list is put in order, the list is read off the new source and its comments are
attributed anew. **Every member gets back the leading and the trailing comments it had, and the end
of the body its own, exactly if the comments keep their owners** (`MemberList.KeepsOwners`), which is
decided by the line feeds of the old source.

What is compared are texts. That it comes down to the comments themselves is a matter of counting:
the new attribution shares out the same sequence of comments, so if every share has the right size,
it is the right share (`MemberComments.eq_of_flatMap_all`).
-/

namespace KeyOrder

namespace MemberComments

/-- The numbers of leading and of trailing comments. -/
def sizes (comments : MemberComments) : Nat × Nat :=
  (comments.leading.length, comments.trailing.length)

/-- Shares of one sequence of comments that agree in size are the same. -/
theorem eq_of_flatMap_all {a b : List MemberComments} {final final' : List Comment}
    (hsizes : a.map sizes = b.map sizes)
    (hflat : a.flatMap all ++ final = b.flatMap all ++ final') : a = b ∧ final = final' := by
  induction a generalizing b with
  | nil =>
      obtain rfl : b = [] := by simpa using hsizes.symm
      exact ⟨rfl, hflat⟩
  | cons x a ih =>
      cases b with
      | nil => simp at hsizes
      | cons y b =>
          simp only [List.map_cons, List.cons.injEq, sizes, Prod.mk.injEq] at hsizes
          simp only [List.flatMap_cons, all, List.append_assoc] at hflat
          obtain ⟨hleading, hflat⟩ := List.append_inj hflat hsizes.1.1
          obtain ⟨htrailing, hflat⟩ := List.append_inj hflat hsizes.1.2
          obtain ⟨rfl, hfinal⟩ := ih hsizes.2 hflat
          obtain rfl : x = y := by
            cases x
            cases y
            exact congrArg₂ MemberComments.mk hleading htrailing
          exact ⟨rfl, hfinal⟩

/-- The same leading and the same trailing comments, by their texts in two sources. -/
def SameTexts (fixed source : Text) (a b : MemberComments) : Prop :=
  (a.leading.map (·.span.text fixed)).Perm (b.leading.map (·.span.text source))
    ∧ (a.trailing.map (·.span.text fixed)).Perm (b.trailing.map (·.span.text source))

theorem map_sizes_of_sameTexts {fixed source : Text} {a b : List MemberComments}
    (h : List.Forall₂ (SameTexts fixed source) a b) : a.map sizes = b.map sizes := by
  induction h with
  | nil => rfl
  | @cons x y a b hxy _ ih =>
      have hleading := hxy.1.length_eq
      have htrailing := hxy.2.length_eq
      rw [List.length_map, List.length_map] at hleading htrailing
      rw [List.map_cons, List.map_cons, ih, sizes, sizes, hleading, htrailing]

end MemberComments

namespace MemberList

open Body Piece MemberComments

/-- **No comment changes owner** between a list in a source and a list in another source, whose
members are those of the first list in an order. -/
def SameOwners (list : MemberList) (source : Text) (order : List Nat) (list' : MemberList)
    (fixed : Text) : Prop :=
  List.Forall₂ (SameTexts fixed source) list'.shares (order.map list.commentsAt)
    ∧ (list'.trivia fixed).endComments.map (·.span.text fixed)
      = (list.trivia source).endComments.map (·.span.text source)

variable {list : MemberList} {source : Text} {cursor : Cursor} {index slot : Nat}
  {rest order : List Nat} {member : Member} {share : MemberComments}

/-! ## The comments at their new places -/

/-- The places inside a slot follow each other. -/
theorem slotPlaces_le {places : SlotPlaces}
    (hplaces : places = list.slotPlaces source cursor slot rest member share) :
    cursor.offset ≤ places.declaration.offset
      ∧ places.declaration.offset ≤ places.inner.offset
      ∧ places.inner.offset ≤ places.separator.offset
      ∧ places.separator.offset ≤ places.outer.offset
      ∧ places.outer.offset ≤ places.stop.offset := by
  subst hplaces
  refine ⟨Nat.le_trans (Cursor.offset_le_advance _ _) (Cursor.offset_le_advance _ _),
    Cursor.offset_le_advance _ _, Cursor.offset_le_advance _ _, Cursor.offset_le_advance _ _,
    Cursor.offset_le_advance _ _⟩

/-- Trailing comments stand between the declaration and the end of the slot. -/
theorem trailing_bounds {places : SlotPlaces}
    (hplaces : places = list.slotPlaces source cursor slot rest member share) {c : Comment}
    (hc : c ∈ (list.placedShare source places slot rest member share).trailing) :
    places.inner.offset ≤ c.span.start ∧ c.span.stop ≤ places.stop.offset := by
  obtain ⟨-, -, hinner, hseparator, houter⟩ := slotPlaces_le hplaces
  rcases List.mem_append.mp hc with hc | hc
  · obtain ⟨hstart, -⟩ := readComments_bounds hc
    obtain ⟨-, -, hstop, -⟩ := stop_le_of_mem_inner hplaces hc
    exact ⟨hstart, by omega⟩
  · obtain ⟨hstart, -, -, -, hstop, -⟩ := readComments_bounds hc
    rw [render_outerPieces, ← stop_eq_advance_outerText hplaces] at hstop
    exact ⟨by omega, hstop⟩

/-- **Every declaration stands between the comments written for it.** -/
theorem aligned_placedSlots (hlt : ∀ i ∈ order, i < list.members.length) {pending : List Comment}
    (hpending : ∀ c ∈ pending, c.span.start < cursor.offset)
    (hproper : ∀ entry ∈ list.placedSlots source cursor slot order,
      ∀ c ∈ entry.2.all, c.span.start < c.span.stop) :
    Aligned pending (list.placedSlots source cursor slot order)
      (list.placedEnd source cursor slot order) := by
  induction order generalizing cursor slot pending with
  | nil => trivial
  | cons index rest ih =>
      have hrest : ∀ i ∈ rest, i < list.members.length := fun i hi => hlt i (by simp [hi])
      obtain ⟨member, share, hm, hs⟩ := exists_of_lt (hlt index (by simp))
      obtain ⟨places, hplaces⟩ : ∃ places,
        places = list.slotPlaces source cursor slot rest member share := ⟨_, rfl⟩
      rw [placedSlots_cons hm hs, ← hplaces, List.forall_mem_cons] at hproper
      rw [placedSlots_cons hm hs, placedEnd_cons hm hs, ← hplaces]
      obtain ⟨hcursor, hinner, hseparator, houter, hstop⟩ := slotPlaces_le hplaces
      refine ⟨?_, ?_, ih hrest ?_ hproper.2⟩
      · intro c hc
        refine decide_eq_true ?_
        show c.span.start < places.declaration.offset
        rcases List.mem_append.mp hc with hc | hc
        · exact Nat.lt_of_lt_of_le (hpending c hc) hcursor
        · have hlen := hproper.1 c (List.mem_append_left _ hc)
          have hend := (readComments_bounds hc).2.2.2.2.1
          have hdeclaration : places.leading.advance (render source list
              (leadingPieces source member share)) = places.declaration := hplaces ▸ rfl
          rw [hdeclaration] at hend
          exact Nat.lt_of_lt_of_le hlen hend
      · intro c hc
        refine decide_eq_false ?_
        show ¬ c.span.start < places.declaration.offset
        rcases List.mem_append.mp hc with hc | hc
        · have hstart := (trailing_bounds hplaces hc).1
          omega
        · have hstart : places.stop.offset ≤ c.span.start := by
            rw [placedEnd, ← readComments_slots (slot + 1) hrest] at hc
            exact (readComments_bounds hc).1
          omega
      · intro c hc
        have hlen := hproper.1 c (List.mem_append_right _ hc)
        exact Nat.lt_of_lt_of_le hlen (trailing_bounds hplaces hc).2

/-- The comments written for a member say what its comments said. -/
theorem sameTexts_placedShare {fixed : Text} (hm : list.members[index]? = some member)
    (hs : list.shares[index]? = some share) {places : SlotPlaces}
    (hplaces : places = list.slotPlaces source cursor slot rest member share)
    (hfits : ∀ entry ∈ place source list cursor
      (list.slotPieces source (list.trivia source) slot index rest),
        entry.2.text fixed = entry.1.text source list) :
    SameTexts fixed source (list.placedShare source places slot rest member share) share := by
  rw [place_slotPieces hm hs, ← hplaces] at hfits
  simp only [List.forall_mem_cons, List.forall_mem_append] at hfits
  obtain ⟨-, hleading, -, hinner, -, houter⟩ := hfits
  refine ⟨?_, ?_⟩
  · rw [placedShare, texts_readComments hleading, map_fst_place, comments_leadingPieces]
  · rw [placedShare, List.map_append, texts_readComments hinner, texts_readComments houter,
      map_fst_place, map_fst_place, ← List.map_append]
    refine List.Perm.map _ (List.Perm.trans (List.Perm.of_eq ?_) share.trailingOf_perm)
    rw [innerPieces, outerPieces, List.filterMap_append, comments_spacedPieces,
      comments_spacedPieces, comments_linePieces, ← List.append_assoc, innerBlocks, outerBlocks]
    split
    · rw [List.append_nil]
    · rw [List.nil_append]

/-- **What is written for the members in the slots is what they had.** -/
theorem sameTexts_placedSlots {fixed : Text} (hlt : ∀ i ∈ order, i < list.members.length)
    (hfits : ∀ entry ∈ place source list cursor
      (list.slotsPieces source (list.trivia source) slot order),
        entry.2.text fixed = entry.1.text source list) :
    List.Forall₂ (SameTexts fixed source)
      ((list.placedSlots source cursor slot order).map Prod.snd) (order.map list.commentsAt) := by
  induction order generalizing cursor slot with
  | nil => exact List.Forall₂.nil
  | cons index rest ih =>
      obtain ⟨member, share, hm, hs⟩ := exists_of_lt (hlt index (by simp))
      rw [slotsPieces, place_append, List.forall_mem_append, ← stop_slotPlaces hm hs] at hfits
      rw [placedSlots_cons hm hs, List.map_cons, List.map_cons, commentsAt_eq hs]
      exact List.Forall₂.cons (sameTexts_placedShare hm hs rfl hfits.1)
        (ih (fun i hi => hlt i (by simp [hi])) hfits.2)

/-- The members in the slots are the members of the list at their new places. -/
theorem declarations_placedSlots {fixed : Text} (hlt : ∀ i ∈ order, i < list.members.length)
    (hfits : ∀ entry ∈ place source list cursor
      (list.slotsPieces source (list.trivia source) slot order),
        entry.2.text fixed = entry.1.text source list) :
    (list.placedSlots source cursor slot order).map
        (fun entry => (entry.1.name, entry.1.declaration.text fixed))
      = (order.filterMap (list.members[·]?)).map
        (fun member => (member.name, member.declaration.text source)) := by
  induction order generalizing cursor slot with
  | nil => rfl
  | cons index rest ih =>
      obtain ⟨member, share, hm, hs⟩ := exists_of_lt (hlt index (by simp))
      rw [slotsPieces, place_append, List.forall_mem_append, ← stop_slotPlaces hm hs] at hfits
      have hrest := ih (fun i hi => hlt i (by simp [hi])) hfits.2
      have hslot := hfits.1
      rw [place_slotPieces hm hs] at hslot
      simp only [List.forall_mem_cons, List.forall_mem_append] at hslot
      have hdeclaration := hslot.2.2.1
      simp only [Piece.text, hm, Option.map_some, Option.getD_some] at hdeclaration
      rw [placedSlots_cons hm hs, List.map_cons, hrest, List.filterMap_cons, hm, List.map_cons]
      exact congrArg (fun text => (member.name, text) :: _) hdeclaration

namespace WellFormed

variable (hp : order.Perm (List.range list.members.length))

include hp

theorem members_reread :
    (list.reread source order).members
      = (list.placedSlots source (list.bodyCursor source) 0 order).map Prod.fst :=
  readMembers_slots 0 (forall_lt_of_perm_range hp) (marks_tailPieces _)

theorem comments_reread :
    (list.reread source order).comments
      = sequence [] (list.placedSlots source (list.bodyCursor source) 0 order)
        (list.placedEnd source (list.bodyCursor source) 0 order) :=
  readComments_slots 0 (forall_lt_of_perm_range hp) _

/-- **The new attribution gives back what was written exactly if the comments keep their owners.** -/
theorem attach_reread_iff (h : list.WellFormed source) :
    attach none (list.reread source order).members (list.reread source order).comments
        = ((list.placedSlots source (list.bodyCursor source) 0 order).map Prod.snd,
          list.placedEnd source (list.bodyCursor source) 0 order)
      ↔ list.KeepsOwners source 0 order := by
  have hlt := forall_lt_of_perm_range hp
  have hproper : ∀ entry ∈ list.placedSlots source (list.bodyCursor source) 0 order,
      ∀ c ∈ entry.2.all, c.span.start < c.span.stop := by
    intro entry he c hc
    refine ((h.inOrder_reread hp).properComments c ?_).1
    rw [comments_reread hp]
    exact List.mem_append_right _ (List.mem_append_left _ (List.mem_flatMap.mpr ⟨entry, he, hc⟩))
  rw [members_reread hp, comments_reread hp]
  cases order with
  | nil => exact iff_of_true rfl trivial
  | cons index rest =>
      obtain ⟨member, share, hm, hs⟩ := exists_of_lt (hlt index (by simp))
      have haligned := aligned_placedSlots hlt (List.forall_mem_nil _) hproper
      have hne : list.placedSlots source (list.bodyCursor source) 0 (index :: rest) ≠ [] := by
        rw [placedSlots_cons hm hs]
        exact List.cons_ne_nil _ _
      have hattach := attach_sequence_iff hne none haligned
      rw [unclaimed_none, stays_placedSlots_iff h (fun i hi => hlt i (by simp [hi])) none [] hm hs
        (fun entry he c hc => hproper entry he c (List.mem_append_right _ hc)) rfl] at hattach
      simpa [leads] using hattach

/-- **No comment changes owner exactly if the comments keep their owners.** -/
theorem sameOwners_reread_iff (h : list.WellFormed source) :
    list.SameOwners source order (list.reread source order) (list.rewritten source order)
      ↔ list.KeepsOwners source 0 order := by
  have hlt := forall_lt_of_perm_range hp
  have hfits : ∀ entry ∈ list.placed source order,
      entry.2.text (list.rewritten source order) = entry.1.text source list :=
    fun entry he => (h.placed_fits he).2
  rw [placed, pieces, place_append, List.forall_mem_append] at hfits
  have hslots := sameTexts_placedSlots hlt hfits.1
  have hend : (list.placedEnd source (list.bodyCursor source) 0 order).map
        (·.span.text (list.rewritten source order))
      = (list.trivia source).endComments.map (·.span.text source) := by
    rw [placedEnd, texts_readComments hfits.2, map_fst_place, tailPieces, comments_commentRun]
  rw [← attach_reread_iff hp h]
  constructor
  · rintro ⟨hshares, -⟩
    have hsizes := (map_sizes_of_sameTexts hshares).trans (map_sizes_of_sameTexts hslots).symm
    have hflat := attach_flatMap none (h.inOrder_reread hp)
    have hwritten : (list.reread source order).comments
        = ((list.placedSlots source (list.bodyCursor source) 0 order).map Prod.snd).flatMap all
          ++ list.placedEnd source (list.bodyCursor source) 0 order := by
      rw [comments_reread hp, List.flatMap_map]
      rfl
    rw [unclaimed_none, List.nil_append] at hflat
    obtain ⟨hshares, hfinal⟩ := eq_of_flatMap_all hsizes (hflat.trans hwritten)
    exact Prod.ext hshares hfinal
  · intro hattach
    refine ⟨?_, ?_⟩
    · rw [shares, hattach]
      exact hslots
    · show ((attach none (list.reread source order).members
        (list.reread source order).comments).2).map _ = _
      rw [hattach]
      exact hend

/-- **The list in the new source has the same members and comments**, the members in their new
order. -/
theorem texts_reread (h : list.WellFormed source) :
    (list.reread source order).members.map
        (fun member => (member.name, member.declaration.text (list.rewritten source order)))
      = (order.filterMap (list.members[·]?)).map
        (fun member => (member.name, member.declaration.text source))
    ∧ ((list.reread source order).comments.map (·.span.text (list.rewritten source order))).Perm
      (list.comments.map (·.span.text source)) := by
  have hfits : ∀ entry ∈ list.placed source order,
      entry.2.text (list.rewritten source order) = entry.1.text source list :=
    fun entry he => (h.placed_fits he).2
  have hcomments : (list.reread source order).comments.map
        (·.span.text (list.rewritten source order))
      = ((list.pieces source order).filterMap comment?).map (·.span.text source) := by
    have htexts := texts_readComments hfits
    rwa [placed, map_fst_place] at htexts
  refine ⟨?_, ?_⟩
  · rw [placed, pieces, place_append, List.forall_mem_append] at hfits
    rw [members_reread hp, List.map_map]
    exact declarations_placedSlots (forall_lt_of_perm_range hp) hfits.1
  · rw [hcomments]
    exact (comments_pieces h.inOrder hp).map _

end WellFormed

/-- What a successful evaluation says about the new body. -/
theorem evaluate_ok {options : SortOptions} {evaluation : Evaluation}
    (h : options.evaluate source list = .ok evaluation) :
    evaluation.plan = options.plan list.members
      ∧ ∀ text, evaluation.replacement = some text →
          text = list.rebuildBody source (list.trivia source) evaluation.plan.sorted := by
  unfold SortOptions.evaluate at h
  cases hcheck : list.checkRanges source with
  | error error =>
      rw [hcheck] at h
      cases h
  | ok =>
      rw [hcheck] at h
      cases h
      refine ⟨rfl, fun text htext => ?_⟩
      simp only [SortOptions.computeEvaluation] at htext
      split at htext
      · cases htext
      · exact (Option.some.inj htext).symm

/-- **When comments round-trip.** If the evaluation of a well-formed list has a new body, the list
that is read off the source with that body is well-formed, has the same members in the planned order
and the same comments, and no comment has changed owner exactly if the comments keep their owners. -/
theorem sameOwners_iff_keepsOwners {options : SortOptions} {evaluation : Evaluation} {text : Text}
    (h : list.WellFormed source) (heval : options.evaluate source list = .ok evaluation)
    (htext : evaluation.replacement = some text) :
    let fixed := Edit.splice
      { start := list.bodyStart, stop := list.bodyStop, replacement := text } source
    let list' := list.reread source evaluation.plan.sorted
    list'.WellFormed fixed
      ∧ list'.members.map (fun member => (member.name, member.declaration.text fixed))
        = (evaluation.plan.sorted.filterMap (list.members[·]?)).map
          (fun member => (member.name, member.declaration.text source))
      ∧ (list'.comments.map (·.span.text fixed)).Perm (list.comments.map (·.span.text source))
      ∧ (list.SameOwners source evaluation.plan.sorted list' fixed
        ↔ list.KeepsOwners source 0 evaluation.plan.sorted) := by
  obtain ⟨hplan, hbody⟩ := evaluate_ok heval
  obtain rfl := hbody text htext
  have hp : evaluation.plan.sorted.Perm (List.range list.members.length) := by
    rw [hplan]
    exact Plan.sorted_ofMembers_perm _ _ _
  obtain ⟨hmembers, hcomments⟩ := h.texts_reread hp
  exact ⟨h.reread_wellFormed hp, hmembers, hcomments, h.sameOwners_reread_iff hp⟩

/-! ## Two lists with their members in the wrong order -/

/-- Two members named `b` and `a` change places. -/
theorem plan_swapped {first second : Member} (hfirst : first.name = some "b")
    (hsecond : second.name = some "a") : ({} : SortOptions).plan [first, second] = ⟨[1, 0]⟩ := by
  have hgt : ({} : SortOptions).compareNames "b" "a" = .gt := by decide +kernel
  have hfirst' : Plan.nameAt [first, second] 0 = some "b" := hfirst
  have hsecond' : Plan.nameAt [first, second] 1 = some "a" := hsecond
  have hnamed : [0, 1].filter (Plan.namedAt [first, second]) = [0, 1] := by
    simp [Plan.namedAt, hfirst', hsecond']
  have hsort : ([0, 1].mergeSort fun a b => compareOptional ({} : SortOptions).compareNames
      (Plan.nameAt [first, second] a) (Plan.nameAt [first, second] b) != .gt) = [1, 0] := by
    simp [List.mergeSort, List.MergeSort.Internal.splitInTwo, hfirst', hsecond', compareOptional,
      hgt]
  show Plan.mk (Plan.fillSlots (Plan.namedAt [first, second]) [0, 1]
    (([0, 1].filter (Plan.namedAt [first, second])).mergeSort _)) = _
  rw [hnamed, hsort]
  simp [Plan.fillSlots, Plan.namedAt, hfirst', hsecond']

/-- Their evaluation has a new body. -/
theorem evaluate_swapped (list : MemberList) (source : Text)
    (hcheck : list.checkRanges source = .ok ())
    (hplan : ({} : SortOptions).plan list.members = ⟨[1, 0]⟩)
    (hcount : (Plan.select ⟨[1, 0]⟩ list.members).count ≠ 0) :
    ∃ evaluation, ({} : SortOptions).evaluate source list = .ok evaluation
      ∧ evaluation.plan.sorted = [1, 0]
      ∧ evaluation.replacement = some (list.rebuildBody source (list.trivia source) [1, 0]) := by
  refine ⟨({} : SortOptions).computeEvaluation source list, ?_, ?_, ?_⟩
  · rw [SortOptions.evaluate, hcheck]
    rfl
  · rw [SortOptions.computeEvaluation, hplan]
  · rw [SortOptions.computeEvaluation, hplan, if_neg hcount]

/-- In `sample` no comment changes owner. -/
theorem sameOwners_sample :
    ∃ evaluation, ({} : SortOptions).evaluate sampleSource sample = .ok evaluation
      ∧ evaluation.replacement = some "a;\n/*h*/b//c\n/*e*/".toList
      ∧ sample.WellFormed sampleSource
      ∧ sample.SameOwners sampleSource evaluation.plan.sorted
        (sample.reread sampleSource evaluation.plan.sorted)
        (Edit.splice { start := sample.bodyStart, stop := sample.bodyStop
                       replacement := "a;\n/*h*/b//c\n/*e*/".toList } sampleSource) := by
  have hwf : sample.WellFormed sampleSource := by decide +kernel
  have hbody : sample.rebuildBody sampleSource (sample.trivia sampleSource) [1, 0]
      = "a;\n/*h*/b//c\n/*e*/".toList := by decide +kernel
  have hkeeps : sample.KeepsOwners sampleSource 0 [1, 0] := by decide +kernel
  obtain ⟨evaluation, heval, hsorted, htext⟩ :=
    evaluate_swapped sample sampleSource rfl (plan_swapped rfl rfl) (by decide +kernel)
  rw [hbody] at htext
  refine ⟨evaluation, heval, htext, hwf, ?_⟩
  exact (sameOwners_iff_keepsOwners hwf heval htext).2.2.2.mpr (hsorted ▸ hkeeps)

/-- A body whose first member has a leading comment on the row of the opening brace. -/
def headedSource : Text := "interface U \x7b /* h */\n  b: T; a: T; \x7d".toList

/-- The members and the comment of `headedSource`. -/
def headed : MemberList where
  kind := .interface
  opening := ⟨12, 13, 0, 0⟩
  closing := ⟨36, 37, 1, 1⟩
  parent := ⟨0, 37, 0, 1⟩
  members :=
    [{ kind := .property, name := some "b", optional := false
       declaration := ⟨24, 28, 1, 1⟩, terminator := some ⟨28, 29, 1, 1⟩ },
     { kind := .property, name := some "a", optional := false
       declaration := ⟨30, 34, 1, 1⟩, terminator := some ⟨34, 35, 1, 1⟩ }]
  comments := [⟨.block, ⟨14, 21, 0, 0⟩⟩]
  stringValued := false

/-- In order, the comment of `headed` stands behind the other member, on the row of its separator
and above its own member, and trails the other one. -/
theorem leading_comment_changes_owner :
    ∃ evaluation, ({} : SortOptions).evaluate headedSource headed = .ok evaluation
      ∧ evaluation.replacement = some " a: T; /* h */\n  b: T; ".toList
      ∧ headed.WellFormed headedSource
      ∧ ¬ headed.SameOwners headedSource evaluation.plan.sorted
        (headed.reread headedSource evaluation.plan.sorted)
        (Edit.splice { start := headed.bodyStart, stop := headed.bodyStop
                       replacement := " a: T; /* h */\n  b: T; ".toList } headedSource) := by
  have hwf : headed.WellFormed headedSource := by decide +kernel
  have hbody : headed.rebuildBody headedSource (headed.trivia headedSource) [1, 0]
      = " a: T; /* h */\n  b: T; ".toList := by decide +kernel
  have hkeeps : ¬ headed.KeepsOwners headedSource 0 [1, 0] := by decide +kernel
  obtain ⟨evaluation, heval, hsorted, htext⟩ :=
    evaluate_swapped headed headedSource rfl (plan_swapped rfl rfl) (by decide +kernel)
  rw [hbody] at htext
  refine ⟨evaluation, heval, htext, hwf, ?_⟩
  rw [hsorted, ← hbody]
  exact fun hsame => hkeeps ((hwf.sameOwners_reread_iff (by decide)).mp hsame)

end MemberList

end KeyOrder
