import KeyOrder.Proofs.Body.Recovery
import KeyOrder.Proofs.Body.Reread

/-!
# Comments keep their owners

In the member list that is read off a rebuilt body, comments are attributed anew, by the rows and
separators of the new text. **When every member gets back the comments that were written for it** is
decided slot by slot (`MemberList.KeepsOwners`), by where line feeds are written: the comments behind
the last token of a member have to begin on the row of that token, since otherwise they lead the next
member or belong to the end; and the leading comments of the next member, or the comments of the end,
have to begin on a later row, since otherwise they trail this one.
-/

namespace KeyOrder

namespace Body

open Piece

/-- **Comments that all begin on the row on which the first stands** when they are written one
after another: no line feed is written in front of any of them, and none but the last is a line
comment or spans rows. -/
def StaysOnRow (source : Text) : List Comment → Prop
  | [] => True
  | [last] => '\n' ∉ source.blankBefore last.span.start
  | first :: next :: rest =>
    first.kind = .block ∧ '\n' ∉ spacedComment source first ∧ StaysOnRow source (next :: rest)

instance decidableStaysOnRow (source : Text) :
    (comments : List Comment) → Decidable (StaysOnRow source comments)
  | [] => inferInstanceAs (Decidable True)
  | [_] => inferInstanceAs (Decidable (¬ _))
  | _ :: next :: rest =>
    have := decidableStaysOnRow source (next :: rest)
    inferInstanceAs (Decidable (_ ∧ _ ∧ _))

variable {source : Text} {list : MemberList} {cursor : Cursor}

theorem readComments_spaced (c : Comment) (rest : List Piece) :
    readComments (place source list cursor (spacedPieces source c ++ rest))
      = ⟨c.kind, (cursor.advance (source.blankBefore c.span.start)).spanOf (c.span.text source)⟩ ::
        readComments (place source list (cursor.advance (spacedComment source c)) rest) := by
  rw [spacedComment, Cursor.advance_append]
  rfl

/-- Line comments begin on the row of the cursor only if there is no second one: in front of that
one a line feed is written. -/
theorem startRow_linePieces_iff {lineEnd following : Text} {lines : List Comment}
    (hend : '\n' ∈ lineEnd) (hlines : ∀ c ∈ lines, c.kind = .line) :
    (∀ c ∈ readComments (place source list cursor (linePieces source lineEnd following lines)),
        c.span.startRow = cursor.row) ↔ StaysOnRow source lines := by
  match lines with
  | [] => simp [linePieces, place, readComments, StaysOnRow]
  | [last] =>
      have hnone : readComments (place source list (cursor.advance (spacedComment source last))
          [.blank (if following.contains '\n' then [] else lineEnd)]) = [] := rfl
      rw [linePieces, readComments_spaced, List.forall_mem_cons, hnone]
      exact (and_iff_left (List.forall_mem_nil _)).trans cursor.row_advance_eq_iff
  | first :: next :: rest =>
      have hkind : first.kind = .line := hlines first List.mem_cons_self
      refine iff_of_false ?_ fun hstays => by simp [StaysOnRow, hkind] at hstays
      intro hall
      -- the white space in front of the second comment has a line feed, or one is added
      let gap := if (source.blankBefore next.span.start).contains '\n' then [] else lineEnd
      have hfeed : '\n' ∈ gap ++ source.blankBefore next.span.start := by
        by_cases hblank : '\n' ∈ source.blankBefore next.span.start
        · exact List.mem_append_right _ hblank
        · simp [gap, hblank, hend]
      have hsecond : ⟨next.kind, (((cursor.advance (spacedComment source first)).advance
            gap).advance (source.blankBefore next.span.start)).spanOf (next.span.text source)⟩
          ∈ readComments (place source list cursor
            (linePieces source lineEnd following (first :: next :: rest))) := by
        rw [linePieces, readComments_spaced, place, readComments_cons_blank]
        refine List.mem_cons_of_mem _ ?_
        cases rest <;> rw [linePieces, readComments_spaced] <;> exact List.mem_cons_self
      have hrow : ((cursor.advance (spacedComment source first)).advance
          (gap ++ source.blankBefore next.span.start)).row = cursor.row := by
        rw [Cursor.advance_append]
        exact hall _ hsecond
      have hle := cursor.row_le_advance (spacedComment source first)
      have hlt := (cursor.advance (spacedComment source first)).row_lt_advance_iff.mpr hfeed
      omega

/-- Where the comments behind the last token of a member begin on its row. -/
theorem startRow_outer_iff {lineEnd following : Text} {blocks lines : List Comment}
    (hend : '\n' ∈ lineEnd) (hlines : ∀ c ∈ lines, c.kind = .line)
    (hblocks : ∀ c ∈ blocks, c.kind = .block) :
    (∀ c ∈ readComments (place source list cursor
          (blocks.flatMap (spacedPieces source) ++ linePieces source lineEnd following lines)),
        c.span.startRow = cursor.row) ↔ StaysOnRow source (blocks ++ lines) := by
  induction blocks generalizing cursor with
  | nil => exact startRow_linePieces_iff hend hlines
  | cons first blocks ih =>
      have hkind : first.kind = .block := hblocks first List.mem_cons_self
      have hrec := @ih (cursor.advance (spacedComment source first))
        fun c hc => hblocks c (List.mem_cons_of_mem _ hc)
      rw [List.flatMap_cons, List.append_assoc, readComments_spaced, List.forall_mem_cons,
        List.cons_append]
      have hlength := length_readComments source list (cursor.advance (spacedComment source first))
        (blocks.flatMap (spacedPieces source) ++ linePieces source lineEnd following lines)
      rw [List.filterMap_append, comments_spacedPieces, comments_linePieces] at hlength
      have hfirst : (⟨first.kind, (cursor.advance (source.blankBefore first.span.start)).spanOf
          (first.span.text source)⟩ : Comment).span.startRow = cursor.row
            ↔ '\n' ∉ source.blankBefore first.span.start := cursor.row_advance_eq_iff
      rw [hfirst]
      cases hrest : blocks ++ lines with
      | nil =>
          rw [hrest, List.length_nil, List.length_eq_zero_iff] at hlength
          rw [hlength]
          exact and_iff_left (List.forall_mem_nil _)
      | cons next rest =>
          rw [StaysOnRow, ← hrest, ← hrec]
          constructor
          · rintro ⟨-, hall⟩
            -- some comment follows, and it begins behind the first one
            obtain ⟨c, hc⟩ := List.exists_mem_of_length_pos (by rw [hlength, hrest]; simp)
            have hsame : (cursor.advance (spacedComment source first)).row = cursor.row :=
              Nat.le_antisymm (hall c hc ▸ (readComments_bounds hc).2.1) (cursor.row_le_advance _)
            exact ⟨hkind, cursor.row_advance_eq_iff.mp hsame, fun c hc => hsame ▸ hall c hc⟩
          · rintro ⟨-, hfeed, hall⟩
            have hsame := cursor.row_advance_eq_iff.mpr hfeed
            refine ⟨fun hblank => hfeed (List.mem_append_left _ hblank), fun c hc => ?_⟩
            rw [hall c hc, hsame]

/-- Behind trailing line comments a line feed follows, written with them or as part of `following`. -/
theorem exists_linePieces_eq (source following : Text) {lineEnd : Text} {lines : List Comment}
    (hend : '\n' ∈ lineEnd) (hne : lines ≠ []) :
    ∃ front gap, linePieces source lineEnd following lines = front ++ [.blank gap]
      ∧ '\n' ∈ gap ++ following := by
  fun_induction linePieces source lineEnd following lines with
  | case1 => exact absurd rfl hne
  | case2 last =>
      refine ⟨_, _, rfl, ?_⟩
      by_cases hfeed : '\n' ∈ following
      · exact List.mem_append_right _ hfeed
      · simp [hfeed, hend]
  | case3 first next rest ih =>
      obtain ⟨front, gap, heq, hfeed⟩ := ih (List.cons_ne_nil _ _)
      rw [heq, ← List.cons_append, ← List.append_assoc]
      exact ⟨_, gap, rfl, hfeed⟩

/-- Hence line comments end on an earlier row than what comes behind `following`. -/
theorem endRow_linePieces_lt {lineEnd following : Text} {lines : List Comment}
    (hend : '\n' ∈ lineEnd) {c : Comment}
    (hc : c ∈ readComments (place source list cursor (linePieces source lineEnd following lines))) :
    c.span.endRow < (cursor.advance
      (render source list (linePieces source lineEnd following lines) ++ following)).row := by
  have hne : lines ≠ [] := by
    rintro rfl
    cases hc
  obtain ⟨front, gap, heq, hfeed⟩ := exists_linePieces_eq source following hend hne
  have hgap : render source list [.blank gap] = gap := List.append_nil gap
  rw [heq, place_append, readComments_append, List.mem_append] at hc
  rcases hc with hc | hc
  · obtain ⟨-, -, -, -, -, hle⟩ := readComments_bounds hc
    have hlt := (cursor.advance (render source list front)).row_lt_advance_iff.mpr hfeed
    rw [heq, render_append, hgap, List.append_assoc, Cursor.advance_append]
    exact Nat.lt_of_le_of_lt hle hlt
  · cases hc

end Body

namespace MemberList

open Body Piece

/-! ## What has to be written for comments to keep their owners -/

/-- The comments of the member at an index. -/
def commentsAt (list : MemberList) (index : Nat) : MemberComments :=
  list.shares[index]?.getD ⟨[], []⟩

/-- The leading comments of the member at an index as they are written. -/
def leadingTextAt (list : MemberList) (source : Text) (index : Nat) : Text :=
  (list.members[index]?.map fun member =>
    leadingText source member (list.commentsAt index)).getD []

/-- The comments written behind the last token of a member. -/
def outerComments (list : MemberList) (rest : List Nat) (share : MemberComments) : List Comment :=
  list.outerBlocks rest share ++ share.trailingOf .line

/-- The text written behind the last token of a member in a slot. -/
def outerText (list : MemberList) (source : Text) (slot : Nat) (rest : List Nat)
    (share : MemberComments) : Text :=
  (list.outerBlocks rest share).flatMap (spacedComment source)
    ++ lineComments source (list.body source).lineEnd
      (list.followingText source (list.trivia source) slot rest) (share.trailingOf .line)

/-- **The comments keep their owners**, from `slot` on: where line feeds are written leaves every
comment on the side of the member it was written for. -/
def KeepsOwners (list : MemberList) (source : Text) (slot : Nat) : List Nat → Prop
  | [] => True
  | [index] =>
    -- what trails the last member begins on its last row, and the comments of the end below it
    StaysOnRow source (list.outerComments [] (list.commentsAt index))
      ∧ ∀ first ∈ (list.trivia source).endComments.head?,
          '\n' ∈ list.outerText source slot [] (list.commentsAt index)
            ++ source.slice (list.trivia source).tailStart first.span.start
  | index :: next :: rest =>
    -- what trails a member begins on the row of its separator; what leads the next one begins
    -- below it, or on the row of the next declaration
    StaysOnRow source (list.outerComments (next :: rest) (list.commentsAt index))
      ∧ ((list.commentsAt next).leading = []
        ∨ '\n' ∈ list.outerText source slot (next :: rest) (list.commentsAt index)
          ++ (list.trivia source).indentation source (slot + 1)
        ∨ '\n' ∉ list.leadingTextAt source next)
      ∧ list.KeepsOwners source (slot + 1) (next :: rest)

instance decidableKeepsOwners (list : MemberList) (source : Text) :
    (slot : Nat) → (order : List Nat) → Decidable (list.KeepsOwners source slot order)
  | _, [] => inferInstanceAs (Decidable True)
  | _, [_] => inferInstanceAs (Decidable (_ ∧ _))
  | slot, _ :: next :: rest =>
    have := decidableKeepsOwners list source (slot + 1) (next :: rest)
    inferInstanceAs (Decidable (_ ∧ _ ∧ _))

variable {list : MemberList} {source : Text} {cursor : Cursor} {index slot : Nat}
  {rest : List Nat} {member : Member} {share : MemberComments}

theorem render_outerPieces :
    render source list (list.outerPieces source slot rest share)
      = list.outerText source slot rest share := by
  rw [outerPieces, render_append, render_blockPieces, render_linePieces, outerText]

section Slot

variable {places : SlotPlaces}
  (hplaces : places = list.slotPlaces source cursor slot rest member share)

include hplaces

/-- The last token of a member ends where what is written behind it begins. -/
theorem lastToken_placedMember :
    (list.placedMember source places rest member).lastToken.stop = places.outer.offset
      ∧ (list.placedMember source places rest member).lastToken.endRow = places.outer.row := by
  subst hplaces
  unfold placedMember slotPlaces Member.lastToken innerPieces innerBlocks separatorPieces
  by_cases hsep : list.writesSeparator rest = true
  · simp only [hsep, if_true]
    exact ⟨rfl, rfl⟩
  · simp only [if_neg hsep]
    exact ⟨rfl, rfl⟩

/-- Inner comments are written in front of a separator. -/
theorem stop_le_of_mem_inner {c : Comment}
    (hc : c ∈ readComments (place source list places.inner (list.innerPieces source rest share))) :
    list.writesSeparator rest = true ∧ c.span.start ≤ c.span.stop
      ∧ c.span.stop ≤ places.separator.offset ∧ places.separator.offset < places.outer.offset := by
  obtain ⟨-, -, hle, -, hstop, -⟩ := readComments_bounds hc
  have hsep : list.writesSeparator rest = true := by
    by_contra hsep
    rw [innerPieces, innerBlocks, if_neg hsep] at hc
    cases hc
  subst hplaces
  refine ⟨hsep, hle, hstop, ?_⟩
  show _ < Cursor.offset (Cursor.advance _ _)
  rw [Cursor.offset_advance, separatorPieces, if_pos hsep]
  exact Nat.lt_add_of_pos_right (Char.utf8Size_pos _)

theorem stop_eq_advance_outerText :
    places.stop = places.outer.advance (list.outerText source slot rest share) := by
  subst hplaces
  rw [← render_outerPieces]
  rfl

end Slot

/-- The comments behind the last token of a member begin on its row exactly if they stay on it. -/
theorem startRow_outerPieces_iff (cursor : Cursor) (slot : Nat) :
    (∀ c ∈ readComments (place source list cursor (list.outerPieces source slot rest share)),
        c.span.startRow = cursor.row) ↔ StaysOnRow source (list.outerComments rest share) := by
  refine startRow_outer_iff (Text.mem_lineEnd _) (fun c hc => MemberComments.kind_of_mem_trailingOf hc) ?_
  intro c hc
  unfold outerBlocks at hc
  split at hc
  · cases hc
  · exact MemberComments.kind_of_mem_trailingOf hc

section Between

variable {next : Nat} {places places' : SlotPlaces} {member' : Member} {share' : MemberComments}
  {rest' : List Nat}
  (hplaces : places = list.slotPlaces source cursor slot (next :: rest) member share)
  (hplaces' : places' = list.slotPlaces source places.stop (slot + 1) rest' member' share')

include hplaces hplaces'

theorem leading_eq_advance :
    places'.leading = places.outer.advance (list.outerText source slot (next :: rest) share
      ++ (list.trivia source).indentation source (slot + 1)) := by
  rw [Cursor.advance_append, ← stop_eq_advance_outerText hplaces, hplaces']
  rfl

/-- What is written behind the last token of a member stands above the next slot. -/
theorem endRow_outer_lt {c : Comment} (hc : c ∈ readComments
      (place source list places.outer (list.outerPieces source slot (next :: rest) share))) :
    c.span.endRow < places'.leading.row := by
  have hblocks : list.outerBlocks (next :: rest) share = [] := rfl
  rw [leading_eq_advance hplaces hplaces', ← render_outerPieces]
  unfold outerPieces at hc ⊢
  rw [hblocks, List.flatMap_nil, List.nil_append] at hc ⊢
  exact endRow_linePieces_lt (Text.mem_lineEnd _) hc

/-- **What trails a member does not lead the next one** exactly if it begins on the row of the
separator: it stands above the next declaration anyway. -/
theorem trailing_leads_iff :
    (∀ c ∈ (list.placedShare source places slot (next :: rest) member share).trailing,
        MemberComments.leads (some (list.placedMember source places (next :: rest) member))
          (list.placedMember source places' rest' member') c = false)
      ↔ StaysOnRow source (list.outerComments (next :: rest) share) := by
  obtain ⟨hstop, hrow⟩ := lastToken_placedMember hplaces
  have hdeclaration : places'.leading.row
      ≤ (list.placedMember source places' rest' member').declaration.startRow := by
    subst hplaces'
    exact Cursor.row_le_advance _ _
  rw [← startRow_outerPieces_iff places.outer slot]
  simp only [Bool.eq_false_iff, ne_eq, MemberComments.leads_iff, hstop, hrow]
  constructor
  · intro hall c hc
    have hnot := hall c (List.mem_append_right _ hc)
    have habove := endRow_outer_lt hplaces hplaces' hc
    obtain ⟨hoffset, hlow, -, hrows, -⟩ := readComments_bounds hc
    omega
  · intro hall c hc
    rcases List.mem_append.mp hc with hc | hc
    · have hinner := stop_le_of_mem_inner hplaces hc
      omega
    · have hsame := hall c hc
      have habove := endRow_outer_lt hplaces hplaces' hc
      obtain ⟨-, -, -, hrows, -⟩ := readComments_bounds hc
      omega

/-- **What leads a member leads it again** exactly if it begins below the separator of the member
before, or on the row of the declaration. -/
theorem leading_leads_iff
    (hleading : render source list (leadingPieces source member' share')
      = leadingText source member' share') :
    (∀ c ∈ (list.placedShare source places' (slot + 1) rest' member' share').leading,
        MemberComments.leads (some (list.placedMember source places (next :: rest) member))
          (list.placedMember source places' rest' member') c = true)
      ↔ share'.leading = []
        ∨ '\n' ∈ list.outerText source slot (next :: rest) share
          ++ (list.trivia source).indentation source (slot + 1)
        ∨ '\n' ∉ leadingText source member' share' := by
  obtain ⟨hstop, hrow⟩ := lastToken_placedMember hplaces
  have hbelow := leading_eq_advance hplaces hplaces'
  have hoffset : places.outer.offset ≤ places'.leading.offset := by
    rw [hbelow]
    exact Cursor.offset_le_advance _ _
  have hfeed : places.outer.row < places'.leading.row
      ↔ '\n' ∈ list.outerText source slot (next :: rest) share
        ++ (list.trivia source).indentation source (slot + 1) := by
    rw [hbelow]
    exact places.outer.row_lt_advance_iff
  have hdeclaration : (list.placedMember source places' rest' member').declaration.startRow
      = (places'.leading.advance (leadingText source member' share')).row := by
    rw [← hleading]
    subst hplaces'
    rfl
  have hsame : (places'.leading.advance (leadingText source member' share')).row
      = places'.leading.row ↔ '\n' ∉ leadingText source member' share' :=
    places'.leading.row_advance_eq_iff
  rw [← hfeed, ← hsame]
  simp only [MemberComments.leads_iff, hstop, hrow, hdeclaration]
  constructor
  · intro hall
    cases hl : share'.leading with
    | nil => exact .inl rfl
    | cons first others =>
        have hfirst : ⟨first.kind, places'.leading.spanOf (first.span.text source)⟩
            ∈ (list.placedShare source places' (slot + 1) rest' member' share').leading := by
          simp only [placedShare, leadingPieces, hl]
          exact List.mem_cons_self
        rcases (hall _ hfirst).2 with heq | hlt
        · exact .inr (.inr heq.symm)
        · exact .inr (.inl hlt)
  · intro hcases c hc
    obtain ⟨hstart, hlow, -, hrows, -, hhigh⟩ := readComments_bounds hc
    rw [hleading] at hhigh
    refine ⟨Nat.le_trans hoffset hstart, ?_⟩
    rcases hcases with hnil | hlt | heq
    · simp only [placedShare, leadingPieces, hnil] at hc
      cases hc
    · exact .inr (Nat.lt_of_lt_of_le hlt hlow)
    · exact .inl (by omega)

end Between

section Last

variable {places : SlotPlaces}
  (hplaces : places = list.slotPlaces source cursor slot [] member share)

include hplaces

theorem trailsLast_placedMember_iff {c : Comment} :
    MemberComments.trailsLast (list.placedMember source places [] member) c = true
      ↔ (list.writesSeparator [] = true ∧ c.span.start < places.separator.offset)
        ∨ c.span.startRow = places.outer.row := by
  obtain ⟨-, hrow⟩ := lastToken_placedMember hplaces
  unfold MemberComments.trailsLast
  rw [hrow, Bool.or_eq_true, beq_iff_eq, placedMember]
  by_cases hsep : list.writesSeparator [] = true
  · simp [hsep, Cursor.spanOf]
  · simp [hsep]

/-- Behind the last token of the last member only the row counts. -/
theorem trailsLast_of_outer_le {c : Comment} (hc : places.outer.offset ≤ c.span.start) :
    MemberComments.trailsLast (list.placedMember source places [] member) c = true
      ↔ c.span.startRow = places.outer.row := by
  rw [trailsLast_placedMember_iff hplaces]
  refine or_iff_right ?_
  rintro ⟨-, hlt⟩
  have hle : places.separator.offset ≤ places.outer.offset := by
    subst hplaces
    exact Cursor.offset_le_advance _ _
  omega

/-- What trails the last member trails it again exactly if it begins on its last row. -/
theorem trailing_trailsLast_iff
    (hproper : ∀ c ∈ (list.placedShare source places slot [] member share).trailing,
      c.span.start < c.span.stop) :
    (∀ c ∈ (list.placedShare source places slot [] member share).trailing,
        MemberComments.trailsLast (list.placedMember source places [] member) c = true)
      ↔ StaysOnRow source (list.outerComments [] share) := by
  rw [← startRow_outerPieces_iff places.outer slot]
  constructor
  · intro hall c hc
    have htrails := hall c (List.mem_append_right _ hc)
    exact (trailsLast_of_outer_le hplaces (readComments_bounds hc).1).mp htrails
  · intro hall c hc
    rcases List.mem_append.mp hc with hin | hout
    · obtain ⟨hsep, -, hstop, -⟩ := stop_le_of_mem_inner hplaces hin
      exact (trailsLast_placedMember_iff hplaces).mpr
        (.inl ⟨hsep, Nat.lt_of_lt_of_le (hproper c hc) hstop⟩)
    · exact (trailsLast_of_outer_le hplaces (readComments_bounds hout).1).mpr (hall c hout)

/-- The comments of the end belong to it again exactly if the first of them begins below the last
row of the last member. -/
theorem final_trailsLast_iff :
    (∀ c ∈ (readComments (place source list places.stop
          (list.tailPieces source (list.trivia source)))).head?,
        MemberComments.trailsLast (list.placedMember source places [] member) c = false)
      ↔ ∀ first ∈ (list.trivia source).endComments.head?,
          '\n' ∈ list.outerText source slot [] share
            ++ source.slice (list.trivia source).tailStart first.span.start := by
  cases hend : (list.trivia source).endComments with
  | nil => simp [tailPieces, hend, commentRun, place, readComments, comment?]
  | cons first others =>
      let gap := source.slice (list.trivia source).tailStart first.span.start
      have hhead : (readComments (place source list places.stop
            (list.tailPieces source (list.trivia source)))).head?
          = some ⟨first.kind, (places.stop.advance gap).spanOf (first.span.text source)⟩ := by
        rw [tailPieces, hend, commentRun]
        rfl
      have hbelow : places.stop.advance gap
          = places.outer.advance (list.outerText source slot [] share ++ gap) := by
        rw [Cursor.advance_append, ← stop_eq_advance_outerText hplaces]
      rw [hhead, hbelow]
      simp only [List.head?_cons, Option.mem_some_iff, forall_eq']
      rw [Bool.eq_false_iff, ne_eq, trailsLast_of_outer_le hplaces (Cursor.offset_le_advance _ _)]
      exact (not_congr places.outer.row_advance_eq_iff).trans Classical.not_not

end Last

/-! ## Slot by slot -/

theorem commentsAt_eq (hs : list.shares[index]? = some share) : list.commentsAt index = share := by
  rw [commentsAt, hs, Option.getD_some]

theorem leadingTextAt_eq (hm : list.members[index]? = some member)
    (hs : list.shares[index]? = some share) :
    list.leadingTextAt source index = leadingText source member share := by
  rw [leadingTextAt, hm, Option.map_some, Option.getD_some, commentsAt_eq hs]

/-- The comments of the end at their new places, behind slots that are written at a cursor. -/
def placedEnd (list : MemberList) (source : Text) (cursor : Cursor) (slot : Nat)
    (order : List Nat) : List Comment :=
  readComments (place source list (cursor.advance (render source list
    (list.slotsPieces source (list.trivia source) slot order)))
    (list.tailPieces source (list.trivia source)))

theorem placedEnd_cons (hm : list.members[index]? = some member)
    (hs : list.shares[index]? = some share) :
    list.placedEnd source cursor slot (index :: rest)
      = list.placedEnd source (list.slotPlaces source cursor slot rest member share).stop
          (slot + 1) rest := by
  rw [placedEnd, advance_slotsPieces hm hs, placedEnd]

/-- **Every comment stays on its side exactly if the comments keep their owners.** The induction is
on the slots; what is asked of the first one depends on what stands in front of it. -/
theorem stays_placedSlots_iff (h : list.WellFormed source)
    (hlt : ∀ i ∈ rest, i < list.members.length) (previous : Option Member)
    (pending : List Comment) (hm : list.members[index]? = some member)
    (hs : list.shares[index]? = some share)
    (hproper : ∀ entry ∈ list.placedSlots source cursor slot (index :: rest),
      ∀ c ∈ entry.2.trailing, c.span.start < c.span.stop)
    {places : SlotPlaces} (hplaces : places = list.slotPlaces source cursor slot rest member share) :
    MemberComments.Stays previous pending (list.placedSlots source cursor slot (index :: rest))
        (list.placedEnd source cursor slot (index :: rest))
      ↔ ((∀ c ∈ pending, MemberComments.leads previous
              (list.placedMember source places rest member) c = false)
          ∧ ∀ c ∈ (list.placedShare source places slot rest member share).leading,
              MemberComments.leads previous (list.placedMember source places rest member) c = true)
        ∧ list.KeepsOwners source slot (index :: rest) := by
  rw [placedSlots_cons hm hs, placedEnd_cons hm hs, ← hplaces]
  rw [placedSlots_cons hm hs, ← hplaces, List.forall_mem_cons] at hproper
  induction rest generalizing cursor slot index previous pending member share places with
  | nil =>
      rw [placedSlots, MemberComments.Stays, KeepsOwners, commentsAt_eq hs,
        trailing_trailsLast_iff hplaces hproper.1, ← final_trailsLast_iff hplaces]
      rfl
  | cons next rest ih =>
      obtain ⟨member', share', hm', hs'⟩ := exists_of_lt (hlt next List.mem_cons_self)
      have hproper' := hproper.2
      rw [placedSlots_cons hm' hs', List.forall_mem_cons] at hproper'
      have hrec := ih (fun i hi => hlt i (List.mem_cons_of_mem _ hi))
        (some (list.placedMember source places (next :: rest) member))
        (list.placedShare source places slot (next :: rest) member share).trailing hm' hs' hproper'
        rfl
      rw [placedSlots_cons hm' hs', placedEnd_cons hm' hs', MemberComments.Stays, hrec,
        KeepsOwners, commentsAt_eq hs, commentsAt_eq hs', leadingTextAt_eq hm' hs',
        trailing_leads_iff hplaces rfl,
        leading_leads_iff hplaces rfl (h.render_leadingPieces hm' hs')]
      exact and_congr_right fun _ => and_assoc

end MemberList

end KeyOrder
