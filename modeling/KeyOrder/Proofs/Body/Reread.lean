import KeyOrder.Proofs.Body.Placement

/-!
# The member list of a rebuilt body

The members and comments of a body rebuilt in an order, as they are read off the new source: the
same declarations, separators and comments at their new places. Slot by slot, what is read is the
member of the slot with the comments that were written for it (`placedSlots`).
-/

namespace KeyOrder

theorem mem_or_eq_of_mem_intersperse {α : Type} {a separator : α} {l : List α}
    (h : a ∈ l.intersperse separator) : a ∈ l ∨ a = separator := by
  induction l with
  | nil => simp at h
  | cons b rest ih =>
      cases rest with
      | nil => exact .inl (by simpa using h)
      | cons c rest =>
          rw [List.intersperse_cons_cons] at h
          rcases List.mem_cons.mp h with rfl | h
          · exact .inl List.mem_cons_self
          · rcases List.mem_cons.mp h with rfl | h
            · exact .inr rfl
            · exact (ih h).imp_left (List.mem_cons_of_mem _)

namespace MemberList

open Body Piece

/-- Trailing block comments that are written in front of a separator. -/
def innerBlocks (list : MemberList) (rest : List Nat) (share : MemberComments) : List Comment :=
  if list.writesSeparator rest then share.trailingOf .block else []

/-- Trailing block comments of a member that gets no separator. -/
def outerBlocks (list : MemberList) (rest : List Nat) (share : MemberComments) : List Comment :=
  if list.writesSeparator rest then [] else share.trailingOf .block

/-- What is written between a declaration and its separator. -/
def innerPieces (list : MemberList) (source : Text) (rest : List Nat) (share : MemberComments) :
    List Piece :=
  (list.innerBlocks rest share).flatMap (spacedPieces source)

/-- What is written behind the last token of a member in a slot. -/
def outerPieces (list : MemberList) (source : Text) (slot : Nat) (rest : List Nat)
    (share : MemberComments) : List Piece :=
  (list.outerBlocks rest share).flatMap (spacedPieces source)
    ++ linePieces source (list.body source).lineEnd
      (list.followingText source (list.trivia source) slot rest) (share.trailingOf .line)

/-- The places inside a slot that gets a member. -/
structure SlotPlaces where
  /-- Behind the white space in front of the slot. -/
  leading : Cursor
  declaration : Cursor
  /-- Behind the declaration. -/
  inner : Cursor
  separator : Cursor
  /-- Behind the separator, or behind the declaration if there is none. -/
  outer : Cursor
  stop : Cursor

/-- The places inside a slot that is written at a cursor. -/
def slotPlaces (list : MemberList) (source : Text) (cursor : Cursor) (slot : Nat)
    (rest : List Nat) (member : Member) (share : MemberComments) : SlotPlaces :=
  let leading := cursor.advance ((list.trivia source).indentation source slot)
  let declaration := leading.advance (render source list (leadingPieces source member share))
  let inner := declaration.advance (member.declaration.text source)
  let separator := inner.advance (render source list (list.innerPieces source rest share))
  let outer := separator.advance (render source list (list.separatorPieces rest))
  let stop := outer.advance (render source list (list.outerPieces source slot rest share))
  { leading, declaration, inner, separator, outer, stop }

/-- A member at its new place. -/
def placedMember (list : MemberList) (source : Text) (places : SlotPlaces) (rest : List Nat)
    (member : Member) : Member :=
  { member with
    declaration := places.declaration.spanOf (member.declaration.text source)
    terminator :=
      if list.writesSeparator rest then some (places.separator.spanOf [list.kind.separator])
      else none }

/-- The comments of a member at their new places, in the order in which they are written. -/
def placedShare (list : MemberList) (source : Text) (places : SlotPlaces) (slot : Nat)
    (rest : List Nat) (member : Member) (share : MemberComments) : MemberComments where
  leading := readComments (place source list places.leading (leadingPieces source member share))
  trailing :=
    readComments (place source list places.inner (list.innerPieces source rest share))
    ++ readComments (place source list places.outer (list.outerPieces source slot rest share))

/-- The members in the slots from `slot` on, with the comments that are written for them. -/
def placedSlots (list : MemberList) (source : Text) :
    Cursor → Nat → List Nat → List (Member × MemberComments)
  | _, _, [] => []
  | cursor, slot, index :: rest =>
    match list.members[index]?, list.shares[index]? with
    | some member, some share =>
      let places := list.slotPlaces source cursor slot rest member share
      (list.placedMember source places rest member,
        list.placedShare source places slot rest member share) ::
          list.placedSlots source places.stop (slot + 1) rest
    | _, _ => list.placedSlots source cursor (slot + 1) rest

variable {list : MemberList} {source : Text} {cursor : Cursor} {index : Nat} {member : Member}
  {share : MemberComments}

theorem placedSlots_cons (hm : list.members[index]? = some member)
    (hs : list.shares[index]? = some share) (slot : Nat) (rest : List Nat) :
    list.placedSlots source cursor slot (index :: rest)
      = (list.placedMember source (list.slotPlaces source cursor slot rest member share) rest member,
          list.placedShare source (list.slotPlaces source cursor slot rest member share) slot rest
            member share) ::
        list.placedSlots source (list.slotPlaces source cursor slot rest member share).stop
          (slot + 1) rest := by
  rw [placedSlots]
  simp only [hm, hs]

/-- What stands behind a declaration: comments, the separator, comments. -/
theorem trailingPieces_eq (slot : Nat) (rest : List Nat) :
    trailingPieces source (list.body source).lineEnd (list.separatorPieces rest)
        (list.followingText source (list.trivia source) slot rest) share
      = list.innerPieces source rest share
        ++ (list.separatorPieces rest ++ list.outerPieces source slot rest share) := by
  unfold trailingPieces innerPieces outerPieces innerBlocks outerBlocks separatorPieces
  cases list.writesSeparator rest <;> simp

/-- **The pieces of a slot at their places**: white space, leading comments, the declaration, inner
comments, the separator and outer comments. -/
theorem place_slotPieces (hm : list.members[index]? = some member)
    (hs : list.shares[index]? = some share) (slot : Nat) (rest : List Nat) :
    place source list cursor (list.slotPieces source (list.trivia source) slot index rest)
      = (.blank ((list.trivia source).indentation source slot),
          cursor.spanOf ((list.trivia source).indentation source slot)) ::
        (place source list (list.slotPlaces source cursor slot rest member share).leading
            (leadingPieces source member share)
          ++ (.declaration index, (list.slotPlaces source cursor slot rest member
              share).declaration.spanOf (member.declaration.text source)) ::
            (place source list (list.slotPlaces source cursor slot rest member share).inner
                (list.innerPieces source rest share)
              ++ (place source list (list.slotPlaces source cursor slot rest member share).separator
                  (list.separatorPieces rest)
                ++ place source list (list.slotPlaces source cursor slot rest member share).outer
                  (list.outerPieces source slot rest share)))) := by
  have htext : Piece.text source list (.declaration index) = member.declaration.text source := by
    simp [Piece.text, hm]
  rw [slotPieces_eq hm hs, place, place_append, place, htext, trailingPieces_eq, place_append,
    place_append]
  rfl

theorem marks_innerPieces (rest : List Nat) :
    (list.innerPieces source rest share).filter isMark = [] :=
  marks_spacedPieces _ _

theorem marks_outerPieces (slot : Nat) (rest : List Nat) :
    (list.outerPieces source slot rest share).filter isMark = [] := by
  rw [outerPieces, List.filter_append, marks_spacedPieces, marks_linePieces, List.append_nil]

theorem readMembers_separatorPieces (rest : List Nat) (behind : List (Piece × Span)) :
    readMembers list.members (place source list cursor (list.separatorPieces rest) ++ behind)
      = readMembers list.members behind := by
  unfold separatorPieces
  split <;> rfl

theorem readComments_separatorPieces (rest : List Nat) :
    readComments (place source list cursor (list.separatorPieces rest)) = [] := by
  unfold separatorPieces
  split <;> rfl

/-- The separator behind the member of a slot is found in front of the next declaration. -/
theorem separatorSpan?_slot (member : Member) (slot : Nat) (rest : List Nat)
    {behind : List (Piece × Span)} (hlast : rest = [] → separatorSpan? behind = none)
    (places : SlotPlaces) :
    separatorSpan? (place source list places.inner (list.innerPieces source rest share)
        ++ (place source list places.separator (list.separatorPieces rest)
          ++ (place source list places.outer (list.outerPieces source slot rest share) ++ behind)))
      = (list.placedMember source places rest member).terminator := by
  rw [separatorSpan?_place_append (marks_innerPieces _)]
  unfold separatorPieces placedMember
  by_cases hsep : list.writesSeparator rest = true
  · simp only [hsep, if_true]
    rfl
  · rw [if_neg hsep, if_neg hsep, place, List.nil_append,
      separatorSpan?_place_append (marks_outerPieces _ _)]
    refine hlast ?_
    cases rest with
    | nil => rfl
    | cons next rest => simp [writesSeparator] at hsep

/-- What is read off the pieces of a slot. -/
theorem readMembers_slot (hm : list.members[index]? = some member)
    (hs : list.shares[index]? = some share) (slot : Nat) (rest : List Nat)
    {behind : List (Piece × Span)} (hlast : rest = [] → separatorSpan? behind = none) :
    readMembers list.members (place source list cursor
        (list.slotPieces source (list.trivia source) slot index rest) ++ behind)
      = list.placedMember source (list.slotPlaces source cursor slot rest member share) rest member ::
        readMembers list.members behind := by
  rw [place_slotPieces hm hs]
  simp only [List.cons_append, List.append_assoc]
  rw [readMembers_cons_blank, readMembers_place_append (marks_leadingPieces _ _ _), readMembers]
  simp only [hm]
  rw [separatorSpan?_slot member slot rest hlast, readMembers_place_append (marks_innerPieces _),
    readMembers_separatorPieces, readMembers_place_append (marks_outerPieces _ _)]
  rfl

theorem readComments_slot (hm : list.members[index]? = some member)
    (hs : list.shares[index]? = some share) (slot : Nat) (rest : List Nat) :
    readComments (place source list cursor
        (list.slotPieces source (list.trivia source) slot index rest))
      = (list.placedShare source (list.slotPlaces source cursor slot rest member share) slot rest
          member share).all := by
  rw [place_slotPieces hm hs]
  simp only [readComments_cons_blank, readComments_append, readComments_cons_declaration,
    readComments_separatorPieces, List.nil_append, MemberComments.all, placedShare]

/-- The tokens of the member that is read off a slot. -/
theorem marks_slot (hm : list.members[index]? = some member)
    (hs : list.shares[index]? = some share) (slot : Nat) (rest : List Nat) :
    ((place source list cursor (list.slotPieces source (list.trivia source) slot index rest)).filter
        (·.1.isMark)).map Prod.snd
      = (list.placedMember source (list.slotPlaces source cursor slot rest member share) rest
          member).tokens := by
  rw [place_slotPieces hm hs]
  simp only [List.filter_cons, List.filter_append, filter_isMark_place (marks_leadingPieces _ _ _),
    filter_isMark_place (marks_innerPieces _), filter_isMark_place (marks_outerPieces _ _),
    List.nil_append, List.append_nil]
  unfold separatorPieces placedMember Member.tokens
  by_cases hsep : list.writesSeparator rest = true
  · simp only [hsep, if_true]
    rfl
  · rw [if_neg hsep, if_neg hsep]
    rfl

/-- A slot ends where its pieces do. -/
theorem stop_slotPlaces (hm : list.members[index]? = some member)
    (hs : list.shares[index]? = some share) (slot : Nat) (rest : List Nat) :
    (list.slotPlaces source cursor slot rest member share).stop
      = cursor.advance (render source list
          (list.slotPieces source (list.trivia source) slot index rest)) := by
  have htext : Piece.text source list (.declaration index) = member.declaration.text source := by
    simp [Piece.text, hm]
  rw [slotPieces_eq hm hs]
  rw [trailingPieces_eq]
  simp only [render_cons, render_append, htext, Cursor.advance_append]
  rfl

variable {order : List Nat}

/-- The place behind the slots. -/
theorem advance_slotsPieces (hm : list.members[index]? = some member)
    (hs : list.shares[index]? = some share) (slot : Nat) (rest : List Nat) :
    cursor.advance (render source list
        (list.slotsPieces source (list.trivia source) slot (index :: rest)))
      = (list.slotPlaces source cursor slot rest member share).stop.advance (render source list
          (list.slotsPieces source (list.trivia source) (slot + 1) rest)) := by
  rw [slotsPieces, render_append, Cursor.advance_append, stop_slotPlaces hm hs]

theorem place_slotsPieces (hm : list.members[index]? = some member)
    (hs : list.shares[index]? = some share) (slot : Nat) (rest : List Nat) (tail : List Piece) :
    place source list cursor
        (list.slotsPieces source (list.trivia source) slot (index :: rest) ++ tail)
      = place source list cursor (list.slotPieces source (list.trivia source) slot index rest)
        ++ place source list (list.slotPlaces source cursor slot rest member share).stop
          (list.slotsPieces source (list.trivia source) (slot + 1) rest ++ tail) := by
  rw [slotsPieces, List.append_assoc, place_append, stop_slotPlaces hm hs]

/-- **The members that are read are the members of the slots.** -/
theorem readMembers_slots (slot : Nat) (hlt : ∀ index ∈ order, index < list.members.length)
    {tail : List Piece} (htail : tail.filter isMark = []) :
    readMembers list.members (place source list cursor
        (list.slotsPieces source (list.trivia source) slot order ++ tail))
      = (list.placedSlots source cursor slot order).map Prod.fst := by
  induction order generalizing cursor slot with
  | nil => exact readMembers_place htail
  | cons index rest ih =>
      obtain ⟨member, share, hm, hs⟩ := exists_of_lt (hlt index (by simp))
      rw [place_slotsPieces hm hs, placedSlots_cons hm hs, readMembers_slot hm hs,
        ih _ fun i hi => hlt i (by simp [hi]), List.map_cons]
      rintro rfl
      exact separatorSpan?_place htail

/-- The comments that are read are those written for the members, and the tail's. -/
theorem readComments_slots (slot : Nat) (hlt : ∀ index ∈ order, index < list.members.length)
    (tail : List Piece) :
    readComments (place source list cursor
        (list.slotsPieces source (list.trivia source) slot order ++ tail))
      = (list.placedSlots source cursor slot order).flatMap (·.2.all)
        ++ readComments (place source list (cursor.advance (render source list
          (list.slotsPieces source (list.trivia source) slot order))) tail) := by
  induction order generalizing cursor slot with
  | nil => rfl
  | cons index rest ih =>
      obtain ⟨member, share, hm, hs⟩ := exists_of_lt (hlt index (by simp))
      rw [place_slotsPieces hm hs, placedSlots_cons hm hs, readComments_append,
        readComments_slot hm hs, ih _ fun i hi => hlt i (by simp [hi]), List.flatMap_cons,
        advance_slotsPieces hm hs, List.append_assoc]

/-- The tokens of the members that are read are the declarations and separators among the pieces. -/
theorem marks_slots (slot : Nat) (hlt : ∀ index ∈ order, index < list.members.length)
    {tail : List Piece} (htail : tail.filter isMark = []) :
    ((place source list cursor
        (list.slotsPieces source (list.trivia source) slot order ++ tail)).filter
          (·.1.isMark)).map Prod.snd
      = memberTokens ((list.placedSlots source cursor slot order).map Prod.fst) := by
  induction order generalizing cursor slot with
  | nil =>
      rw [slotsPieces, List.nil_append, filter_isMark_place htail]
      rfl
  | cons index rest ih =>
      obtain ⟨member, share, hm, hs⟩ := exists_of_lt (hlt index (by simp))
      rw [place_slotsPieces hm hs, placedSlots_cons hm hs, List.filter_append, List.map_append,
        marks_slot hm hs, ih _ fun i hi => hlt i (by simp [hi]), List.map_cons, memberTokens_cons]

/-! ## The list in the new source -/

/-- The start of the body. -/
def bodyCursor (list : MemberList) (source : Text) : Cursor :=
  Cursor.origin.advance (source.takeBytes list.bodyStart)

/-- The pieces of the rebuilt body at their places. -/
def placed (list : MemberList) (source : Text) (order : List Nat) : List (Piece × Span) :=
  place source list (list.bodyCursor source) (list.pieces source order)

/-- **The member list of the source in which the body is rebuilt in an order**: the same
declarations, separators and comments at their new places, and what stands behind the body moved
along. -/
def reread (list : MemberList) (source : Text) (order : List Nat) : MemberList :=
  let stop := (list.bodyCursor source).advance
    (list.rebuildBody source (list.trivia source) order)
  let behind := stop.advance (source.slice list.bodyStop list.parent.stop)
  { list with
    closing := stop.spanOf (list.closing.text source)
    parent := { list.parent with stop := behind.offset, endRow := behind.row }
    members := readMembers list.members (list.placed source order)
    comments := readComments (list.placed source order) }

/-- The source with the body rebuilt in an order. -/
def rewritten (list : MemberList) (source : Text) (order : List Nat) : Text :=
  Edit.splice
    { start := list.bodyStart, stop := list.bodyStop
      replacement := list.rebuildBody source (list.trivia source) order } source

namespace WellFormed

theorem rewritten_eq (h : list.WellFormed source) (order : List Nat) :
    list.rewritten source order = source.takeBytes list.bodyStart
      ++ (render source list (list.pieces source order) ++ source.dropBytes list.bodyStop) := by
  rw [h.render_pieces, rewritten, Edit.splice, List.append_assoc]

/-- **Every piece is found at its place in the new source.** -/
theorem placed_fits (h : list.WellFormed source) {entry : Piece × Span} (he : entry ∈ list.placed source order) :
    entry.2.Fits (list.rewritten source order)
      ∧ entry.2.text (list.rewritten source order) = entry.1.text source list := by
  rw [h.rewritten_eq]
  exact place_fits he

/-- A declaration, a separator or a comment among the pieces says something. -/
theorem text_piece_ne_nil (h : list.WellFormed source)
    (hp : order.Perm (List.range list.members.length)) {piece : Piece}
    (hmem : piece ∈ list.pieces source order) (htoken : piece.isToken = true) :
    piece.text source list ≠ [] := by
  cases piece with
  | blank text => cases htoken
  | separator => exact List.cons_ne_nil _ _
  | comment c =>
      have hc : c ∈ list.comments := (comments_pieces h.inOrder hp).subset
        (List.mem_filterMap.mpr ⟨_, hmem, rfl⟩)
      exact h.text_ne_nil (comment_mem_tokens hc)
  | declaration index =>
      have hmark : .declaration index ∈ (list.pieces source order).filter isMark :=
        List.mem_filter.mpr ⟨hmem, rfl⟩
      rw [marks_pieces hp] at hmark
      have hindex : index ∈ order := by
        rcases List.mem_append.mp hmark with hmark | hmark
        · rcases mem_or_eq_of_mem_intersperse hmark with hmark | hmark
          · simpa using hmark
          · cases hmark
        · split at hmark <;> simp at hmark
      obtain ⟨member, share, hm, -⟩ := exists_of_lt (forall_lt_of_perm_range hp index hindex)
      simp only [Piece.text, hm, Option.map_some, Option.getD_some]
      exact h.text_ne_nil (token_mem_tokens (List.mem_of_getElem? hm)
        member.declaration_mem_tokens)

/-- Hence it takes up a proper span. -/
theorem placed_proper (h : list.WellFormed source)
    (hp : order.Perm (List.range list.members.length)) {piece : Piece} {span : Span}
    (he : (piece, span) ∈ list.placed source order) (htoken : piece.isToken = true) :
    span.Proper := by
  obtain ⟨-, -, -, hrow, -⟩ := place_bounds he
  have htext := (h.placed_fits he).2
  have hne := h.text_piece_ne_nil hp (mem_of_mem_place he) htoken
  refine ⟨Nat.lt_of_not_le fun hle => hne ?_, hrow⟩
  rw [← htext, Span.text, Text.slice_eq_nil hle]

theorem memberTokens_reread (hp : order.Perm (List.range list.members.length)) :
    memberTokens (list.reread source order).members
      = ((list.placed source order).filter (·.1.isMark)).map Prod.snd := by
  have hlt := forall_lt_of_perm_range hp
  show memberTokens (readMembers list.members (list.placed source order)) = _
  rw [placed, pieces, readMembers_slots 0 hlt (marks_tailPieces _),
    marks_slots 0 hlt (marks_tailPieces _)]

theorem mem_memberTokens_reread (hp : order.Perm (List.range list.members.length)) {token : Span} :
    token ∈ memberTokens (list.reread source order).members ↔
      ∃ piece, (piece, token) ∈ list.placed source order ∧ piece.isMark = true := by
  simp [memberTokens_reread hp]

theorem inOrder_reread (h : list.WellFormed source)
    (hp : order.Perm (List.range list.members.length)) :
    InOrder (list.reread source order).members (list.reread source order).comments where
  proper := by
    intro token ht
    obtain ⟨piece, he, hmark⟩ := (mem_memberTokens_reread hp).mp ht
    exact h.placed_proper hp he (isToken_of_isMark hmark)
  properComments := by
    intro comment hc
    obtain ⟨c, he, -⟩ := mem_readComments.mp hc
    exact h.placed_proper hp he rfl
  membersFollow := by
    rw [memberTokens_reread hp, List.pairwise_map]
    exact (place_pairwise _).sublist List.filter_sublist
  commentsFollow := by
    show (readComments (list.placed source order)).Pairwise _
    rw [readComments, List.pairwise_filterMap]
    refine (place_pairwise _).imp ?_
    intro a b hab comment hc comment' hc'
    obtain ⟨_, -, rfl⟩ := Option.map_eq_some_iff.mp hc
    obtain ⟨_, -, rfl⟩ := Option.map_eq_some_iff.mp hc'
    exact hab
  apart := by
    intro token ht comment hc
    obtain ⟨piece, he, hmark⟩ := (mem_memberTokens_reread hp).mp ht
    obtain ⟨c, hc, -⟩ := mem_readComments.mp hc
    refine place_apart he hc ?_
    rintro ⟨rfl, -⟩
    cases hmark

theorem offset_bodyCursor (h : list.WellFormed source) :
    (list.bodyCursor source).offset = list.bodyStart := by
  show 0 + (source.takeBytes list.bodyStart).byteLength = list.bodyStart
  rw [Nat.zero_add, Text.byteLength_takeBytes h.start]

theorem bodyStop_reread (h : list.WellFormed source) :
    (list.reread source order).bodyStop
      = ((list.bodyCursor source).advance (render source list (list.pieces source order))).offset := by
  rw [h.render_pieces]
  rfl

/-- The tokens of the list in the new source are the pieces that are no white space. -/
theorem mem_tokens_reread (hp : order.Perm (List.range list.members.length)) {token : Span} :
    token ∈ (list.reread source order).tokens ↔
      ∃ piece, (piece, token) ∈ list.placed source order ∧ piece.isToken = true := by
  rw [tokens, List.mem_append, mem_memberTokens_reread hp, List.mem_map]
  constructor
  · rintro (⟨piece, he, hmark⟩ | ⟨comment, hc, rfl⟩)
    · exact ⟨piece, he, isToken_of_isMark hmark⟩
    · obtain ⟨c, he, -⟩ := mem_readComments.mp hc
      exact ⟨_, he, rfl⟩
  · rintro ⟨piece, he, htoken⟩
    cases piece with
    | blank text => cases htoken
    | separator => exact .inl ⟨_, he, rfl⟩
    | declaration index => exact .inl ⟨_, he, rfl⟩
    | comment c => exact .inr ⟨{ c with span := token }, mem_readComments.mpr ⟨c, he, rfl⟩, rfl⟩

/-- **The list in the new source is well-formed.** -/
theorem reread_wellFormed (h : list.WellFormed source)
    (hp : order.Perm (List.range list.members.length)) :
    (list.reread source order).WellFormed (list.rewritten source order) where
  inOrder := h.inOrder_reread hp
  braces := by
    rw [h.bodyStop_reread, Cursor.offset_advance, h.offset_bodyCursor]
    exact Nat.le_add_right _ _
  start := by
    have hbound := Text.isBoundary_append (source.takeBytes list.bodyStart)
      (render source list (list.pieces source order) ++ source.dropBytes list.bodyStop)
    rw [Text.byteLength_takeBytes h.start, ← h.rewritten_eq] at hbound
    exact hbound
  stop := by
    rw [h.rewritten_eq, h.bodyStop_reread, ← List.append_assoc]
    have hlen : ((list.bodyCursor source).advance (render source list
          (list.pieces source order))).offset
        = (source.takeBytes list.bodyStart
            ++ render source list (list.pieces source order)).byteLength := by
      rw [Cursor.offset_advance, h.offset_bodyCursor, Text.byteLength_append,
        Text.byteLength_takeBytes h.start]
    rw [hlen]
    exact Text.isBoundary_append _ _
  inside := by
    intro token ht
    obtain ⟨piece, he, -⟩ := (mem_tokens_reread hp).mp ht
    obtain ⟨hstart, -, -, -, hstop, -⟩ := place_bounds he
    rw [h.offset_bodyCursor] at hstart
    rw [h.bodyStop_reread]
    exact ⟨hstart, hstop⟩
  fits := by
    intro token ht
    obtain ⟨piece, he, -⟩ := (mem_tokens_reread hp).mp ht
    exact (h.placed_fits he).1
  blank := by
    intro n hstop hstart hn hfree
    rw [h.bodyStop_reread] at hstop
    have hlo : (list.bodyCursor source).offset ≤ n := by
      rw [h.offset_bodyCursor]
      exact hstart
    obtain ⟨⟨piece, span⟩, he, hfrom, hto⟩ := exists_place_of_offset hlo hstop
    obtain ⟨⟨hbound, hbound', -⟩, htext⟩ := h.placed_fits he
    -- the piece at `n` is white space, for any other is a token
    cases piece with
    | blank text =>
        have hblank := h.blank_pieces hp (mem_of_mem_place he)
        intro c hc
        refine hblank c ?_
        rw [show text = span.text (list.rewritten source order) from htext.symm, Span.text,
          ← Text.slice_append_slice hbound hn hfrom (Nat.le_of_lt hto)]
        exact List.mem_append_right _ (Text.mem_slice_of_le hto hc)
    | _ =>
        have htoken := (mem_tokens_reread hp).mpr ⟨_, he, rfl⟩
        rcases hfree span htoken with hlt | hle
        · exact absurd hfrom (Nat.not_le_of_lt hlt)
        · exact absurd hto (Nat.not_lt_of_le hle)

end WellFormed

end MemberList

end KeyOrder
