import KeyOrder.Proofs.Body.Canonical

/-!
# A body in its own order

No white space of a body is copied: all of it is found again in front of the tokens. So a body that is
rebuilt in the order of the source is the body itself only if each run of white space that is found
ends where the token before it does. **A canonical body is given back byte for byte**, because its
tokens tile it: what is written for one member is the stretch that its tokens tile
(`MemberList.slotText_of_tiles`), and the stretches of the members follow each other.
-/

namespace KeyOrder

namespace MemberList

open Body

variable {list : MemberList} {source : Text}

theorem Canonical.endsLine_of_trailing (h : list.Canonical source) {index : Nat}
    {share : MemberComments} (hs : list.shares[index]? = some share) {line : Comment}
    (hline : line ∈ share.trailingOf .line) : line ∈ list.comments ∧ list.EndsLine source line := by
  have hin := mem_of_mem_share hs (List.mem_append_right _ (List.mem_filter.mp hline).1)
  exact ⟨hin, h.endsLine line hin (MemberComments.kind_of_mem_trailingOf hline)⟩

/-- The white space that begins behind a line comment has a line feed. -/
theorem EndsLine.mem_blankBefore {comment : Comment} (hline : list.EndsLine source comment)
    {token : Span} (ht : token ∈ list.tokens) (hbound : source.isBoundary token.start = true)
    (hstart : source.blankStart token.start = comment.span.stop) :
    '\n' ∈ source.blankBefore token.start := by
  have hle : comment.span.stop ≤ token.start := hstart ▸ Text.blankStart_le hbound
  rw [Text.blankBefore, hstart]
  exact Text.mem_slice_of_le (nextStart_le ht hle) hline

/-- **No line end is added to line comments that end their lines.** -/
theorem lineComments_of_tiles {lineEnd following : Text} {start stop : Nat} {lines : List Comment}
    (htiles : Tiles source stop start (lines.map Comment.span))
    (hmem : ∀ line ∈ lines, line ∈ list.comments ∧ list.EndsLine source line)
    (hfollowing : lines ≠ [] → '\n' ∈ following) :
    lineComments source lineEnd following lines = source.slice start stop := by
  rw [← htiles.comments_eq]
  fun_induction lineComments source lineEnd following lines generalizing start with
  | case1 => rfl
  | case2 comment => simp [hfollowing]
  | case3 comment next rest ih =>
      obtain ⟨-, -, -, -, hrest⟩ := htiles
      have hfeed : '\n' ∈ source.blankBefore next.span.start :=
        (hmem comment (by simp)).2.mem_blankBefore
          (WellFormed.comment_mem_tokens (hmem next (by simp)).1) hrest.1 hrest.2.2.2.1
      rw [ih hrest (fun line hline => hmem line (List.mem_cons_of_mem _ hline))
        fun _ => hfollowing (by simp)]
      simp [hfeed]

section Slots

variable {slot start stop : Nat} {member : Member} {share : MemberComments}
  (hm : list.members[slot]? = some member) (hs : list.shares[slot]? = some share)

include hm hs

theorem getElem?_pairs : list.pairs[slot]? = some (member, share) :=
  List.getElem?_zip_eq_some.mpr ⟨hm, hs⟩

theorem drop_pairs : list.pairs.drop slot = (member, share) :: list.pairs.drop (slot + 1) := by
  obtain ⟨hlt, heq⟩ := List.getElem?_eq_some_iff.mp (getElem?_pairs hm hs)
  rw [List.drop_eq_getElem_cons hlt, heq]

/-- A slot is indented by the white space in front of the first token that is written for it. -/
theorem exists_first (source : Text) : ∃ token rest, ownTokens (member, share) = token :: rest
    ∧ (list.trivia source).indentation source slot = source.blankBefore token.start := by
  simp only [BodyTrivia.indentation, trivia_getElem? source hm hs, MemberComments.withIndentation,
    ownTokens]
  cases share.leading with
  | nil => exact ⟨_, _, rfl, rfl⟩
  | cons first rest => exact ⟨_, _, rfl, rfl⟩

/-- The indentation and the leading comments are what stands in front of the declaration. -/
theorem indentation_append_leadingText
    (htiles : Tiles source (source.blankStart member.declaration.start) start
      (share.leading.map Comment.span))
    (hbound : source.isBoundary member.declaration.start = true) :
    (list.trivia source).indentation source slot ++ leadingText source member share
      = source.slice start member.declaration.start := by
  simp only [BodyTrivia.indentation, trivia_getElem? source hm hs, MemberComments.withIndentation,
    leadingText]
  cases hleading : share.leading with
  | nil =>
      rw [hleading] at htiles
      obtain rfl : start = source.blankStart member.declaration.start := htiles
      exact List.append_nil _
  | cons first rest =>
      rw [hleading] at htiles
      obtain ⟨hbegin, -, hlen, rfl, hrest⟩ := htiles
      refine Text.slice_append_slice (Text.isBoundary_blankStart hbegin) hbegin
        (Text.blankStart_le hbegin) ?_
      exact Nat.le_trans hlen (Nat.le_trans hrest.le (Text.blankStart_le hbound))

omit hm hs in
/-- The separator that is written is the one of the source. -/
theorem separator_of_tiles (hcanonical : list.Canonical source)
    (hpair : (member, share) ∈ list.pairs) {middle : Nat}
    (hblocks : Tiles source middle member.declaration.stop
      ((share.trailingOf .block).map Comment.span))
    (hterminator : Tiles source stop middle member.terminator.toList) :
    (if member.terminator.isSome then [list.kind.separator] else []) = source.slice middle stop := by
  cases hterm : member.terminator with
  | none =>
      rw [hterm] at hterminator
      obtain rfl : middle = stop := hterminator
      simp
  | some terminator =>
      rw [hterm] at hterminator
      obtain ⟨hbegin, -, -, hblank, hstop⟩ := hterminator
      have hstop : terminator.stop = stop := hstop
      obtain ⟨index, hm, -⟩ := mem_pairs hpair
      have htext := hcanonical.separator member (List.mem_of_getElem? hm) terminator hterm
      have hge : middle ≤ terminator.start := hblank ▸ Text.blankStart_le hbegin
      have hle : terminator.start ≤ middle := by
        rcases hcanonical.adjoins _ hpair terminator hterm with heq | ⟨last, hlast, heq⟩
        · exact heq ▸ hblocks.le
        · exact heq ▸ hblocks.stop_le (List.mem_map_of_mem (List.mem_of_getLast? hlast))
      have heq : terminator.start = middle := Nat.le_antisymm hle hge
      rw [← heq, ← hstop]
      exact htext.symm

/-- **A slot that gets its own member is written as it stands.** -/
theorem slotText_of_tiles (hcanonical : list.Canonical source)
    (htiles : Tiles source stop start (ownTokens (member, share)))
    (hstart : source.isBoundary start = true) {rest : List Nat}
    (hwrites : list.writesSeparator rest = member.terminator.isSome)
    (hfollowing : ∀ line ∈ share.trailingOf .line, line.span.stop = stop →
      '\n' ∈ list.followingText source (list.trivia source) slot rest) :
    list.slotText source (list.trivia source) slot slot rest = source.slice start stop := by
  obtain ⟨first, hleading, hbegin, hend, hlen, rfl, hbehind⟩ := Tiles.append_iff.mp htiles
  obtain ⟨middle, hblocks, hbehind⟩ := Tiles.append_iff.mp hbehind
  obtain ⟨last, hterminator, hlines⟩ := Tiles.append_iff.mp hbehind
  have hmiddle := hblocks.boundary hend
  have hlast := hterminator.boundary hmiddle
  have hfeed : share.trailingOf .line ≠ [] →
      '\n' ∈ list.followingText source (list.trivia source) slot rest := by
    intro hne
    obtain ⟨token, ht, hstop⟩ := hlines.exists_stop_eq (by simpa using hne)
    obtain ⟨line, hline, rfl⟩ := List.mem_map.mp ht
    exact hfollowing line hline hstop
  have hfront := indentation_append_leadingText hm hs hleading hbegin
  have hseparator := separator_of_tiles hcanonical (List.mem_of_getElem? (getElem?_pairs hm hs))
    hblocks hterminator
  rw [← hwrites] at hseparator
  have htext : list.slotText source (list.trivia source) slot slot rest
      = (list.trivia source).indentation source slot
        ++ memberText source (list.body source).lineEnd
          (if list.writesSeparator rest then [list.kind.separator] else [])
          (list.followingText source (list.trivia source) slot rest) member share := by
    simp only [slotText, hm, trivia_getElem? source hm hs]
    rfl
  rw [htext, memberText, hblocks.comments_eq, hseparator, lineComments_of_tiles hlines
    (fun _ hline => hcanonical.endsLine_of_trailing hs hline) hfeed]
  simp only [← List.append_assoc]
  have hfirst : start ≤ member.declaration.start :=
    Nat.le_trans hleading.le (Text.blankStart_le hbegin)
  have hsecond : start ≤ member.declaration.stop := Nat.le_trans hfirst hlen
  have hthird : start ≤ middle := Nat.le_trans hsecond hblocks.le
  rw [hfront, Span.text, Text.slice_append_slice hstart hbegin hfirst hlen,
    Text.slice_append_slice hstart hend hsecond hblocks.le,
    Text.slice_append_slice hstart hmiddle hthird hterminator.le,
    Text.slice_append_slice hstart hlast (Nat.le_trans hthird hterminator.le) hlines.le]

end Slots

/-- Behind every member but the last a separator is written, as it is in the source. -/
theorem writesSeparator_eq (hcanonical : list.Canonical source) {slot count : Nat} {member : Member}
    (hm : list.members[slot]? = some member) (hcount : slot + (count + 1) = list.members.length) :
    list.writesSeparator (List.range' (slot + 1) count) = member.terminator.isSome := by
  cases count with
  | zero =>
      have hlast : list.members.getLast? = some member := by
        rw [List.getLast?_eq_getElem?, ← hcount]
        exact hm
      simp [writesSeparator, endsWithTerminator, hlast]
  | succ count =>
      have hinit : member ∈ list.members.dropLast := by
        refine List.mem_of_getElem? (i := slot) ?_
        rw [List.getElem?_dropLast, if_pos (by omega)]
        exact hm
      rw [hcanonical.terminated member hinit]
      simp [writesSeparator, List.range'_succ]

/-- What follows a slot has a line feed if the slot ends with a line comment. -/
theorem mem_followingText (h : list.WellFormed source) {slot count stop : Nat}
    (hcount : slot + (count + 1) = list.members.length)
    (htiles : Tiles source (list.trivia source).tailStart stop
      ((list.pairs.drop (slot + 1)).flatMap ownTokens))
    {line : Comment} (hline : list.EndsLine source line) (hstop : line.span.stop = stop) :
    '\n' ∈ list.followingText source (list.trivia source) slot (List.range' (slot + 1) count) := by
  cases count with
  | zero =>
      have hlength := list.length_pairs
      rw [List.drop_eq_nil_of_le (by omega)] at htiles
      have htail : stop = (list.trivia source).tailStart := htiles
      simp only [followingText, List.range'_zero, List.isEmpty_nil, if_true, BodyTrivia.tail]
      rw [← htail, ← hstop]
      exact Text.mem_slice_of_le (nextStart_le_bodyStop _) hline
  | succ count =>
      obtain ⟨next, share, hm, hs⟩ :=
        exists_of_lt (show slot + 1 < list.members.length by omega)
      obtain ⟨token, rest, hown, hindentation⟩ := exists_first hm hs source
      have htoken : token ∈ list.pairs.flatMap ownTokens := by
        refine List.mem_flatMap.mpr ⟨(next, share), ?_, hown ▸ List.mem_cons_self⟩
        exact List.mem_of_getElem? (getElem?_pairs hm hs)
      rw [drop_pairs hm hs, List.flatMap_cons, hown] at htiles
      obtain ⟨hbegin, -, -, hblank, -⟩ := htiles
      simp only [followingText, List.range'_succ, List.isEmpty_cons, Bool.false_eq_true, if_false]
      rw [hindentation]
      exact hline.mem_blankBefore (stop_le_tailStart h htoken).1 hbegin (hblank.trans hstop.symm)

/-- **Slots that get their own members are written as they stand.** -/
theorem slotTexts_of_tiles (h : list.WellFormed source) (hcanonical : list.Canonical source)
    {slot count start : Nat} (hcount : slot + count = list.members.length)
    (hstart : source.isBoundary start = true)
    (htiles : Tiles source (list.trivia source).tailStart start
      ((list.pairs.drop slot).flatMap ownTokens)) :
    list.slotTexts source (list.trivia source) slot (List.range' slot count)
      = source.slice start (list.trivia source).tailStart := by
  have hlength := list.length_pairs
  induction count generalizing slot start with
  | zero =>
      rw [List.drop_eq_nil_of_le (by omega)] at htiles
      obtain rfl : start = (list.trivia source).tailStart := htiles
      simp [slotTexts]
  | succ count ih =>
      obtain ⟨member, share, hm, hs⟩ := exists_of_lt (show slot < list.members.length by omega)
      rw [drop_pairs hm hs, List.flatMap_cons] at htiles
      obtain ⟨stop, hown, hrest⟩ := Tiles.append_iff.mp htiles
      have hstop := hown.boundary hstart
      have hslot := slotText_of_tiles hm hs hcanonical hown hstart
        (writesSeparator_eq hcanonical hm hcount) fun line hline =>
          mem_followingText h hcount hrest (hcanonical.endsLine_of_trailing hs hline).2
      rw [List.range'_succ, slotTexts, hslot, ih (by omega) hstop hrest,
        Text.slice_append_slice hstart hstop hown.le hrest.le]

/-- **A canonical body that is rebuilt in its own order is given back byte for byte.** -/
theorem rebuildBody_range (h : list.WellFormed source) (hcanonical : list.Canonical source)
    (hne : list.members ≠ []) :
    list.rebuildBody source (list.trivia source) (List.range list.members.length)
      = list.body source := by
  have htiles := tiles_pairs h hcanonical hne
  have hends := endsAt_shares h
  rw [rebuildBody, List.range_eq_range', slotTexts_of_tiles h hcanonical (Nat.zero_add _) h.start
    htiles, BodyTrivia.tail, Text.slice_append_slice h.start hends.boundary htiles.le hends.inside.2,
    body]

/-- A canonical body with a comment of every standing. -/
def canonicalSource : Text := "\x7b\n  // h\n  b /*t*/; // c\n  a // d\n  /*e*/ \x7d".toList

/-- The members and comments of `canonicalSource`. -/
def canonical : MemberList where
  kind := .interface
  opening := ⟨0, 1, 0, 0⟩
  closing := ⟨42, 43, 4, 4⟩
  parent := ⟨0, 43, 0, 4⟩
  members :=
    [{ kind := .property, name := some "b", optional := false
       declaration := ⟨11, 12, 2, 2⟩, terminator := some ⟨18, 19, 2, 2⟩ },
     { kind := .property, name := some "a", optional := false
       declaration := ⟨27, 28, 3, 3⟩, terminator := none }]
  comments := [⟨.line, ⟨4, 8, 1, 1⟩⟩, ⟨.block, ⟨13, 18, 2, 2⟩⟩, ⟨.line, ⟨20, 24, 2, 2⟩⟩,
    ⟨.line, ⟨29, 33, 3, 3⟩⟩, ⟨.block, ⟨36, 41, 4, 4⟩⟩]
  stringValued := false

theorem rebuildBody_range_canonical :
    canonical.WellFormed canonicalSource ∧ canonical.Canonical canonicalSource
      ∧ canonical.members ≠ []
      ∧ canonical.rebuildBody canonicalSource (canonical.trivia canonicalSource) [0, 1]
        = "\n  // h\n  b /*t*/; // c\n  a // d\n  /*e*/ ".toList := by
  have hwf : canonical.WellFormed canonicalSource := by decide +kernel
  have hcanonical : canonical.Canonical canonicalSource := by
    refine ⟨?_, ?_, ?_, ?_, ?_, ?_, ?_, ?_, ?_⟩ <;> decide +kernel
  have hne : canonical.members ≠ [] := by decide
  have hbody : canonical.body canonicalSource
      = "\n  // h\n  b /*t*/; // c\n  a // d\n  /*e*/ ".toList := by decide +kernel
  exact ⟨hwf, hcanonical, hne, (rebuildBody_range hwf hcanonical hne).trans hbody⟩

end MemberList

end KeyOrder
