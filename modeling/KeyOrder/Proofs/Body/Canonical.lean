import KeyOrder.Proofs.Body.CommentPartition
import KeyOrder.Proofs.Body.LineComments

/-!
# Canonical bodies

A body is canonical if every member is written in the way in which a rebuilt body writes it
(`MemberList.Canonical`). The tokens of a member and its comments then stand in the source in the
order in which they are written (`MemberList.pairwise_ownTokens`), and those of a member in front of
those of a later one. **So the tokens, member after member, tile the body up to its end**: nothing
but white space is between two of them, none of them ends in white space, and the white space in
front of each one begins where the one before it ends (`Body.Tiles`).
-/

namespace KeyOrder

theorem Text.solidBefore_of_slice {text : Text} {a b : Nat} {c : Char}
    (ha : text.isBoundary a = true) (hab : a ≤ b) (h : text.slice a b = [c])
    (hc : isBlank c = false) : text.SolidBefore b := by
  rw [SolidBefore, ← takeBytes_append_slice ha hab, h, List.getLast?_concat]
  simpa using hc

namespace Body

/-- **Tokens that tile a stretch of the source**: the white space in front of each one begins where
the one before it ends. -/
def Tiles (source : Text) (stop : Nat) : Nat → List Span → Prop
  | start, [] => start = stop
  | start, token :: rest =>
    source.isBoundary token.start = true ∧ source.isBoundary token.stop = true
      ∧ token.start ≤ token.stop ∧ source.blankStart token.start = start
      ∧ Tiles source stop token.stop rest

namespace Tiles

variable {source : Text} {start stop : Nat} {tokens others : List Span}

theorem le (h : Tiles source stop start tokens) : start ≤ stop := by
  induction tokens generalizing start with
  | nil => exact Nat.le_of_eq h
  | cons token rest ih =>
      obtain ⟨hbegin, -, hlen, rfl, hrest⟩ := h
      exact Nat.le_trans (Text.blankStart_le hbegin) (Nat.le_trans hlen (ih hrest))

theorem stop_le (h : Tiles source stop start tokens) {token : Span} (ht : token ∈ tokens) :
    token.stop ≤ stop := by
  induction tokens generalizing start with
  | nil => simp at ht
  | cons first rest ih =>
      obtain ⟨-, -, -, -, hrest⟩ := h
      rcases List.mem_cons.mp ht with rfl | ht
      · exact hrest.le
      · exact ih hrest ht

theorem boundary (h : Tiles source stop start tokens) (hstart : source.isBoundary start = true) :
    source.isBoundary stop = true := by
  induction tokens generalizing start with
  | nil =>
      obtain rfl : start = stop := h
      exact hstart
  | cons token rest ih =>
      obtain ⟨-, hend, -, -, hrest⟩ := h
      exact ih hrest hend

/-- A stretch ends with its last token. -/
theorem exists_stop_eq (h : Tiles source stop start tokens) (hne : tokens ≠ []) :
    ∃ token ∈ tokens, token.stop = stop := by
  induction tokens generalizing start with
  | nil => exact absurd rfl hne
  | cons first rest ih =>
      obtain ⟨-, -, -, -, hrest⟩ := h
      cases rest with
      | nil => exact ⟨first, List.mem_cons_self, hrest⟩
      | cons next rest =>
          obtain ⟨token, ht, hstop⟩ := ih hrest (by simp)
          exact ⟨token, List.mem_cons_of_mem _ ht, hstop⟩

/-- **Stretches that follow each other make up one.** -/
theorem append_iff : Tiles source stop start (tokens ++ others)
    ↔ ∃ middle, Tiles source middle start tokens ∧ Tiles source stop middle others := by
  induction tokens generalizing start with
  | nil => simp [Tiles]
  | cons token rest ih => simp [Tiles, ih, and_assoc]

/-- **Tokens that tile a stretch, with the white space in front of each, are the stretch.** -/
theorem text_eq (h : Tiles source stop start tokens) :
    (tokens.flatMap fun token => source.blankBefore token.start ++ token.text source)
      = source.slice start stop := by
  induction tokens generalizing start with
  | nil =>
      obtain rfl : start = stop := h
      simp
  | cons token rest ih =>
      obtain ⟨hbegin, hend, hlen, rfl, hrest⟩ := h
      have hblank := Text.blankStart_le hbegin
      rw [List.flatMap_cons, ih hrest, Text.blankBefore, Span.text, List.append_assoc,
        Text.slice_append_slice hbegin hend hlen hrest.le,
        Text.slice_append_slice (Text.isBoundary_blankStart hbegin) hbegin hblank
          (Nat.le_trans hlen hrest.le)]

theorem comments_eq {comments : List Comment}
    (h : Tiles source stop start (comments.map Comment.span)) :
    comments.flatMap (spacedComment source) = source.slice start stop := by
  rw [← h.text_eq, List.flatMap_map]
  rfl

end Tiles

end Body

namespace MemberList

open Body

variable {list : MemberList} {source : Text}

theorem WellFormed.start_le_stop (h : list.WellFormed source) {token : Span}
    (ht : token ∈ list.tokens) : token.start ≤ token.stop := by
  rcases List.mem_append.mp ht with hm | hc
  · exact Nat.le_of_lt (h.inOrder.proper token hm).1
  · obtain ⟨comment, hcomment, rfl⟩ := List.mem_map.mp hc
    exact Nat.le_of_lt (h.inOrder.properComments comment hcomment).1

theorem WellFormed.comment_inside (h : list.WellFormed source) {comment : Comment}
    (hc : comment ∈ list.comments) :
    list.bodyStart ≤ comment.span.start ∧ comment.span.stop ≤ list.bodyStop :=
  h.inside _ (comment_mem_tokens hc)

/-- **Tokens in order tile the stretch that they stand in**, if none of them ends in white space and
every other token of the list stands in front of them or behind them. -/
theorem WellFormed.exists_tiles (h : list.WellFormed source) {start : Nat} {tokens : List Span}
    (hbound : source.isBoundary start = true) (hstart : list.bodyStart ≤ start)
    (hsolid : source.SolidBefore start)
    (hfollow : tokens.Pairwise fun a b => a.stop ≤ b.start)
    (hmem : ∀ token ∈ tokens, token ∈ list.tokens ∧ start ≤ token.start
      ∧ token.start ≤ token.stop ∧ source.SolidBefore token.stop)
    (hothers : ∀ token ∈ list.tokens, token ∈ tokens ∨ token.stop ≤ start
      ∨ ∀ other ∈ tokens, other.stop ≤ token.start) :
    ∃ stop, Tiles source stop start tokens := by
  induction tokens generalizing start with
  | nil => exact ⟨start, rfl⟩
  | cons token rest ih =>
      obtain ⟨ht, hfrom, hlen, hend⟩ := hmem token List.mem_cons_self
      obtain ⟨hhead, hrest⟩ := List.pairwise_cons.mp hfollow
      obtain ⟨hbegin, hstop, -⟩ := h.fits token ht
      have hinside := h.inside token ht
      have hgap : (source.slice start token.start).Blank := by
        refine h.gap hbound hbegin hfrom hstart (by omega) fun other hother => ?_
        rcases hothers other hother with hin | hleft | hright
        · rcases List.mem_cons.mp hin with rfl | hin
          · exact .inr (Nat.le_refl _)
          · exact .inr (Nat.le_trans hlen (hhead other hin))
        · exact .inl hleft
        · exact .inr (Nat.le_trans hlen (hright token List.mem_cons_self))
      obtain ⟨stop, htiles⟩ := ih hstop (by omega) hend hrest
        (fun later hlater => by
          obtain ⟨ht', -, hlen', hend'⟩ := hmem later (List.mem_cons_of_mem _ hlater)
          exact ⟨ht', hhead later hlater, hlen', hend'⟩)
        (fun other hother => by
          rcases hothers other hother with hin | hleft | hright
          · rcases List.mem_cons.mp hin with rfl | hin
            · exact .inr (.inl (Nat.le_refl _))
            · exact .inl hin
          · exact .inr (.inl (by omega))
          · exact .inr (.inr fun later hlater => hright later (List.mem_cons_of_mem _ hlater)))
      exact ⟨stop, hbegin, hstop, hlen, Text.blankStart_eq hbound hbegin hfrom hgap hsolid, htiles⟩

/-! ## Tokens in the order in which they are written -/

/-- The members with their comments. -/
def pairs (list : MemberList) : List (Member × MemberComments) := list.members.zip list.shares

/-- The tokens of a member and its comments, in the order in which they are written. -/
def ownTokens (pair : Member × MemberComments) : List Span :=
  pair.2.leading.map Comment.span ++ pair.1.declaration ::
    ((pair.2.trailingOf .block).map Comment.span ++ (pair.1.terminator.toList
      ++ (pair.2.trailingOf .line).map Comment.span))

/-- **A canonical body**: only the last member may lack a separator; a separator is the one of the
list's kind and stands right behind the declaration or the last of the member's block comments; the
block comments that trail a member stand before its separator and its line comments, and these
behind the separator; the opening brace, the declarations and the comments do not end in white
space; and a line comment is followed by white space with a line feed. -/
structure Canonical (list : MemberList) (source : Text) : Prop where
  terminated : ∀ member ∈ list.members.dropLast, member.terminator.isSome = true
  separator : ∀ member ∈ list.members, ∀ terminator ∈ member.terminator,
    terminator.text source = [list.kind.separator]
  adjoins : ∀ pair ∈ list.pairs, ∀ terminator ∈ pair.1.terminator,
    terminator.start = pair.1.declaration.stop
      ∨ ∃ last ∈ (pair.2.trailingOf .block).getLast?, terminator.start = last.span.stop
  blocksFirst : ∀ pair ∈ list.pairs, ∀ block ∈ pair.2.trailingOf .block,
    (∀ terminator ∈ pair.1.terminator, block.span.stop ≤ terminator.start)
      ∧ ∀ line ∈ pair.2.trailingOf .line, block.span.stop ≤ line.span.start
  linesLast : ∀ pair ∈ list.pairs, ∀ line ∈ pair.2.trailingOf .line,
    ∀ terminator ∈ pair.1.terminator, terminator.stop ≤ line.span.start
  solidBrace : source.SolidBefore list.bodyStart
  solidDeclarations : ∀ member ∈ list.members, source.SolidBefore member.declaration.stop
  solidComments : ∀ comment ∈ list.comments, source.SolidBefore comment.span.stop
  endsLine : ∀ comment ∈ list.comments, comment.kind = .line → list.EndsLine source comment

theorem mem_pairs {pair : Member × MemberComments} (h : pair ∈ list.pairs) :
    ∃ index : Nat, list.members[index]? = some pair.1 ∧ list.shares[index]? = some pair.2 := by
  obtain ⟨index, hindex⟩ := List.mem_iff_getElem?.mp h
  exact ⟨index, List.getElem?_zip_eq_some.mp hindex⟩

/-- What is written for a member are its own tokens and its comments. -/
theorem mem_ownTokens {pair : Member × MemberComments} {token : Span} :
    token ∈ ownTokens pair ↔ token ∈ pair.1.tokens ∨ ∃ comment ∈ pair.2.all, comment.span = token := by
  have htrailing : (∃ comment ∈ pair.2.trailing, comment.span = token)
      ↔ (∃ comment ∈ pair.2.trailingOf .block, comment.span = token)
        ∨ ∃ comment ∈ pair.2.trailingOf .line, comment.span = token := by
    simp only [← pair.2.trailingOf_perm.mem_iff, List.mem_append, or_and_right, exists_or]
  simp only [ownTokens, Member.tokens, MemberComments.all, List.mem_append, List.mem_cons, List.mem_map,
    or_and_right, exists_or, htrailing]
  constructor
  · rintro (hleading | hdeclaration | hblock | hterminator | hline)
    · exact .inr (.inl hleading)
    · exact .inl (.inl hdeclaration)
    · exact .inr (.inr (.inl hblock))
    · exact .inl (.inr hterminator)
    · exact .inr (.inr (.inr hline))
  · rintro ((hdeclaration | hterminator) | hleading | hblock | hline)
    · exact .inr (.inl hdeclaration)
    · exact .inr (.inr (.inr (.inl hterminator)))
    · exact .inl hleading
    · exact .inr (.inr (.inl hblock))
    · exact .inr (.inr (.inr (.inr hline)))

theorem map_fst_pairs (list : MemberList) : list.pairs.map Prod.fst = list.members :=
  List.map_fst_zip (Nat.le_of_eq (MemberComments.length_attach _ _ _).symm)

theorem map_snd_pairs (list : MemberList) : list.pairs.map Prod.snd = list.shares :=
  List.map_snd_zip (Nat.le_of_eq (MemberComments.length_attach _ _ _))

theorem length_pairs (list : MemberList) : list.pairs.length = list.members.length := by
  rw [← list.map_fst_pairs, List.length_map]

/-- What is written for all members are their tokens and the comments that are shared out. -/
theorem mem_flatMap_ownTokens {token : Span} : token ∈ list.pairs.flatMap ownTokens
    ↔ token ∈ memberTokens list.members
      ∨ ∃ comment ∈ list.shares.flatMap MemberComments.all, comment.span = token := by
  rw [← map_snd_pairs, memberTokens, ← map_fst_pairs, List.flatMap_map, List.flatMap_map]
  simp only [List.mem_flatMap, mem_ownTokens]
  constructor
  · rintro ⟨pair, hpair, ht | ⟨comment, hc, hspan⟩⟩
    · exact .inl ⟨pair, hpair, ht⟩
    · exact .inr ⟨comment, ⟨pair, hpair, hc⟩, hspan⟩
  · rintro (⟨pair, hpair, ht⟩ | ⟨comment, ⟨pair, hpair, hc⟩, hspan⟩)
    · exact ⟨pair, hpair, .inl ht⟩
    · exact ⟨pair, hpair, .inr ⟨comment, hc, hspan⟩⟩

section Sorted

variable (h : list.WellFormed source) (hcanonical : list.Canonical source)

include h hcanonical

/-- What is written for one member stands in source order. -/
theorem pairwise_ownTokens {pair : Member × MemberComments} (hpair : pair ∈ list.pairs) :
    (ownTokens pair).Pairwise fun a b => a.stop ≤ b.start := by
  obtain ⟨index, hm, hs⟩ := mem_pairs hpair
  obtain ⟨before, behind, hshare⟩ := MemberComments.exists_share none h.inOrder hm hs
  have hmember := List.mem_of_getElem? hm
  have hproper := h.inOrder.declaration_proper hmember
  have hin : ∀ comment ∈ pair.2.all, comment ∈ list.comments := fun comment hc =>
    mem_of_mem_share hs hc
  have hfollow := hshare.split ▸ h.inOrder.commentsFollow
  obtain ⟨hleading, htrailing, -⟩ := List.pairwise_append.mp (List.pairwise_append.mp hfollow).2.1
  have hspans : ∀ {comments : List Comment}, comments.Pairwise (fun a b => a.span.Before b.span) →
      (comments.map Comment.span).Pairwise fun a b => a.stop ≤ b.start := fun hcomments =>
    List.pairwise_map.mpr (hcomments.imp And.left)
  have hof : ∀ kind, ((pair.2.trailingOf kind).map Comment.span).Pairwise
      fun a b => a.stop ≤ b.start := fun kind =>
    hspans ((List.pairwise_append.mp htrailing).1.filter _)
  have hbehind : ∀ kind, ∀ comment ∈ pair.2.trailingOf kind,
      pair.1.declaration.stop ≤ comment.span.start := by
    intro kind comment hc
    have hc := (List.mem_filter.mp hc).1
    exact (h.inOrder.behind_declaration hmember (hin comment (List.mem_append_right _ hc))
      (hshare.trailing_starts comment hc)).1
  have hterminator : ∀ terminator ∈ pair.1.terminator.toList,
      pair.1.declaration.stop ≤ terminator.start := by
    intro terminator ht
    have htokens := (List.pairwise_flatMap.mp h.inOrder.membersFollow).1 pair.1 hmember
    exact ((List.pairwise_cons.mp htokens).1 terminator ht).1
  -- everything behind the declaration
  have hrest : ∀ token ∈ (pair.2.trailingOf .block).map Comment.span ++ (pair.1.terminator.toList
      ++ (pair.2.trailingOf .line).map Comment.span), pair.1.declaration.stop ≤ token.start := by
    intro token ht
    rcases List.mem_append.mp ht with hblock | ht
    · obtain ⟨comment, hc, rfl⟩ := List.mem_map.mp hblock
      exact hbehind .block comment hc
    · rcases List.mem_append.mp ht with ht | hline
      · exact hterminator token ht
      · obtain ⟨comment, hc, rfl⟩ := List.mem_map.mp hline
        exact hbehind .line comment hc
  refine List.pairwise_append.mpr ⟨hspans hleading, List.pairwise_cons.mpr ⟨hrest,
    List.pairwise_append.mpr ⟨hof .block, List.pairwise_append.mpr ⟨?_, hof .line, ?_⟩, ?_⟩⟩, ?_⟩
  · cases pair.1.terminator <;> simp
  · intro terminator ht token hline
    obtain ⟨line, hmem, rfl⟩ := List.mem_map.mp hline
    exact hcanonical.linesLast pair hpair line hmem terminator (Option.mem_toList.mp ht)
  · intro token hblock other hother
    obtain ⟨block, hmem, rfl⟩ := List.mem_map.mp hblock
    obtain ⟨hseparated, hlines⟩ := hcanonical.blocksFirst pair hpair block hmem
    rcases List.mem_append.mp hother with ht | hline
    · exact hseparated other (Option.mem_toList.mp ht)
    · obtain ⟨line, hmem', rfl⟩ := List.mem_map.mp hline
      exact hlines line hmem'
  · intro token hlead other hother
    obtain ⟨comment, hc, rfl⟩ := List.mem_map.mp hlead
    have hstop := (h.inOrder.before_declaration hmember (hin comment (List.mem_append_left _ hc))
      (hshare.leading_starts comment hc)).1
    rcases List.mem_cons.mp hother with rfl | hother
    · exact hstop
    · exact Nat.le_trans hstop (Nat.le_trans (Nat.le_of_lt hproper.1) (hrest other hother))

omit hcanonical in
/-- A token of a member stands before the comments of a later one. -/
theorem token_before_share {i j : Nat} {earlier later : Member} {share : MemberComments}
    (hij : i < j) (hi : list.members[i]? = some earlier) (hj : list.members[j]? = some later)
    (hs : list.shares[j]? = some share) {token : Span} (ht : token ∈ earlier.tokens)
    {comment : Comment} (hc : comment ∈ share.all) : token.stop ≤ comment.span.start := by
  have hbefore := (h.inOrder.tokens_before hij hi hj ht later.declaration_mem_tokens).1
  have hproper := (h.inOrder.declaration_proper (List.mem_of_getElem? hj)).1
  have htoken : token ∈ memberTokens list.members :=
    mem_memberTokens.mpr ⟨earlier, List.mem_of_getElem? hi, ht⟩
  rcases List.mem_append.mp hc with hlead | htrail
  · have hgap := (leading_in_gap h.inOrder (fun _ hc => (h.comment_inside hc).1) hj hs hlead).1
    rcases h.inOrder.token_around hj htoken with ⟨previous, hne, hprevious, hstop⟩ | hstart
    · obtain ⟨k, rfl⟩ := Nat.exists_eq_succ_of_ne_zero hne
      simp only [Nat.succ_sub_one] at hprevious
      simp only [gapStart, hprevious, Option.map_some, Option.getD_some] at hgap
      omega
    · have := (h.inOrder.proper token htoken).1
      omega
  · have := (trailing_in_gap h.inOrder (fun _ hc => (h.comment_inside hc).2) hj hs htrail).1
    omega

omit hcanonical in
/-- A comment of a member stands before the tokens of a later one. -/
theorem share_before_token {i j : Nat} {earlier later : Member} {share : MemberComments}
    (hij : i < j) (hi : list.members[i]? = some earlier) (hj : list.members[j]? = some later)
    (hs : list.shares[i]? = some share) {token : Span} (ht : token ∈ later.tokens)
    {comment : Comment} (hc : comment ∈ share.all) : comment.span.stop ≤ token.start := by
  have hlater := List.mem_of_getElem? hj
  rcases List.mem_append.mp hc with hlead | htrail
  · have hgap := (leading_in_gap h.inOrder (fun _ hc => (h.comment_inside hc).1) hi hs hlead).2
    have hproper := (h.inOrder.declaration_proper (List.mem_of_getElem? hi)).1
    have := (h.inOrder.tokens_before hij hi hj earlier.declaration_mem_tokens ht).1
    omega
  · have hgap := (trailing_in_gap h.inOrder (fun _ hc => (h.comment_inside hc).2) hi hs htrail).2
    obtain ⟨hlen, -⟩ := List.getElem?_eq_some_iff.mp hj
    have hnext : list.members[i + 1]? = some list.members[i + 1] :=
      List.getElem?_eq_getElem (by omega)
    simp only [gapStop, hnext, Option.map_some, Option.getD_some] at hgap
    rcases Nat.lt_or_eq_of_le (show i + 1 ≤ j from hij) with hlt | rfl
    · have hfollow := (h.inOrder.tokens_before hlt hnext hj
        (Member.declaration_mem_tokens _) ht).1
      have hproper := (h.inOrder.declaration_proper (List.mem_of_getElem? hnext)).1
      omega
    · obtain rfl : list.members[i + 1] = later := Option.some.inj (hnext.symm.trans hj)
      exact Nat.le_trans hgap (h.inOrder.declaration_le_start hlater ht)

omit hcanonical in
/-- The comments of a member stand before those of a later one. -/
theorem share_before_share {i j : Nat} {earlier later : MemberComments} (hij : i < j)
    (hi : list.shares[i]? = some earlier) (hj : list.shares[j]? = some later) {a b : Comment}
    (ha : a ∈ earlier.all) (hb : b ∈ later.all) : a.span.stop ≤ b.span.start := by
  have hsplit := MemberComments.attach_flatMap none h.inOrder
  rw [MemberComments.unclaimed_none, List.nil_append] at hsplit
  have hfollow := hsplit.symm ▸ h.inOrder.commentsFollow
  have hshares := (List.pairwise_flatMap.mp (List.pairwise_append.mp hfollow).1).2
  obtain ⟨hilen, rfl⟩ := List.getElem?_eq_some_iff.mp hi
  obtain ⟨hjlen, rfl⟩ := List.getElem?_eq_some_iff.mp hj
  exact (List.pairwise_iff_getElem.mp hshares i j hilen hjlen hij a ha b hb).1

omit hcanonical in
/-- **What is written for a member stands before what is written for a later one.** -/
theorem ownTokens_before {i j : Nat} {earlier later : Member × MemberComments} (hij : i < j)
    (hi : list.pairs[i]? = some earlier) (hj : list.pairs[j]? = some later) {a b : Span}
    (ha : a ∈ ownTokens earlier) (hb : b ∈ ownTokens later) : a.stop ≤ b.start := by
  obtain ⟨him, his⟩ := List.getElem?_zip_eq_some.mp hi
  obtain ⟨hjm, hjs⟩ := List.getElem?_zip_eq_some.mp hj
  rcases mem_ownTokens.mp ha with ha | ⟨comment, hc, rfl⟩
  · rcases mem_ownTokens.mp hb with hb | ⟨comment, hc, rfl⟩
    · exact (h.inOrder.tokens_before hij him hjm ha hb).1
    · exact token_before_share h hij him hjm hjs ha hc
  · rcases mem_ownTokens.mp hb with hb | ⟨other, hother, rfl⟩
    · exact share_before_token h hij him hjm his hb hc
    · exact share_before_share h hij his hjs hc hother

theorem pairwise_pairs : (list.pairs.flatMap ownTokens).Pairwise fun a b => a.stop ≤ b.start := by
  refine List.pairwise_flatMap.mpr ⟨fun pair => pairwise_ownTokens h hcanonical, ?_⟩
  refine List.pairwise_iff_getElem.mpr fun i j hi hj hij a ha b hb => ?_
  exact ownTokens_before h hij (List.getElem?_eq_getElem hi) (List.getElem?_eq_getElem hj) ha hb

/-- No token of a canonical body ends in white space. -/
theorem solidBefore_of_mem_tokens {token : Span} (ht : token ∈ list.tokens) :
    source.SolidBefore token.stop := by
  rcases List.mem_append.mp ht with hm | hc
  · obtain ⟨member, hmember, htoken⟩ := mem_memberTokens.mp hm
    rcases h.inOrder.token_eq_or hmember htoken with rfl | ⟨hterminator, -⟩
    · exact hcanonical.solidDeclarations member hmember
    · have hblank : isBlank list.kind.separator = false := by
        cases list.kind <;> decide
      exact Text.solidBefore_of_slice (h.fits token ht).1 (h.start_le_stop ht)
        (hcanonical.separator member hmember token hterminator) hblank
  · obtain ⟨comment, hcomment, rfl⟩ := List.mem_map.mp hc
    exact hcanonical.solidComments comment hcomment

omit hcanonical in
/-- The end of the body begins behind all comments that are shared out. -/
theorem endsAt_shares : EndsAt list source (list.shares.flatMap MemberComments.all)
    (list.trivia source).endComments (list.trivia source).tailStart := by
  obtain ⟨before, hends⟩ := h.exists_endsAt
  have hsplit := MemberComments.attach_flatMap none h.inOrder
  rw [MemberComments.unclaimed_none, List.nil_append] at hsplit
  have hbefore : list.shares.flatMap MemberComments.all = before :=
    List.append_cancel_right (hsplit.trans hends.split)
  rw [hbefore]
  exact hends

omit hcanonical in
/-- What is written for the members stands in front of the end of the body. -/
theorem stop_le_tailStart {token : Span} (ht : token ∈ list.pairs.flatMap ownTokens) :
    token ∈ list.tokens ∧ token.stop ≤ (list.trivia source).tailStart := by
  have hends := endsAt_shares h
  rcases mem_flatMap_ownTokens.mp ht with hm | ⟨comment, hc, rfl⟩
  · exact ⟨List.mem_append_left _ hm, hends.members token hm⟩
  · exact ⟨WellFormed.comment_mem_tokens (hends.split ▸ List.mem_append_left _ hc),
      hends.before comment hc⟩

omit hcanonical in
/-- Every other token belongs to the end of the body. -/
theorem mem_or_tailStart_le {token : Span} (ht : token ∈ list.tokens) :
    token ∈ list.pairs.flatMap ownTokens ∨ (list.trivia source).tailStart ≤ token.start := by
  have hends := endsAt_shares h
  rcases List.mem_append.mp ht with hm | hc
  · exact .inl (mem_flatMap_ownTokens.mpr (.inl hm))
  · obtain ⟨comment, hcomment, rfl⟩ := List.mem_map.mp hc
    rw [hends.split] at hcomment
    rcases List.mem_append.mp hcomment with hfirst | hrest
    · exact .inl (mem_flatMap_ownTokens.mpr (.inr ⟨comment, hfirst, rfl⟩))
    · exact .inr (hends.rest comment hrest)

omit hcanonical in
/-- The end of the body begins behind a token that is written for a member. -/
theorem exists_stop_eq_tailStart (hne : list.members ≠ []) :
    ∃ token ∈ list.pairs.flatMap ownTokens, token.stop = (list.trivia source).tailStart := by
  obtain ⟨last, hlast⟩ : ∃ last, list.members.getLast? = some last :=
    ⟨_, List.getLast?_eq_some_getLast hne⟩
  obtain ⟨share, -, hshare, -⟩ := MemberComments.exists_end none h.inOrder hlast
  rcases tailStart_eq_or hlast hshare with heq | ⟨final, hfinal, heq⟩
  · exact ⟨last.lastToken, mem_flatMap_ownTokens.mpr (.inl (mem_memberTokens.mpr
      ⟨last, List.mem_of_getLast? hlast, last.lastToken_mem_tokens⟩)), heq.symm⟩
  · have hc : final ∈ list.shares.flatMap MemberComments.all := List.mem_flatMap.mpr
      ⟨share, List.mem_of_getLast? hshare, List.mem_append_right _ hfinal⟩
    exact ⟨final.span, mem_flatMap_ownTokens.mpr (.inr ⟨final, hc, rfl⟩), heq.symm⟩

/-- **What is written for the members tiles the body up to its end.** -/
theorem tiles_pairs (hne : list.members ≠ []) :
    Tiles source (list.trivia source).tailStart list.bodyStart
      (list.pairs.flatMap ownTokens) := by
  have hmem : ∀ token ∈ list.pairs.flatMap ownTokens, token ∈ list.tokens
      ∧ list.bodyStart ≤ token.start ∧ token.start ≤ token.stop
      ∧ source.SolidBefore token.stop := by
    intro token ht
    have htoken := (stop_le_tailStart h ht).1
    exact ⟨htoken, (h.inside token htoken).1, h.start_le_stop htoken,
      solidBefore_of_mem_tokens h hcanonical htoken⟩
  obtain ⟨stop, htiles⟩ := h.exists_tiles h.start (Nat.le_refl _) hcanonical.solidBrace
    (pairwise_pairs h hcanonical) hmem fun token ht =>
      (mem_or_tailStart_le h ht).imp_right fun hend => .inr fun other hother =>
        Nat.le_trans (stop_le_tailStart h hother).2 hend
  -- the last token of the stretch ends where the end of the body begins
  obtain ⟨final, hfinal, hstop⟩ := exists_stop_eq_tailStart h hne
  obtain ⟨token, ht, rfl⟩ := htiles.exists_stop_eq (List.ne_nil_of_mem hfinal)
  have heq : token.stop = (list.trivia source).tailStart :=
    Nat.le_antisymm (stop_le_tailStart h ht).2 (hstop ▸ htiles.stop_le hfinal)
  exact heq ▸ htiles

end Sorted

end MemberList

end KeyOrder
