import KeyOrder.Body.Rebuild
import KeyOrder.Proofs.Body.Attribution

/-!
# Line ends of a rebuilt body

A body whose line feeds all have a carriage return in front of them keeps that when it is rebuilt in
any order. What is written are stretches of the body, separators and line ends. **A stretch keeps it
unless it starts between a carriage return and its line feed**, and no stretch does: it starts where
a token starts or ends, or else behind something solid, where a run of white space begins. The line
ends that are added have both characters, because the body has.
-/

namespace KeyOrder

namespace Text

/-! ## Carriage returns -/

/-- Every line feed has a carriage return in front of it. -/
def Crlf (text : Text) : Prop :=
  ∀ before behind, text = before ++ '\n' :: behind → before.getLast? = some '\r'

/-- Whether every line feed has a carriage return in front of it, behind the character
`previous`. -/
def feedsReturned (previous : Option Char) : Text → Bool
  | [] => true
  | c :: rest => (c != '\n' || previous == some '\r') && feedsReturned (some c) rest

theorem feedsReturned_iff {previous : Option Char} {text : Text} :
    feedsReturned previous text = true ↔ ∀ before behind, text = before ++ '\n' :: behind →
      before.getLast?.or previous = some '\r' := by
  induction text generalizing previous with
  | nil => simp [feedsReturned]
  | cons c rest ih =>
      have hlonger : ∀ before : Text,
          (c :: before).getLast?.or previous = before.getLast?.or (some c) := by
        intro before
        cases h : before.getLast? <;> simp [List.getLast?_cons, h]
      rw [feedsReturned, Bool.and_eq_true, ih]
      constructor
      · rintro ⟨hfirst, hrest⟩ before behind htext
        cases before with
        | nil =>
            obtain ⟨rfl, rfl⟩ := List.cons.inj htext
            simpa using hfirst
        | cons d front =>
            obtain ⟨rfl, rfl⟩ := List.cons.inj htext
            exact (hlonger front).trans (hrest front behind rfl)
      · intro hall
        refine ⟨?_, fun before behind hrest => ?_⟩
        · by_cases hc : c = '\n'
          · simpa [hc] using hall [] rest (by rw [hc]; rfl)
          · simp [hc]
        · exact (hlonger before).symm.trans (hall (c :: before) behind (by rw [hrest]; rfl))

instance (text : Text) : Decidable text.Crlf :=
  decidable_of_iff (feedsReturned none text = true) (by simp [feedsReturned_iff, Crlf])

/-- Whether an offset falls between a carriage return and its line feed. -/
def SplitsCrlf (text : Text) (offset : Nat) : Prop :=
  (text.takeBytes offset).getLast? = some '\r' ∧ (text.dropBytes offset).head? = some '\n'

instance (text : Text) (offset : Nat) : Decidable (text.SplitsCrlf offset) :=
  inferInstanceAs (Decidable (_ ∧ _))

theorem crlf_of_notMem {text : Text} (h : '\n' ∉ text) : text.Crlf := by
  rintro before behind rfl
  simp at h

theorem Crlf.append {a b : Text} (ha : a.Crlf) (hb : b.Crlf) : (a ++ b).Crlf := by
  intro before behind htext
  rcases List.append_eq_append_iff.mp htext with ⟨between, hbefore, hrest⟩ | ⟨between, ha', hrest⟩
  · have hlast := hb between behind hrest
    rw [hbefore, List.getLast?_append, hlast]
    rfl
  · cases between with
    | nil =>
        have hlast := hb [] behind (by simpa using hrest.symm)
        simp at hlast
    | cons c inner =>
        obtain ⟨rfl, -⟩ := List.cons.inj hrest
        exact ha before inner ha'

theorem crlf_flatMap {α : Type} {f : α → Text} {l : List α} (h : ∀ a ∈ l, (f a).Crlf) :
    Crlf (l.flatMap f) := by
  induction l with
  | nil => exact crlf_of_notMem (by simp)
  | cons a rest ih =>
      rw [List.forall_mem_cons] at h
      rw [List.flatMap_cons]
      exact h.1.append (ih h.2)

/-- **A stretch of a text with carriage returns has them too**, unless it starts in between. -/
theorem Crlf.slice {text : Text} {start stop a b : Nat} (h : (text.slice start stop).Crlf)
    (hstart : text.isBoundary start = true) (ha : text.isBoundary a = true)
    (hb : text.isBoundary b = true) (hle : start ≤ a) (hstop : b ≤ stop)
    (hunsplit : ¬ text.SplitsCrlf a) : (text.slice a b).Crlf := by
  intro before behind hslice
  have hab : a ≤ b := by
    refine Nat.le_of_not_lt fun hlt => ?_
    rw [slice_eq_nil (Nat.le_of_lt hlt)] at hslice
    simp at hslice
  have hwhole : text.slice start stop
      = (text.slice start a ++ before) ++ '\n' :: (behind ++ text.slice b stop) := by
    rw [← slice_append_slice hstart ha hle (Nat.le_trans hab hstop),
      ← slice_append_slice ha hb hab hstop, hslice]
    simp
  have hlast := h _ _ hwhole
  cases before with
  | cons c front => simpa [List.getLast?_append] using hlast
  | nil =>
      -- the stretch would start between the two characters
      refine absurd ⟨?_, ?_⟩ hunsplit
      · rw [← takeBytes_append_slice hstart hle, List.getLast?_append]
        simpa using congrArg (Option.or · (text.takeBytes start).getLast?) hlast
      · rw [← slice_append_dropBytes ha hb hab, hslice]
        rfl

theorem crlf_blankBefore {text : Text} {start stop n : Nat} (h : (text.slice start stop).Crlf)
    (hstart : text.isBoundary start = true) (hsolid : text.SolidBefore start)
    (hn : text.isBoundary n = true) (hle : start ≤ n) (hstop : n ≤ stop) :
    (text.blankBefore n).Crlf := by
  refine h.slice hstart (isBoundary_blankStart hn) hn (le_blankStart hstart hn hle hsolid) hstop ?_
  rintro ⟨hreturn, -⟩
  have hblank := solidBefore_blankStart hn
  rw [SolidBefore, hreturn] at hblank
  simp [isBlank, blankRanges] at hblank

theorem occursIn_append (pattern a b : Text) (h : pattern <+: b) :
    occursIn pattern (a ++ b) = true := by
  induction a with
  | nil => cases b <;> simp_all [occursIn]
  | cons c rest ih => simp [occursIn, ih]

theorem Crlf.lineEnd_eq {text : Text} (h : text.Crlf) (hfeed : '\n' ∈ text) :
    text.lineEnd = ['\r', '\n'] := by
  obtain ⟨before, behind, rfl⟩ := List.append_of_mem hfeed
  obtain ⟨front, rfl⟩ := List.getLast?_eq_some_iff.mp (h before behind rfl)
  rw [lineEnd, if_pos]
  rw [List.append_assoc]
  exact occursIn_append _ _ _ (by simp)

end Text

namespace MemberList

variable {list : MemberList} {source : Text}

/-- The offsets at which the body and its tokens start and end. -/
def ends (list : MemberList) : List Nat :=
  list.bodyStart :: list.bodyStop :: list.tokens.flatMap fun token => [token.start, token.stop]

/-- **A body with carriage returns**: its tokens lie in it and cut no character, nothing is cut
between a carriage return and its line feed, the opening brace is solid, and the body has line feeds,
all of them behind carriage returns. In which order the tokens stand is of no account. -/
structure HasCrlf (list : MemberList) (source : Text) : Prop where
  boundaries : ∀ offset ∈ list.ends, source.isBoundary offset = true
  inside : ∀ offset ∈ list.ends, list.bodyStart ≤ offset ∧ offset ≤ list.bodyStop
  unsplit : ∀ offset ∈ list.ends, ¬ source.SplitsCrlf offset
  solid : source.SolidBefore list.bodyStart
  feeds : '\n' ∈ list.body source
  returned : (list.body source).Crlf

theorem start_mem_ends {token : Span} (h : token ∈ list.tokens) : token.start ∈ list.ends := by
  simp only [ends, List.mem_cons, List.mem_flatMap]
  exact .inr (.inr ⟨token, h, by simp⟩)

theorem stop_mem_ends {token : Span} (h : token ∈ list.tokens) : token.stop ∈ list.ends := by
  simp only [ends, List.mem_cons, List.mem_flatMap]
  exact .inr (.inr ⟨token, h, by simp⟩)

namespace HasCrlf

variable (h : list.HasCrlf source)

include h

/-- What stands between two ends keeps its carriage returns. -/
theorem crlf_between {a b : Nat} (ha : a ∈ list.ends) (hb : b ∈ list.ends) :
    (source.slice a b).Crlf :=
  h.returned.slice (h.boundaries _ List.mem_cons_self) (h.boundaries a ha) (h.boundaries b hb)
    (h.inside a ha).1 (h.inside b hb).2 (h.unsplit a ha)

/-- The white space in front of an end keeps its carriage returns. -/
theorem crlf_blankBefore {a : Nat} (ha : a ∈ list.ends) : (source.blankBefore a).Crlf :=
  Text.crlf_blankBefore h.returned (h.boundaries _ List.mem_cons_self) h.solid (h.boundaries a ha)
    (h.inside a ha).1 (h.inside a ha).2

theorem crlf_lineEnd : (list.body source).lineEnd.Crlf := by
  rw [h.returned.lineEnd_eq h.feeds]
  decide

theorem crlf_spacedComment {comment : Comment} (hc : comment ∈ list.comments) :
    (Body.spacedComment source comment).Crlf := by
  have htoken := WellFormed.comment_mem_tokens hc
  exact (h.crlf_blankBefore (start_mem_ends htoken)).append
    (h.crlf_between (start_mem_ends htoken) (stop_mem_ends htoken))

theorem crlf_lineComments {following : Text} {comments : List Comment}
    (hc : ∀ comment ∈ comments, comment ∈ list.comments) :
    (Body.lineComments source (list.body source).lineEnd following comments).Crlf := by
  have hend : ∀ present : Bool,
      Text.Crlf (if present then [] else (list.body source).lineEnd) := by
    intro present
    cases present
    · exact h.crlf_lineEnd
    · exact Text.crlf_of_notMem (by simp)
  fun_induction Body.lineComments source (list.body source).lineEnd following comments with
  | case1 => exact Text.crlf_of_notMem (by simp)
  | case2 comment => exact (h.crlf_spacedComment (hc comment (by simp))).append (hend _)
  | case3 comment next rest ih =>
      exact ((h.crlf_spacedComment (hc comment (by simp))).append (hend _)).append
        (ih fun other hother => hc other (List.mem_cons_of_mem _ hother))

theorem crlf_memberText {separator following : Text} {member : Member} {share : MemberComments}
    (hseparator : '\n' ∉ separator) (hm : member ∈ list.members)
    (hshare : ∀ comment ∈ share.all, comment ∈ list.comments) :
    (Body.memberText source (list.body source).lineEnd separator following member share).Crlf := by
  have hdeclaration := WellFormed.token_mem_tokens hm member.declaration_mem_tokens
  have htrailing : ∀ kind, ∀ comment ∈ share.trailingOf kind, comment ∈ list.comments :=
    fun kind comment hc => hshare comment (List.mem_append_right _ (List.mem_filter.mp hc).1)
  have hleading : (Body.leadingText source member share).Crlf := by
    unfold Body.leadingText
    split
    · exact Text.crlf_of_notMem (by simp)
    · rename_i first rest hfirst
      have hc := hshare first (List.mem_append_left _ (hfirst ▸ List.mem_cons_self))
      exact h.crlf_between (start_mem_ends (WellFormed.comment_mem_tokens hc))
        (start_mem_ends hdeclaration)
  have hblocks : Text.Crlf ((share.trailingOf .block).flatMap (Body.spacedComment source)) :=
    Text.crlf_flatMap fun comment hc => h.crlf_spacedComment (htrailing .block comment hc)
  exact (((hleading.append (h.crlf_between (start_mem_ends hdeclaration)
    (stop_mem_ends hdeclaration))).append hblocks).append (Text.crlf_of_notMem hseparator)).append
    (h.crlf_lineComments (htrailing .line))

theorem crlf_indentation (slot : Nat) : ((list.trivia source).indentation source slot).Crlf := by
  unfold BodyTrivia.indentation
  split
  · rename_i own hown
    obtain ⟨member, share, hm, hs, rfl⟩ := exists_share_of_trivia hown
    -- a slot is indented up to the first leading comment, or else up to the declaration
    simp only [MemberComments.withIndentation]
    refine h.crlf_blankBefore ?_
    split
    · exact start_mem_ends (WellFormed.token_mem_tokens (List.mem_of_getElem? hm)
        member.declaration_mem_tokens)
    · rename_i first rest hfirst
      exact start_mem_ends (WellFormed.comment_mem_tokens (mem_of_mem_share hs
        (List.mem_append_left _ (hfirst ▸ List.mem_cons_self))))
  · exact Text.crlf_of_notMem (by simp)

theorem crlf_tail : ((list.trivia source).tail source list).Crlf := by
  have hends : (list.trivia source).tailStart ∈ list.ends := by
    show list.tailStart list.shares ∈ list.ends
    cases hlast : list.members.getLast? with
    | none =>
        simp only [tailStart, hlast]
        exact List.mem_cons_self
    | some last =>
        have hne : list.shares ≠ [] := by
          intro hnil
          have hlength := congrArg List.length hnil
          rw [MemberComments.length_attach, List.length_nil, List.length_eq_zero_iff] at hlength
          simp [hlength] at hlast
        obtain ⟨share, hshare⟩ := Option.ne_none_iff_exists'.mp (mt List.getLast?_eq_none_iff.mp hne)
        rcases tailStart_eq_or hlast hshare with heq | ⟨final, hfinal, heq⟩
        · exact heq ▸ stop_mem_ends (WellFormed.token_mem_tokens (List.mem_of_getLast? hlast)
            last.lastToken_mem_tokens)
        · exact heq ▸ stop_mem_ends (WellFormed.comment_mem_tokens (MemberComments.attach_subset _ _ _
            share (List.mem_of_getLast? hshare) final (List.mem_append_right _ hfinal)))
  exact h.crlf_between hends (List.mem_cons_of_mem _ List.mem_cons_self)

theorem crlf_slotText (slot index : Nat) (rest : List Nat) :
    (list.slotText source (list.trivia source) slot index rest).Crlf := by
  unfold slotText
  cases hm : list.members[index]? with
  | none => simpa using h.crlf_indentation slot
  | some member =>
      cases ht : (list.trivia source).members[index]? with
      | none => simpa using h.crlf_indentation slot
      | some own =>
          obtain ⟨_, share, -, hs, rfl⟩ := exists_share_of_trivia ht
          refine (h.crlf_indentation slot).append (h.crlf_memberText ?_ (List.mem_of_getElem? hm)
            fun comment hc => mem_of_mem_share hs hc)
          split <;> cases list.kind <;> simp [ListKind.separator]

theorem crlf_slotTexts (slot : Nat) (order : List Nat) :
    (list.slotTexts source (list.trivia source) slot order).Crlf := by
  induction order generalizing slot with
  | nil => exact Text.crlf_of_notMem (by simp [slotTexts])
  | cons index rest ih => exact (h.crlf_slotText slot index rest).append (ih (slot + 1))

end HasCrlf

/-- **A body with carriage returns keeps them in every order.** -/
theorem rebuildBody_crlf (h : list.HasCrlf source) (order : List Nat) :
    (list.rebuildBody source (list.trivia source) order).Crlf :=
  (h.crlf_slotTexts 0 order).append h.crlf_tail

/-- A body with carriage returns, with two members on one line and a line comment behind them. -/
def returnedSource : Text := "\x7b\r\n a;b // c\r\n\x7d".toList

/-- The members and comments of `returnedSource`. -/
def returned : MemberList where
  kind := .interface
  opening := ⟨0, 1, 0, 0⟩
  closing := ⟨14, 15, 2, 2⟩
  parent := ⟨0, 15, 0, 2⟩
  members :=
    [{ kind := .property, name := some "a", optional := false
       declaration := ⟨4, 5, 1, 1⟩, terminator := some ⟨5, 6, 1, 1⟩ },
     { kind := .property, name := some "b", optional := false
       declaration := ⟨6, 7, 1, 1⟩, terminator := none }]
  comments := [⟨.line, ⟨8, 12, 1, 1⟩⟩]
  stringValued := false

/-- In reverse order, a line end is added behind the comment. -/
theorem rebuildBody_crlf_reversed :
    returned.HasCrlf returnedSource
      ∧ returned.rebuildBody returnedSource (returned.trivia returnedSource) [1, 0]
        = "\r\n b; // c\r\na\r\n".toList
      ∧ (returned.rebuildBody returnedSource (returned.trivia returnedSource) [1, 0]).Crlf := by
  have h : returned.HasCrlf returnedSource := by
    refine ⟨?_, ?_, ?_, ?_, ?_, ?_⟩ <;> decide +kernel
  exact ⟨h, by decide +kernel, rebuildBody_crlf h [1, 0]⟩

end MemberList

end KeyOrder
