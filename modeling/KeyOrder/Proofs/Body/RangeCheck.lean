import KeyOrder.Memo
import KeyOrder.Proofs.Body.Reading

/-!
# What the range check guarantees

Before a list is evaluated its ranges are compared with the source, so that no slice reaches outside
of it. The check looks at outer ends only: at the body and the end of the closing brace, at the
start of each declaration and the end of its last token, and at the ends of each comment
(`MemberList.Checked`). That leaves some bounds open (`MemberList.LeftOpen`): that spans end no
earlier than they start, that a separator starts inside the body, and that a declaration in front of
a separator ends there.

**For a list that is not refused, the open bounds are all that is missing for every span to lie
inside the body and the body inside the source** (`SortOptions.rangeCheck_complete_iff`); where they
hold, no slice of an evaluation reaches outside the source, and if no span cuts a character, no
slice fails at all. They can fail: a declaration that ends behind the source is let through if a
separator is written (`SortOptions.overlong_not_refused`).
-/

namespace KeyOrder

namespace MemberList

/-! ## Spans inside the source -/

/-- A span between the braces whose ends are in order. -/
structure InBody (list : MemberList) (span : Span) : Prop where
  start_le : list.bodyStart ≤ span.start
  le : span.start ≤ span.stop
  le_stop : span.stop ≤ list.bodyStop

/-- **Every span of a list lies inside the body, and the body inside the source.** -/
structure SpansInside (list : MemberList) (source : Text) : Prop where
  braces : list.bodyStart ≤ list.bodyStop
  stop_le : list.bodyStop ≤ source.byteLength
  declaration : ∀ member ∈ list.members, list.InBody member.declaration
  terminator : ∀ member ∈ list.members, ∀ terminator ∈ member.terminator, list.InBody terminator
  comment : ∀ comment ∈ list.comments, list.InBody comment.span

/-- The bounds that are compared before a list is evaluated. -/
structure Checked (list : MemberList) (source : Text) : Prop where
  braces : list.bodyStart ≤ list.bodyStop
  closing : list.closing.stop ≤ source.byteLength
  member : ∀ member ∈ list.members,
    list.bodyStart ≤ member.declaration.start ∧ member.lastToken.stop ≤ list.bodyStop
  comment : ∀ comment ∈ list.comments,
    list.bodyStart ≤ comment.span.start ∧ comment.span.stop ≤ list.bodyStop

/-- **The bounds that are not compared**, though a slice depends on them. -/
structure LeftOpen (list : MemberList) (source : Text) : Prop where
  stop_le : list.bodyStop ≤ source.byteLength
  declaration : ∀ member ∈ list.members, member.declaration.start ≤ member.declaration.stop
  /-- Without a separator the declaration is the last token, whose end is compared. -/
  declaration_stop : ∀ member ∈ list.members, member.terminator.isSome →
    member.declaration.stop ≤ list.bodyStop
  terminator : ∀ member ∈ list.members, ∀ terminator ∈ member.terminator,
    list.bodyStart ≤ terminator.start ∧ terminator.start ≤ terminator.stop
  comment : ∀ comment ∈ list.comments, comment.span.start ≤ comment.span.stop

variable {list : MemberList} {source : Text}

theorem outside?_eq_none_iff : list.outside? = none ↔
    (∀ member ∈ list.members,
      list.bodyStart ≤ member.declaration.start ∧ member.lastToken.stop ≤ list.bodyStop)
    ∧ ∀ comment ∈ list.comments,
      list.bodyStart ≤ comment.span.start ∧ comment.span.stop ≤ list.bodyStop := by
  simp [outside?, List.findSome?_eq_none_iff, Span.contains]

/-- **A list passes the check exactly if the compared bounds hold.** -/
theorem checkRanges_eq_ok_iff : list.checkRanges source = .ok () ↔ list.Checked source := by
  constructor
  · intro h
    simp only [checkRanges] at h
    split at h
    · cases h
    next hbraces =>
      simp only [Bool.or_eq_true, decide_eq_true_eq, not_or, Nat.not_lt] at hbraces
      split at h
      · cases h
      next hinside =>
        obtain ⟨hmember, hcomment⟩ := outside?_eq_none_iff.mp hinside
        exact ⟨hbraces.1, hbraces.2, hmember, hcomment⟩
  · intro h
    have hbraces : ¬ list.closing.start < list.opening.stop := Nat.not_lt.mpr h.braces
    have hclosing : ¬ source.byteLength < list.closing.stop := Nat.not_lt.mpr h.closing
    simp [checkRanges, hbraces, hclosing, outside?_eq_none_iff.mpr ⟨h.member, h.comment⟩]

/-- **The open bounds are what the check lacks.** -/
theorem Checked.spansInside_iff (h : list.Checked source) :
    list.SpansInside source ↔ list.LeftOpen source := by
  constructor
  · intro hinside
    exact
      { stop_le := hinside.stop_le
        declaration := fun member hm => (hinside.declaration member hm).le
        declaration_stop := fun member hm _ => (hinside.declaration member hm).le_stop
        terminator := fun member hm terminator ht =>
          ⟨(hinside.terminator member hm terminator ht).start_le,
            (hinside.terminator member hm terminator ht).le⟩
        comment := fun comment hc => (hinside.comment comment hc).le }
  · intro hopen
    have hdeclaration : ∀ member ∈ list.members, list.InBody member.declaration := by
      intro member hm
      obtain ⟨hstart, hlast⟩ := h.member member hm
      refine ⟨hstart, hopen.declaration member hm, ?_⟩
      cases hterm : member.terminator with
      | none => simpa [Member.lastToken, hterm] using hlast
      | some terminator => exact hopen.declaration_stop member hm (by simp [hterm])
    have hterminator : ∀ member ∈ list.members, ∀ terminator ∈ member.terminator,
        list.InBody terminator := by
      intro member hm terminator ht
      obtain ⟨hstart, hle⟩ := hopen.terminator member hm terminator ht
      have hlast := (h.member member hm).2
      rw [Option.mem_def] at ht
      exact ⟨hstart, hle, by simpa [Member.lastToken, ht] using hlast⟩
    have hcomment : ∀ comment ∈ list.comments, list.InBody comment.span := by
      intro comment hc
      obtain ⟨hstart, hstop⟩ := h.comment comment hc
      exact ⟨hstart, hopen.comment comment hc, hstop⟩
    exact ⟨h.braces, hopen.stop_le, hdeclaration, hterminator, hcomment⟩

/-- **Spans that end no earlier than they start, and separators behind their declarations, are all
the check needs.** -/
theorem Checked.spansInside_of_proper (h : list.Checked source)
    (hclosing : list.closing.start ≤ list.closing.stop)
    (hdeclaration : ∀ member ∈ list.members, member.declaration.start ≤ member.declaration.stop)
    (hterminator : ∀ member ∈ list.members, ∀ terminator ∈ member.terminator,
      member.declaration.stop ≤ terminator.start ∧ terminator.start ≤ terminator.stop)
    (hcomment : ∀ comment ∈ list.comments, comment.span.start ≤ comment.span.stop) :
    list.SpansInside source := by
  refine h.spansInside_iff.mpr ⟨Nat.le_trans hclosing h.closing, hdeclaration, ?_, ?_, hcomment⟩
  · intro member hm hsome
    obtain ⟨terminator, hterm⟩ := Option.isSome_iff_exists.mp hsome
    have hlast := (h.member member hm).2
    obtain ⟨hbehind, hle⟩ := hterminator member hm terminator hterm
    rw [Member.lastToken, hterm, Option.getD_some] at hlast
    exact Nat.le_trans hbehind (Nat.le_trans hle hlast)
  · intro member hm terminator ht
    have hstart := (h.member member hm).1
    obtain ⟨hbehind, hle⟩ := hterminator member hm terminator ht
    exact ⟨Nat.le_trans hstart (Nat.le_trans (hdeclaration member hm) hbehind), hle⟩

end MemberList

/-! ## Slices inside the source -/

/-- The slices that do not reach outside a text. -/
def Text.within (source : Text) : Reader := fun start stop =>
  if start ≤ source.byteLength ∧ stop ≤ source.byteLength then some (source.slice start stop)
  else none

namespace MemberList.SpansInside

variable {list : MemberList} {source : Text}

theorem lastToken (h : list.SpansInside source) {member : Member} (hm : member ∈ list.members) :
    list.InBody member.lastToken := by
  cases hterm : member.terminator with
  | none =>
      rw [Member.lastToken, hterm]
      exact h.declaration member hm
  | some terminator =>
      rw [Member.lastToken, hterm]
      exact h.terminator member hm terminator hterm

/-- **No slice reaches outside the source.** -/
theorem readBy_within (h : list.SpansInside source) : list.ReadBy source source.within := by
  have hgives : ∀ {start stop}, start ≤ list.bodyStop → stop ≤ list.bodyStop →
      source.within.Gives source start stop := fun hstart hstop =>
    if_pos ⟨Nat.le_trans hstart h.stop_le, Nat.le_trans hstop h.stop_le⟩
  have hblank : ∀ {position}, position ≤ list.bodyStop →
      source.within.GivesBlank source position := fun {position} hle =>
    ⟨hgives (Nat.zero_le _) hle,
      if_pos ⟨source.blankStart_le_byteLength position, Nat.le_trans hle h.stop_le⟩⟩
  have hstart : ∀ {span}, list.InBody span → span.start ≤ list.bodyStop :=
    fun hspan => Nat.le_trans hspan.le hspan.le_stop
  exact
    { body := hgives h.braces (Nat.le_refl _)
      declaration := fun member hm =>
        hgives (hstart (h.declaration member hm)) (h.declaration member hm).le_stop
      comment := fun comment hc =>
        hgives (hstart (h.comment comment hc)) (h.comment comment hc).le_stop
      leading := fun member hm comment hc _ =>
        hgives (hstart (h.comment comment hc)) (hstart (h.declaration member hm))
      behindMember := fun member hm => hgives (h.lastToken hm).le_stop (Nat.le_refl _)
      behindComment := fun comment hc => hgives (h.comment comment hc).le_stop (Nat.le_refl _)
      beforeMember := fun member hm => hblank (hstart (h.declaration member hm))
      beforeComment := fun comment hc => hblank (hstart (h.comment comment hc)) }

/-- **No slice fails at all** if, besides, no end of a span cuts a character. -/
theorem reproduces_slice? (h : list.SpansInside source)
    (hbody : source.isBoundary list.bodyStart = true ∧ source.isBoundary list.bodyStop = true)
    (hmember : ∀ member ∈ list.members, source.isBoundary member.declaration.start = true
      ∧ source.isBoundary member.declaration.stop = true
      ∧ source.isBoundary member.lastToken.stop = true)
    (hcomment : ∀ comment ∈ list.comments, source.isBoundary comment.span.start = true
      ∧ source.isBoundary comment.span.stop = true) :
    Reader.Reproduces source.slice? source list := by
  have hgives : ∀ {start stop}, start ≤ stop → source.isBoundary start = true →
      source.isBoundary stop = true → Reader.Gives source.slice? source start stop :=
    fun hle hstart hstop => if_pos (by simp [hle, hstart, hstop])
  have hblank : ∀ {position}, source.isBoundary position = true →
      Reader.GivesBlank source.slice? source position := fun hposition =>
    ⟨hgives (Nat.zero_le _) (Text.isBoundary_append [] source) hposition,
      hgives (Text.blankStart_le hposition) (Text.isBoundary_blankStart hposition) hposition⟩
  exact MemberList.ReadBy.reproduces
    { body := hgives h.braces hbody.1 hbody.2
      declaration := fun member hm =>
        hgives (h.declaration member hm).le (hmember member hm).1 (hmember member hm).2.1
      comment := fun comment hc =>
        hgives (h.comment comment hc).le (hcomment comment hc).1 (hcomment comment hc).2
      leading := fun member hm comment hc hlt =>
        hgives (Nat.le_of_lt hlt) (hcomment comment hc).1 (hmember member hm).1
      behindMember := fun member hm =>
        hgives (h.lastToken hm).le_stop (hmember member hm).2.2 hbody.2
      behindComment := fun comment hc =>
        hgives (h.comment comment hc).le_stop (hcomment comment hc).2 hbody.2
      beforeMember := fun member hm => hblank (hmember member hm).1
      beforeComment := fun comment hc => hblank (hcomment comment hc).1 }

end MemberList.SpansInside

/-! ## Lists that are not refused -/

namespace SortOptions

variable {options : SortOptions} {source : Text} {list : MemberList}
  {answer : Except EvaluationError Evaluation}

/-- An answer to the request for an evaluation, without a memo or with one in any state. -/
inductive Answers (options : SortOptions) (source : Text) (list : MemberList) :
    Except EvaluationError Evaluation → Prop where
  | direct : Answers options source list (options.evaluate source list)
  | remembered (origin : Nat) (memo : Memo) : Answers options source list
      ((options.evaluateWith origin source list memo).1.map MemoEntry.evaluation)

/-- What the check refuses is refused with or without a memo. -/
theorem Answers.eq_of_refused (h : options.Answers source list answer) {error : EvaluationError}
    (hcheck : list.checkRanges source = .error error) : answer = .error error := by
  cases h with
  | direct =>
      rw [evaluate, hcheck]
      rfl
  | remembered origin memo =>
      simp only [evaluateWith, ask, hcheck]
      rfl

/-- What passes the check is not refused for its ranges later. -/
theorem Answers.ne_range_of_passed (h : options.Answers source list answer)
    (hcheck : list.checkRanges source = .ok ()) (start stop length : Nat) :
    answer ≠ .error (.rangeOutsideSource start stop length) := by
  cases h with
  | direct =>
      rw [evaluate_of_checkRanges hcheck]
      exact nofun
  | remembered origin memo =>
      simp only [evaluateWith, ask, hcheck]
      cases memo.get? (options.memoKey source list) with
      | none => exact nofun
      | some entry =>
          simp only [Option.map_some, MemoEntry.checkSize]
          split <;> exact nofun

/-- **The range check is complete exactly where the open bounds hold.** It refuses a list unless the
compared bounds hold. If they do, the open bounds are all that is missing for every span to lie
inside the body and the body inside the source, and then no slice of a message, a share, a rebuilt
body or an evaluation reaches outside the source. -/
theorem rangeCheck_complete_iff (hanswer : options.Answers source list answer) :
    ((∀ start stop length, answer ≠ .error (.rangeOutsideSource start stop length))
        ↔ list.Checked source)
      ∧ (list.Checked source → (list.SpansInside source ↔ list.LeftOpen source))
      ∧ (list.SpansInside source → source.within.Reproduces source list) := by
  refine ⟨?_, MemberList.Checked.spansInside_iff, fun hinside => hinside.readBy_within.reproduces⟩
  rw [← MemberList.checkRanges_eq_ok_iff]
  constructor
  · intro hrange
    cases hcheck : list.checkRanges source with
    | ok => rfl
    | error error =>
        obtain ⟨start, stop, length, rfl⟩ := exists_range_of_checkRanges hcheck
        exact absurd (hanswer.eq_of_refused hcheck) (hrange start stop length)
  · intro hcheck start stop length
    exact hanswer.ne_range_of_passed hcheck start stop length

/-- A body with comments of every standing passes the check and is read inside its source. -/
theorem rangeCheck_complete_sample :
    MemberList.sample.Checked MemberList.sampleSource
      ∧ MemberList.sample.SpansInside MemberList.sampleSource
      ∧ MemberList.sampleSource.within.Reproduces MemberList.sampleSource MemberList.sample := by
  have hcheck : MemberList.sample.checkRanges MemberList.sampleSource = .ok () := by decide
  have hopen : MemberList.sample.LeftOpen MemberList.sampleSource :=
    ⟨by decide, by decide, by decide, by decide, by decide⟩
  have hanswer : Answers {} MemberList.sampleSource MemberList.sample _ := .direct
  obtain ⟨hpasses, hiff, hreads⟩ := rangeCheck_complete_iff hanswer
  have hchecked : MemberList.sample.Checked MemberList.sampleSource :=
    hpasses.mp (hanswer.ne_range_of_passed hcheck)
  have hinside := (hiff hchecked).mpr hopen
  exact ⟨hchecked, hinside, hreads hinside⟩

/-- A body with one member, which has no name. -/
def overlongSource : Text := "interface A \x7b (): T; \x7d".toList

/-- A list for `overlongSource`: its declaration ends far behind the source, its separator does
not. -/
def overlong : MemberList where
  kind := .interface
  opening := ⟨12, 13, 0, 0⟩
  closing := ⟨21, 22, 0, 0⟩
  parent := ⟨0, 22, 0, 0⟩
  members :=
    [{ kind := .callSignature, name := none, optional := false
       declaration := ⟨14, 100, 0, 0⟩, terminator := some ⟨19, 20, 0, 0⟩ }]
  comments := []
  stringValued := false

/-- **A declaration behind the end of the source is let through** if its separator lies inside, and
then the name of the member is read outside the source. -/
theorem overlong_not_refused :
    (∃ evaluation, evaluate {} overlongSource overlong = .ok evaluation)
      ∧ ¬ overlong.SpansInside overlongSource
      ∧ ∃ member ∈ overlong.members, overlongSource.byteLength < member.declaration.stop
        ∧ overlongSource.within.displayName member = none := by
  refine ⟨⟨_, evaluate_of_checkRanges (by decide)⟩, ?_, _, List.mem_cons_self, by decide, by decide⟩
  intro h
  exact absurd (h.declaration _ List.mem_cons_self).le_stop (by decide)

end SortOptions

end KeyOrder
