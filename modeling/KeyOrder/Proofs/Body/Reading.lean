import KeyOrder.Proofs.Body.Attribution
import KeyOrder.Proofs.Order.Enforcement

/-!
# What an evaluation reads of its source

An evaluation sees its source through slices only: the declarations it names in messages or writes
again, the comments with the white space in front of them, and the end of the body. Here it is
written once more over a `Reader`, which cuts slices out of a source and may refuse.

`MemberList.ReadBy` lists every slice that may be asked for. **A reader that gives them all takes
part in an evaluation unnoticed** (`MemberList.ReadBy.reproduces`): names, shares, rebuilt bodies
and whole evaluations come out as they do with slices that never fail. A reader that refuses nothing
(`Text.anywhere`) gives them for every list, so what is written here is the evaluation itself.
-/

namespace KeyOrder

/-- A way to cut the text between two offsets out of a source. It may refuse. -/
abbrev Reader := Nat → Nat → Option Text

/-- Every slice of a text, also where nothing is left of it. -/
def Text.anywhere (source : Text) : Reader := fun start stop => some (source.slice start stop)

/-- Where the first leading comment of a member starts, or else its declaration. -/
def MemberComments.firstStart (member : Member) (comments : MemberComments) : Nat :=
  match comments.leading with
  | [] => member.declaration.start
  | comment :: _ => comment.span.start

namespace Reader

/-! ## The evaluation over a reader -/

/-- The name used in messages. Only a member without a sorting name is read. -/
def displayName (read : Reader) (member : Member) : Option String :=
  match member.name with
  | some name => some name
  | none => do return String.ofList (← read member.declaration.start member.declaration.stop)

/-- Where sorting puts the member at a position. -/
def placement (read : Reader) (plan : Plan) (members : List Member) (position : Position) :
    Option Placement :=
  match (plan.nextSorted position.final).bind (members[·]?) with
  | some next => do return .before (← read.displayName next)
  | none => some .atEnd

/-- What is said about one reported member. -/
def violation (read : Reader) (plan : Plan) (members : List Member)
    (reported : Member × Position) : Option Violation := do
  return ⟨reported.2.initial, ← read.displayName reported.1,
    ← read.placement plan members reported.2⟩

/-- What is said about each reported member. -/
def violations (read : Reader) (plan : Plan) (members : List Member) : Option (List Violation) :=
  ((members.zip plan.positions).filter fun pair => plan.reports members pair.2).mapM
    (read.violation plan members)

/-- Offset at which the white space that ends at `position` starts. -/
def blankStart (read : Reader) (position : Nat) : Option Nat := do
  return (Text.trimEnd (← read 0 position)).byteLength

/-- White space immediately before `position`. -/
def blankBefore (read : Reader) (position : Nat) : Option Text := do
  read (← read.blankStart position) position

/-- The white space in front of a member's slot, beside its comments. -/
def withIndentation (read : Reader) (own : Member × MemberComments) : Option MemberTrivia := do
  let earliest := own.2.firstStart own.1
  return { own.2 with indentStart := ← read.blankStart earliest, indentStop := earliest }

/-- The comments and white space of a member list. -/
def trivia (read : Reader) (list : MemberList) : Option BodyTrivia := do
  let (comments, endComments) := MemberComments.attach none list.members list.comments
  let members ← (list.members.zip comments).mapM read.withIndentation
  return { members, endComments, tailStart := list.tailStart comments }

/-- White space in front of a slot. -/
def indentation (read : Reader) (trivia : BodyTrivia) (slot : Nat) : Option Text :=
  match trivia.members[slot]? with
  | some member => read member.indentStart member.indentStop
  | none => some []

/-- The text that stays at the end of the body. -/
def tail (read : Reader) (trivia : BodyTrivia) (list : MemberList) : Option Text :=
  read trivia.tailStart list.bodyStop

/-- A comment with the white space in front of it. -/
def spacedComment (read : Reader) (comment : Comment) : Option Text := do
  return (← read.blankBefore comment.span.start) ++ (← read comment.span.start comment.span.stop)

/-- Line comments one after another. -/
def lineComments (read : Reader) (lineEnd following : Text) : List Comment → Option Text
  | [] => some []
  | [comment] => do
    return (← read.spacedComment comment) ++ (if following.contains '\n' then [] else lineEnd)
  | comment :: next :: rest => do
    return (← read.spacedComment comment) ++
      (if (← read.blankBefore next.span.start).contains '\n' then [] else lineEnd) ++
      (← lineComments read lineEnd following (next :: rest))

/-- The leading comments of a member with the white space behind each. -/
def leadingText (read : Reader) (member : Member) (comments : MemberComments) : Option Text :=
  match comments.leading with
  | [] => some []
  | first :: _ => read first.span.start member.declaration.start

/-- A member with its comments, as it is written into a slot in front of `following`. -/
def memberText (read : Reader) (lineEnd separator following : Text) (member : Member)
    (comments : MemberComments) : Option Text := do
  return (← read.leadingText member comments) ++
    (← read member.declaration.start member.declaration.stop) ++
    (← (comments.trailingOf .block).mapM read.spacedComment).flatten ++ separator ++
    (← read.lineComments lineEnd following (comments.trailingOf .line))

/-- What is written into one slot. `rest` holds the members of the slots behind it. -/
def slotText (read : Reader) (list : MemberList) (lineEnd : Text) (trivia : BodyTrivia)
    (slot index : Nat) (rest : List Nat) : Option Text := do
  let last := rest.isEmpty
  let separator := if !last || list.endsWithTerminator then [list.kind.separator] else []
  let behind := if last then read.tail trivia list else read.indentation trivia (slot + 1)
  let following ← behind
  let indentation ← read.indentation trivia slot
  match list.members[index]?, trivia.members[index]? with
  | some member, some comments =>
    return indentation ++
      (← read.memberText lineEnd separator following member comments.toMemberComments)
  | _, _ => return indentation

/-- What is written into the slots from `slot` on. -/
def slotTexts (read : Reader) (list : MemberList) (lineEnd : Text) (trivia : BodyTrivia)
    (slot : Nat) : List Nat → Option Text
  | [] => some []
  | index :: rest => do
    return (← read.slotText list lineEnd trivia slot index rest) ++
      (← slotTexts read list lineEnd trivia (slot + 1) rest)

/-- The text between the braces with the members in the order `order`. The body is read as a whole
for its line end. -/
def rebuildBody (read : Reader) (list : MemberList) (trivia : BodyTrivia) (order : List Nat) :
    Option Text := do
  let tail ← read.tail trivia list
  let lineEnd := (← read list.bodyStart list.bodyStop).lineEnd
  return (← read.slotTexts list lineEnd trivia 0 order) ++ tail

/-- The evaluation of a member list. -/
def evaluation (read : Reader) (options : SortOptions) (list : MemberList) :
    Option Evaluation := do
  let plan := options.plan list.members
  let selection := plan.select list.members
  let violations ← read.violations plan list.members
  let replacement ←
    if selection.count = 0 then some none
    else do
      let trivia ← read.trivia list
      some <$> read.rebuildBody list trivia plan.sorted
  return { plan, selection, violations, replacement }

/-! ## Readers that give every slice -/

/-- Whether a reader gives the slice between two offsets. -/
def Gives (read : Reader) (source : Text) (start stop : Nat) : Prop :=
  read start stop = some (source.slice start stop)

/-- Whether a reader gives the slices by which the white space before an offset is found. -/
structure GivesBlank (read : Reader) (source : Text) (position : Nat) : Prop where
  front : read.Gives source 0 position
  run : read.Gives source (source.blankStart position) position

end Reader

/-- **All slices an evaluation may ask for**: the body, every declaration and comment, what stands
between a leading comment and its declaration, what may stay at the end of the body, and the white
space in front of a declaration or a comment. -/
structure MemberList.ReadBy (list : MemberList) (source : Text) (read : Reader) : Prop where
  body : read.Gives source list.bodyStart list.bodyStop
  declaration : ∀ member ∈ list.members,
    read.Gives source member.declaration.start member.declaration.stop
  comment : ∀ comment ∈ list.comments, read.Gives source comment.span.start comment.span.stop
  leading : ∀ member ∈ list.members, ∀ comment ∈ list.comments,
    comment.span.start < member.declaration.start →
      read.Gives source comment.span.start member.declaration.start
  behindMember : ∀ member ∈ list.members, read.Gives source member.lastToken.stop list.bodyStop
  behindComment : ∀ comment ∈ list.comments, read.Gives source comment.span.stop list.bodyStop
  beforeMember : ∀ member ∈ list.members, read.GivesBlank source member.declaration.start
  beforeComment : ∀ comment ∈ list.comments, read.GivesBlank source comment.span.start

/-- **A reader takes part in the evaluations of a list unnoticed.** -/
structure Reader.Reproduces (read : Reader) (source : Text) (list : MemberList) : Prop where
  displayName : ∀ member ∈ list.members, read.displayName member = some (member.displayName source)
  trivia : read.trivia list = some (list.trivia source)
  rebuildBody : ∀ order, read.rebuildBody list (list.trivia source) order
    = some (list.rebuildBody source (list.trivia source) order)
  evaluation : ∀ options : SortOptions,
    read.evaluation options list = some (options.computeEvaluation source list)

namespace MemberComments

/-- What leads a member starts before its declaration. -/
theorem leading_startsBefore {previous : Option Member} {members : List Member}
    {comments : List Comment} {index : Nat} {member : Member} {share : MemberComments}
    (hm : members[index]? = some member)
    (hs : (attach previous members comments).1[index]? = some share) :
    ∀ comment ∈ share.leading, startsBefore member comment = true := by
  have hfilter : ∀ (first : Member) (test : Comment → Bool) (comments : List Comment),
      ∀ comment ∈ (comments.takeWhile (startsBefore first)).filter test,
        startsBefore first comment = true :=
    fun first test comments comment hc =>
      List.all_eq_true.mp List.all_takeWhile comment (List.mem_filter.mp hc).1
  fun_induction attach previous members comments generalizing index with
  | case1 => simp at hm
  | case2 previous first comments leading =>
      cases index with
      | zero =>
          simp only [List.getElem?_cons_zero, Option.some.injEq] at hm hs
          subst hm hs
          exact hfilter first _ comments
      | succ index => simp at hm
  | case3 previous first next members comments leading behind trailing others rest heq =>
      rename_i ih
      cases index with
      | zero =>
          simp only [List.getElem?_cons_zero, Option.some.injEq] at hm hs
          subst hm hs
          exact hfilter first _ comments
      | succ index =>
          rw [heq] at ih
          exact ih hm hs

end MemberComments

namespace MemberList.ReadBy

variable {list : MemberList} {source : Text} {read : Reader}

/-! ## Messages -/

theorem displayName_eq (h : list.ReadBy source read) {member : Member}
    (hm : member ∈ list.members) :
    read.displayName member = some (member.displayName source) := by
  cases hname : member.name with
  | some name => simp only [Reader.displayName, Member.displayName, hname, Option.getD_some]
  | none =>
      have hread := h.declaration member hm
      simp only [Reader.displayName, Member.displayName, hname, Option.getD_none]
      rw [hread]
      rfl

theorem placement_eq (h : list.ReadBy source read) (plan : Plan) (position : Position) :
    read.placement plan list.members position
      = some (plan.placement list.members source position) := by
  unfold Reader.placement Plan.placement
  cases hnext : (plan.nextSorted position.final).bind (list.members[·]?) with
  | none => rfl
  | some next =>
      obtain ⟨index, -, hindex⟩ := Option.bind_eq_some_iff.mp hnext
      simp only [h.displayName_eq (List.mem_of_getElem? hindex)]
      rfl

theorem violations_eq (h : list.ReadBy source read) (plan : Plan) :
    read.violations plan list.members = some (plan.violations list.members source) := by
  have hviolation : ∀ reported ∈ (list.members.zip plan.positions).filter
      (fun pair => plan.reports list.members pair.2),
      read.violation plan list.members reported = pure ⟨reported.2.initial,
        reported.1.displayName source, plan.placement list.members source reported.2⟩ := by
    rintro ⟨member, position⟩ hreported
    have hm := (List.of_mem_zip (List.mem_filter.mp hreported).1).1
    simp only [Reader.violation, h.displayName_eq hm, h.placement_eq]
    rfl
  rw [Reader.violations, mapM_eq_pure_map hviolation, ← List.filterMap_eq_map,
    List.filterMap_filter]
  rfl

/-! ## Shares -/

theorem blankStart_eq {position : Nat} (h : read.GivesBlank source position) :
    read.blankStart position = some (source.blankStart position) := by
  have hfront := h.front
  rw [Reader.Gives, Text.slice_zero] at hfront
  rw [Reader.blankStart, hfront]
  rfl

theorem blankBefore_eq {position : Nat} (h : read.GivesBlank source position) :
    read.blankBefore position = some (source.blankBefore position) := by
  rw [Reader.blankBefore, blankStart_eq h]
  exact h.run

/-- The white space in front of a slot ends at a comment of the list or at a declaration. -/
theorem givesBlank_firstStart (h : list.ReadBy source read) {index : Nat} {member : Member}
    {share : MemberComments} (hm : list.members[index]? = some member)
    (hs : list.shares[index]? = some share) :
    read.GivesBlank source (share.firstStart member) := by
  unfold MemberComments.firstStart
  split
  case h_1 => exact h.beforeMember member (List.mem_of_getElem? hm)
  case h_2 first rest hleading =>
    have hfirst : first ∈ share.all := List.mem_append_left _ (hleading ▸ List.mem_cons_self)
    exact h.beforeComment first (mem_of_mem_share hs hfirst)

theorem trivia_eq (h : list.ReadBy source read) :
    read.trivia list = some (list.trivia source) := by
  have hown : ∀ own ∈ list.members.zip list.shares,
      read.withIndentation own = pure (own.2.withIndentation source own.1) := by
    rintro ⟨member, share⟩ hown
    obtain ⟨index, hindex⟩ := List.mem_iff_getElem?.mp hown
    obtain ⟨hm, hs⟩ := List.getElem?_zip_eq_some.mp hindex
    rw [Reader.withIndentation, blankStart_eq (h.givesBlank_firstStart hm hs)]
    rfl
  simp only [Reader.trivia, mapM_eq_pure_map hown, MemberList.trivia,
    ← List.map_uncurry_zip_eq_zipWith]
  rfl

/-! ## Rebuilt bodies -/

theorem indentation_eq (h : list.ReadBy source read) (slot : Nat) :
    read.indentation (list.trivia source) slot
      = some ((list.trivia source).indentation source slot) := by
  unfold Reader.indentation BodyTrivia.indentation
  cases htrivia : (list.trivia source).members[slot]? with
  | none => rfl
  | some own =>
      obtain ⟨member, share, hm, hs, rfl⟩ := exists_share_of_trivia htrivia
      exact (h.givesBlank_firstStart hm hs).run

/-- The end of the body starts behind a member, behind a comment or at the opening brace. -/
theorem tail_eq (h : list.ReadBy source read) :
    read.tail (list.trivia source) list = some ((list.trivia source).tail source list) := by
  show read.Gives source (list.tailStart list.shares) list.bodyStop
  cases hlast : list.members.getLast? with
  | none =>
      rw [tailStart, hlast]
      exact h.body
  | some last =>
      have hne : list.shares ≠ [] := by
        intro hnil
        have hlength : list.shares.length = list.members.length :=
          MemberComments.length_attach _ _ _
        rw [hnil, List.length_nil] at hlength
        rw [List.eq_nil_of_length_eq_zero hlength.symm] at hlast
        cases hlast
      have hshare := List.getLast?_eq_some_getLast hne
      rcases tailStart_eq_or hlast hshare with heq | ⟨final, hfinal, heq⟩
      · rw [heq]
        exact h.behindMember last (List.mem_of_getLast? hlast)
      · rw [heq]
        exact h.behindComment final (MemberComments.attach_subset none list.members list.comments _
          (List.getLast_mem hne) final (List.mem_append_right _ hfinal))

theorem spacedComment_eq (h : list.ReadBy source read) {comment : Comment}
    (hc : comment ∈ list.comments) :
    read.spacedComment comment = some (Body.spacedComment source comment) := by
  have hread := h.comment comment hc
  rw [Reader.spacedComment, blankBefore_eq (h.beforeComment comment hc), hread]
  rfl

theorem lineComments_eq (h : list.ReadBy source read) (lineEnd following : Text)
    {comments : List Comment} (hc : ∀ comment ∈ comments, comment ∈ list.comments) :
    read.lineComments lineEnd following comments
      = some (Body.lineComments source lineEnd following comments) := by
  fun_induction Body.lineComments source lineEnd following comments with
  | case1 => rfl
  | case2 comment =>
      rw [Reader.lineComments, h.spacedComment_eq (hc comment (by simp))]
      rfl
  | case3 comment next rest ih =>
      rw [Reader.lineComments, h.spacedComment_eq (hc comment (by simp)),
        blankBefore_eq (h.beforeComment next (hc next (by simp))),
        ih fun other hother => hc other (List.mem_cons_of_mem _ hother)]
      rfl

theorem memberText_eq (h : list.ReadBy source read) (lineEnd separator following : Text)
    {index : Nat} {member : Member} {share : MemberComments}
    (hm : list.members[index]? = some member) (hs : list.shares[index]? = some share) :
    read.memberText lineEnd separator following member share
      = some (Body.memberText source lineEnd separator following member share) := by
  have hmem := List.mem_of_getElem? hm
  have hleading : read.leadingText member share = some (Body.leadingText source member share) := by
    unfold Reader.leadingText Body.leadingText
    cases hfirst : share.leading with
    | nil => rfl
    | cons first rest =>
        have hfirst' : first ∈ share.leading := hfirst ▸ List.mem_cons_self
        have hstarts := MemberComments.leading_startsBefore hm hs first hfirst'
        exact h.leading member hmem first (mem_of_mem_share hs (List.mem_append_left _ hfirst'))
          (of_decide_eq_true hstarts)
  have htrailing : ∀ kind, ∀ comment ∈ share.trailingOf kind, comment ∈ list.comments :=
    fun kind comment hc =>
      mem_of_mem_share hs (List.mem_append_right _ (List.mem_filter.mp hc).1)
  have hblocks : ∀ comment ∈ share.trailingOf .block,
      read.spacedComment comment = pure (Body.spacedComment source comment) :=
    fun comment hc => h.spacedComment_eq (htrailing .block comment hc)
  have hdeclaration := h.declaration member hmem
  rw [Reader.memberText, hleading, hdeclaration, mapM_eq_pure_map hblocks,
    h.lineComments_eq lineEnd following (htrailing .line)]
  simp only [Body.memberText, List.flatMap_def]
  rfl

theorem slotText_eq (h : list.ReadBy source read) (slot index : Nat) (rest : List Nat) :
    read.slotText list (list.body source).lineEnd (list.trivia source) slot index rest
      = some (list.slotText source (list.trivia source) slot index rest) := by
  have hfollowing : (if rest.isEmpty then read.tail (list.trivia source) list
      else read.indentation (list.trivia source) (slot + 1))
      = some (if rest.isEmpty then (list.trivia source).tail source list
        else (list.trivia source).indentation source (slot + 1)) := by
    split
    · exact h.tail_eq
    · exact h.indentation_eq _
  simp only [Reader.slotText, hfollowing, MemberList.slotText]
  simp only [h.indentation_eq, Option.bind_eq_bind, Option.bind_some]
  cases hm : list.members[index]? with
  | none => rfl
  | some member =>
      cases htrivia : (list.trivia source).members[index]? with
      | none => rfl
      | some own =>
          obtain ⟨member', share, hm', hs, rfl⟩ := exists_share_of_trivia htrivia
          cases hm.symm.trans hm'
          simp only [MemberComments.withIndentation, h.memberText_eq _ _ _ hm hs]
          rfl

theorem slotTexts_eq (h : list.ReadBy source read) (slot : Nat) (order : List Nat) :
    read.slotTexts list (list.body source).lineEnd (list.trivia source) slot order
      = some (list.slotTexts source (list.trivia source) slot order) := by
  induction order generalizing slot with
  | nil => rfl
  | cons index rest ih =>
      rw [Reader.slotTexts, h.slotText_eq, ih]
      rfl

theorem rebuildBody_eq (h : list.ReadBy source read) (order : List Nat) :
    read.rebuildBody list (list.trivia source) order
      = some (list.rebuildBody source (list.trivia source) order) := by
  have hbody : read list.bodyStart list.bodyStop = some (list.body source) := h.body
  have hslots := h.slotTexts_eq 0 order
  simp only [Reader.rebuildBody, h.tail_eq, hbody, Option.bind_eq_bind, Option.bind_some, hslots]
  rfl

theorem evaluation_eq (h : list.ReadBy source read) (options : SortOptions) :
    read.evaluation options list = some (options.computeEvaluation source list) := by
  simp only [Reader.evaluation, SortOptions.computeEvaluation, h.violations_eq, h.trivia_eq,
    h.rebuildBody_eq, Option.bind_eq_bind, Option.bind_some]
  split <;> rfl

/-- **A reader that gives all slices takes part unnoticed.** -/
theorem reproduces (h : list.ReadBy source read) : read.Reproduces source list where
  displayName := fun _ => h.displayName_eq
  trivia := h.trivia_eq
  rebuildBody := h.rebuildBody_eq
  evaluation := h.evaluation_eq

end MemberList.ReadBy

/-- **The evaluation over a reader is the evaluation**, of any list whatever, as long as no slice is
refused. -/
theorem Text.anywhere_reproduces (source : Text) (list : MemberList) :
    source.anywhere.Reproduces source list := by
  have hgives : ∀ start stop, source.anywhere.Gives source start stop := fun _ _ => rfl
  have hblank : ∀ position, source.anywhere.GivesBlank source position :=
    fun _ => ⟨hgives _ _, hgives _ _⟩
  exact MemberList.ReadBy.reproduces
    { body := hgives _ _
      declaration := fun _ _ => hgives _ _
      comment := fun _ _ => hgives _ _
      leading := fun _ _ _ _ _ => hgives _ _
      behindMember := fun _ _ => hgives _ _
      behindComment := fun _ _ => hgives _ _
      beforeMember := fun _ _ => hblank _
      beforeComment := fun _ _ => hblank _ }

end KeyOrder
