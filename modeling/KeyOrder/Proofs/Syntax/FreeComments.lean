import KeyOrder.Proofs.Text.Halving
import KeyOrder.Syntax.Comments

/-!
# Which comments are free

The comments of a body are found by halving and cut off behind the body, and those inside a
declaration are left out by a walk along both sequences that never turns back. **This keeps exactly
the comments that lie in the body and in none of its declarations**, in their order
(`freeComments_eq_filter`): a declaration that the walk has left behind ends before every comment
still to come, and the one it stops at is the only one that can hold the comment at hand.
-/

namespace KeyOrder

/-- The front of a list up to the first element that fails a test is all of it that passes, if
nothing behind a failing element does. -/
theorem takeWhile_eq_filter {α : Type} {p : α → Bool} {l : List α}
    (h : l.Pairwise fun a b => p b = true → p a = true) : l.takeWhile p = l.filter p := by
  induction l with
  | nil => rfl
  | cons a rest ih =>
      rw [List.pairwise_cons] at h
      by_cases ha : p a = true
      · rw [List.takeWhile_cons_of_pos ha, List.filter_cons_of_pos ha, ih h.2]
      · rw [List.takeWhile_cons_of_neg ha, List.filter_cons_of_neg ha,
          List.filter_eq_nil_iff.mpr fun b hb hpb => ha (h.1 b hb hpb)]

/-! ## Comments in declarations -/

variable {comments : List Comment} {body : Span} {declarations : List Span}

theorem skipDeclared_sublist (comments : List Comment) (declarations : List Span) :
    (skipDeclared comments declarations).Sublist comments := by
  induction comments generalizing declarations with
  | nil => exact .slnil
  | cons comment rest ih =>
      simp only [skipDeclared]
      split
      · exact (ih _).cons comment
      · exact (ih _).cons_cons comment

/-- A declaration that ends before a comment starts holds no comment from there on. -/
theorem any_dropWhile_contains {start : Nat} {span : Span} (hstart : start ≤ span.start)
    (hproper : span.start < span.stop) :
    (declarations.dropWhile (·.stop ≤ start)).any (·.contains span) =
      declarations.any (·.contains span) := by
  have hnone : (declarations.takeWhile (·.stop ≤ start)).any (·.contains span) = false := by
    refine List.any_eq_false.mpr fun declaration hmem hcontains => ?_
    have hends := List.all_eq_true.mp List.all_takeWhile declaration hmem
    rw [Span.contains_iff] at hcontains
    simp only [decide_eq_true_eq] at hends
    omega
  calc (declarations.dropWhile (·.stop ≤ start)).any (·.contains span)
      = (declarations.takeWhile (·.stop ≤ start)
          ++ declarations.dropWhile (·.stop ≤ start)).any (·.contains span) := by
        rw [List.any_append, hnone, Bool.false_or]
    _ = declarations.any (·.contains span) := by rw [List.takeWhile_append_dropWhile]

/-- The first declaration that does not end before a comment is the only one that can hold it: the
others start behind its end, or cover nothing. -/
theorem any_head?_contains {span : Span} (hproper : span.start < span.stop)
    (hdeclarations : declarations.Pairwise fun a b => a.stop ≤ b.start ∨ b.stop ≤ b.start)
    (hends : ∀ declaration ∈ declarations.head?, span.start < declaration.stop) :
    declarations.head?.any (·.contains span) = declarations.any (·.contains span) := by
  cases declarations with
  | nil => rfl
  | cons first rest =>
      rw [List.pairwise_cons] at hdeclarations
      have hfirst := hends first rfl
      have hrest : rest.any (·.contains span) = false := by
        refine List.any_eq_false.mpr fun declaration hmem hcontains => ?_
        have := hdeclarations.1 declaration hmem
        rw [Span.contains_iff] at hcontains
        omega
      simp [hrest]

/-- **The walk along both sequences leaves out the comments that lie in a declaration.** -/
theorem skipDeclared_eq_filter
    (hcomments : comments.Pairwise fun a b => a.span.start ≤ b.span.start)
    (hproper : ∀ comment ∈ comments, comment.span.start < comment.span.stop)
    (hdeclarations : declarations.Pairwise fun a b => a.stop ≤ b.start ∨ b.stop ≤ b.start) :
    skipDeclared comments declarations =
      comments.filter fun comment => !declarations.any (·.contains comment.span) := by
  induction comments generalizing declarations with
  | nil => rfl
  | cons comment rest ih =>
      rw [List.pairwise_cons] at hcomments
      rw [List.forall_mem_cons] at hproper
      have hsub := List.dropWhile_sublist (l := declarations) (·.stop ≤ comment.span.start)
      -- the declarations left behind hold neither this comment nor one of the rest
      have hrest : skipDeclared rest (declarations.dropWhile (·.stop ≤ comment.span.start)) =
          rest.filter fun comment => !declarations.any (·.contains comment.span) := by
        rw [ih hcomments.2 hproper.2 (hdeclarations.sublist hsub)]
        refine List.filter_congr fun later hlater => ?_
        rw [any_dropWhile_contains (hcomments.1 later hlater) (hproper.2 later hlater)]
      have hhead : (declarations.dropWhile (·.stop ≤ comment.span.start)).head?.any
          (·.contains comment.span) = declarations.any (·.contains comment.span) := by
        rw [any_head?_contains hproper.1 (hdeclarations.sublist hsub),
          any_dropWhile_contains (Nat.le_refl _) hproper.1]
        intro declaration hmem
        have hnot := List.head?_dropWhile_not (fun s : Span => s.stop ≤ comment.span.start)
          declarations
        rw [Option.mem_def.mp hmem] at hnot
        simpa using hnot
      simp only [skipDeclared, hrest, hhead, List.filter_cons]
      cases declarations.any (·.contains comment.span) <;> rfl

/-! ## Comments of a body -/

/-- The comments that start in a body or behind it. -/
theorem drop_startsBefore (hcomments : comments.Pairwise fun a b => a.span.start ≤ b.span.start) :
    comments.drop (partitionPoint (fun comment : Comment => comment.span.start < body.start)
        comments.toArray) =
      comments.filter fun comment => !decide (comment.span.start < body.start) := by
  refine drop_partitionPoint (hcomments.imp fun {a b} hab hb => ?_)
  simp only [decide_eq_true_eq] at hb ⊢
  omega

theorem freeComments_sublist : (freeComments comments body declarations).Sublist comments :=
  (skipDeclared_sublist _ _).trans ((List.takeWhile_sublist _).trans (List.drop_sublist _ _))

/-- The free comments of a body lie in it. -/
theorem freeComments_within
    (hcomments : comments.Pairwise fun a b => a.span.start ≤ b.span.start) :
    ∀ comment ∈ freeComments comments body declarations,
      body.start ≤ comment.span.start ∧ comment.span.stop ≤ body.stop := by
  intro comment hcomment
  have hmem := (skipDeclared_sublist _ _).subset hcomment
  have hstop := List.all_eq_true.mp List.all_takeWhile comment hmem
  have hstart := (List.takeWhile_sublist _).subset hmem
  rw [drop_startsBefore hcomments] at hstart
  exact ⟨by simpa using (List.mem_filter.mp hstart).2, by simpa using hstop⟩

/-- **The comments found by halving, cut off behind the body and walked along with the declarations
are those that a test of each comment against the body and every declaration keeps.** -/
theorem freeComments_eq
    (hcomments : comments.Pairwise fun a b => a.span.stop ≤ b.span.start)
    (hproper : ∀ comment ∈ comments, comment.span.start < comment.span.stop)
    (hdeclarations : declarations.Pairwise fun a b => a.stop ≤ b.start ∨ b.stop ≤ b.start) :
    freeComments comments body declarations =
      comments.filter fun comment =>
        body.contains comment.span && !declarations.any (·.contains comment.span) := by
  have hsorted : comments.Pairwise fun a b => a.span.start ≤ b.span.start :=
    hcomments.imp_of_mem fun {a b} ha _ hab => by
      have := hproper a ha
      omega
  -- no comment behind one that ends behind the body ends in it
  have hcut : (comments.filter fun comment =>
      !decide (comment.span.start < body.start)).Pairwise fun a b =>
        decide (b.span.stop ≤ body.stop) = true → decide (a.span.stop ≤ body.stop) = true := by
    refine (hcomments.filter _).imp_of_mem fun {a b} _ hb hab hstop => ?_
    have := hproper b (List.mem_filter.mp hb).1
    simp only [decide_eq_true_eq] at hstop ⊢
    omega
  have hsub : ((comments.filter fun comment =>
      !decide (comment.span.start < body.start)).filter fun comment =>
        decide (comment.span.stop ≤ body.stop)).Sublist comments :=
    List.filter_sublist.trans List.filter_sublist
  simp only [freeComments]
  rw [drop_startsBefore hsorted, takeWhile_eq_filter hcut,
    skipDeclared_eq_filter (hsorted.sublist hsub) (fun c hc => hproper c (hsub.subset hc))
      hdeclarations, List.filter_filter, List.filter_filter]
  refine List.filter_congr fun comment _ => ?_
  simp only [Span.contains, Bool.and_comm, ← decide_not, Nat.not_lt, Bool.and_assoc]

/-- A comment is free exactly if it lies in the body and in no declaration. -/
theorem mem_freeComments_iff
    (hcomments : comments.Pairwise fun a b => a.span.stop ≤ b.span.start)
    (hproper : ∀ comment ∈ comments, comment.span.start < comment.span.stop)
    (hdeclarations : declarations.Pairwise fun a b => a.stop ≤ b.start) {comment : Comment} :
    comment ∈ freeComments comments body declarations
      ↔ comment ∈ comments
        ∧ (body.start ≤ comment.span.start ∧ comment.span.stop ≤ body.stop)
        ∧ ∀ declaration ∈ declarations, declaration.contains comment.span = false := by
  rw [freeComments_eq hcomments hproper (hdeclarations.imp Or.inl), List.mem_filter,
    Bool.and_eq_true, Span.contains_iff, Bool.not_eq_true', List.any_eq_false]
  simp only [Bool.not_eq_true]

/-! ## Spans that do not meet -/

namespace Span

/-- Whether a span covers the byte at an offset. -/
def Covers (span : Span) (offset : Nat) : Prop := span.start ≤ offset ∧ offset < span.stop

/-- Two spans that have no byte in common. A span that covers nothing is disjoint from all. -/
def Disjoint (a b : Span) : Prop := ∀ offset, ¬ (a.Covers offset ∧ b.Covers offset)

theorem disjoint_iff {a b : Span} : a.Disjoint b ↔ min a.stop b.stop ≤ max a.start b.start := by
  constructor
  · intro h
    refine Nat.le_of_not_lt fun hlt => ?_
    exact h (max a.start b.start) ⟨⟨by omega, by omega⟩, ⟨by omega, by omega⟩⟩
  · intro h offset hboth
    obtain ⟨⟨_, _⟩, _, _⟩ := hboth
    omega

instance (a b : Span) : Decidable (a.Disjoint b) := decidable_of_iff _ disjoint_iff.symm

/-- Spans sorted by where they start, no two of which meet. -/
structure SortedApart (spans : List Span) : Prop where
  sorted : spans.Pairwise fun a b => a.start ≤ b.start
  apart : spans.Pairwise Span.Disjoint

/-- Of two such spans the later one starts behind the end of the earlier one, or covers nothing. -/
theorem SortedApart.pairwise {spans : List Span} (h : SortedApart spans) :
    spans.Pairwise fun a b => a.stop ≤ b.start ∨ b.stop ≤ b.start := by
  refine List.Pairwise.imp ?_ (h.sorted.and h.apart)
  rintro a b ⟨hsorted, hapart⟩
  rw [disjoint_iff] at hapart
  omega

end Span

/-- **The free comments are those of the comments, in order, that lie in the body and are contained
in no declaration.** The declarations may cover nothing, and a comment may lie across the end of
one. -/
theorem freeComments_eq_filter (comments : List Comment) (body : Span) (declarations : List Span)
    (hproper : ∀ comment ∈ comments, comment.span.start < comment.span.stop)
    (hcomments : Span.SortedApart (comments.map Comment.span))
    (hdeclarations : Span.SortedApart declarations) :
    freeComments comments body declarations =
      comments.filter fun comment => decide (body.start ≤ comment.span.start
        ∧ comment.span.stop ≤ body.stop
        ∧ ∀ declaration ∈ declarations, ¬ (declaration.start ≤ comment.span.start
          ∧ comment.span.stop ≤ declaration.stop)) := by
  have hfollow : comments.Pairwise fun a b => a.span.stop ≤ b.span.start := by
    refine (List.pairwise_map.mp hcomments.pairwise).imp_of_mem ?_
    intro a b _ hb hab
    have := hproper b hb
    omega
  rw [freeComments_eq hfollow hproper hdeclarations.pairwise]
  refine List.filter_congr fun comment _ => ?_
  rw [Bool.eq_iff_iff]
  simp [Span.contains_iff, and_assoc]

/-- Comments in front of a body, in it and across its end. -/
def scatteredComments : List Comment :=
  [⟨.block, ⟨0, 4, 0, 0⟩⟩, ⟨.block, ⟨6, 10, 0, 0⟩⟩, ⟨.block, ⟨14, 18, 0, 0⟩⟩,
    ⟨.line, ⟨20, 26, 0, 0⟩⟩, ⟨.block, ⟨28, 33, 1, 1⟩⟩, ⟨.block, ⟨38, 44, 1, 1⟩⟩]

/-- Declarations: one with a comment in it, one that covers nothing, and one that lies across the
ends of two comments. -/
def scatteredDeclarations : List Span := [⟨11, 19, 0, 0⟩, ⟨19, 19, 0, 0⟩, ⟨22, 30, 0, 1⟩]

theorem freeComments_eq_filter_scattered :
    (∀ comment ∈ scatteredComments, comment.span.start < comment.span.stop)
      ∧ Span.SortedApart (scatteredComments.map Comment.span)
      ∧ Span.SortedApart scatteredDeclarations
      ∧ freeComments scatteredComments ⟨5, 40, 0, 1⟩ scatteredDeclarations =
        scatteredComments.filter (fun comment => decide (5 ≤ comment.span.start
          ∧ comment.span.stop ≤ 40
          ∧ ∀ declaration ∈ scatteredDeclarations, ¬ (declaration.start ≤ comment.span.start
            ∧ comment.span.stop ≤ declaration.stop)))
      ∧ freeComments scatteredComments ⟨5, 40, 0, 1⟩ scatteredDeclarations =
        [⟨.block, ⟨6, 10, 0, 0⟩⟩, ⟨.line, ⟨20, 26, 0, 0⟩⟩, ⟨.block, ⟨28, 33, 1, 1⟩⟩] := by
  have hproper : ∀ comment ∈ scatteredComments, comment.span.start < comment.span.stop := by decide
  have hcomments : Span.SortedApart (scatteredComments.map Comment.span) := ⟨by decide, by decide⟩
  have hdeclarations : Span.SortedApart scatteredDeclarations := ⟨by decide, by decide⟩
  have hfilter := freeComments_eq_filter scatteredComments ⟨5, 40, 0, 1⟩ scatteredDeclarations
    hproper hcomments hdeclarations
  exact ⟨hproper, hcomments, hdeclarations, hfilter, hfilter.trans (by decide)⟩

end KeyOrder
