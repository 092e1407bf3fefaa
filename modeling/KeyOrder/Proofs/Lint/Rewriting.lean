import KeyOrder.Proofs.Edit.Splicing
import KeyOrder.Proofs.Lint.Reports
import KeyOrder.Proofs.Syntax.Nesting

/-!
# Rewriting lists and parsing again

A rewriting writes some reported lists of a source, which lie one behind the other, in their planned
order. What the result holds is for the parser to say: **a faithful parser finds the same nest of
lists, with the members of the rewritten lists in their new order** (`Rewriting.Follows`), in every
text that rewriting leads to. Then a list that was rewritten is not reported any more, if rules that
look at the same list sort alike, and nothing changes about the other lists.
-/

namespace KeyOrder

/-- A list of a source with a new order of its members, given by their index. -/
structure Rearrangement where
  list : MemberList
  order : List Nat
deriving DecidableEq

namespace Rearrangement

/-- The edit that writes a body in its new order. -/
def edit (source : Text) (change : Rearrangement) : Edit where
  start := change.list.bodyStart
  stop := change.list.bodyStop
  replacement := change.list.rebuildBody source (change.list.trivia source) change.order

/-- The source with bodies that lie one behind the other in their new order. -/
def applyAll (changes : List Rearrangement) (source : Text) : Text :=
  splicedFrom source 0 (changes.map (edit source))

/-- The members of a list in their new order, if there is one. -/
def membersOf (changes : List Rearrangement) (list : MemberList) : List Member :=
  match changes.find? fun change => change.list = list with
  | some change => Plan.arrange ⟨change.order⟩ list.members
  | none => list.members

/-- Whether a list is what becomes of another one: of the same kind, with the same names and question
marks in the new order. -/
structure Becomes (changes : List Rearrangement) (old new : MemberList) : Prop where
  kind : new.kind = old.kind
  stringValued : new.stringValued = old.stringValued
  keys : new.members.map Member.sortKey = (membersOf changes old).map Member.sortKey

instance (changes : List Rearrangement) (old new : MemberList) :
    Decidable (Becomes changes old new) :=
  decidable_of_iff (new.kind = old.kind ∧ new.stringValued = old.stringValued
      ∧ new.members.map Member.sortKey = (membersOf changes old).map Member.sortKey)
    ⟨fun h => ⟨h.1, h.2.1, h.2.2⟩, fun h => ⟨h.kind, h.stringValued, h.keys⟩⟩

end Rearrangement

/-- Whether a new order is the one that a rule plans for a list it reports. -/
def Linter.Plans (linter : Linter) (change : Rearrangement) : Prop :=
  ∃ rule ∈ linter.rules, rule.finds change.list = true
    ∧ (rule.options.plan change.list.members).sorted = change.order

/-- Planned orders for some of the given lists, which lie one behind the other. -/
structure Rewriting (linter : Linter) (lists : List MemberList) where
  changes : List Rearrangement
  listed : ∀ change ∈ changes, change.list ∈ lists
  planned : ∀ change ∈ changes, linter.Plans change
  apart : changes.Pairwise fun a b => a.list.bodyStop ≤ b.list.bodyStart

namespace Rewriting

variable {linter : Linter} {lists : List MemberList}

/-- The source with every rewritten body in its new order. -/
def apply (rewriting : Rewriting linter lists) (source : Text) : Text :=
  Rearrangement.applyAll rewriting.changes source

/-- Whether lists are the same nest of lists after a rewriting: each of the former lists has become
one of them, and one encloses another as before. -/
def Follows (rewriting : Rewriting linter lists) (others : List MemberList) : Prop :=
  ∃ pairs : List (MemberList × MemberList),
    pairs.map Prod.fst = lists ∧ (pairs.map Prod.snd).Perm others
      ∧ (∀ pair ∈ pairs, Rearrangement.Becomes rewriting.changes pair.1 pair.2)
      ∧ ∀ outer ∈ pairs, ∀ inner ∈ pairs,
        (outer.1.Encloses inner.1 ↔ outer.2.Encloses inner.2)

end Rewriting

namespace Linter

/-- The texts without syntax errors that rewriting lists leads to. -/
inductive Reaches (linter : Linter) (dialect : TypeScript.Dialect) (source : Text) : Text → Prop
  | refl : Reaches linter dialect source source
  | rewrite {text : Text} (h : Reaches linter dialect source text)
      (rewriting : Rewriting linter (linter.lists dialect text))
      (hclean : linter.parsesClean dialect (rewriting.apply text) = true) :
      Reaches linter dialect source (rewriting.apply text)

/-- What fixing relies on in the parser, at every text that rewriting the lists of a source leads to:
the tree is in place and ends in the text, and a rewriting is parsed to the same nest of lists.

In a tree in place every child of a node covers some text. That is so in every tree without errors,
and fixing works on no other: tokens that the grammar supplies without text, such as automatic
semicolons, are hidden and no children of a node, and a node for a token that is missing from the
text counts as an error. -/
structure ReadsRewritings (linter : Linter) (dialect : TypeScript.Dialect) (source : Text) :
    Prop where
  inPlace : ∀ text, linter.Reaches dialect source text →
    (linter.parse dialect text).inPlace = true
      ∧ (linter.parse dialect text).span.stop ≤ text.byteLength
  follows : ∀ text, linter.Reaches dialect source text →
    ∀ rewriting : Rewriting linter (linter.lists dialect text),
      linter.parsesClean dialect (rewriting.apply text) = true →
      rewriting.Follows (linter.lists dialect (rewriting.apply text))

/-- The parser is faithful at the texts that rewriting leads to if it is so at texts among which
rewriting stays. -/
theorem ReadsRewritings.of_closed {linter : Linter} {dialect : TypeScript.Dialect} {source : Text}
    {p : Text → Prop} (hsource : p source)
    (hplace : ∀ text, p text → (linter.parse dialect text).inPlace = true
      ∧ (linter.parse dialect text).span.stop ≤ text.byteLength)
    (hclosed : ∀ text, p text → ∀ rewriting : Rewriting linter (linter.lists dialect text),
      p (rewriting.apply text)
        ∧ rewriting.Follows (linter.lists dialect (rewriting.apply text))) :
    linter.ReadsRewritings dialect source := by
  have hreached : ∀ text, linter.Reaches dialect source text → p text := by
    intro text h
    induction h with
    | refl => exact hsource
    | rewrite _ rewriting _ ih => exact (hclosed _ ih rewriting).1
  exact ⟨fun text h => hplace text (hreached text h),
    fun text h rewriting _ => (hclosed text (hreached text h) rewriting).2⟩

end Linter

/-! ## What becomes of reported lists -/

open Rearrangement

namespace Linter

variable {linter : Linter} {change : Rearrangement}

theorem Plans.violates (h : linter.Plans change) : linter.violates change.list = true := by
  obtain ⟨rule, hrule, hfinds, -⟩ := h
  exact List.any_eq_true.mpr ⟨rule, hrule, hfinds⟩

theorem Plans.perm (h : linter.Plans change) :
    change.order.Perm (List.range change.list.size) := by
  obtain ⟨rule, -, -, horder⟩ := h
  exact horder ▸ rule.options.plan_perm change.list.members

end Linter

namespace Rewriting

variable {linter : Linter} {lists : List MemberList} {rewriting : Rewriting linter lists}
  {old new : MemberList}

/-- A list keeps its members, or a change of the rewriting arranges them. -/
theorem membersOf_cases (rewriting : Rewriting linter lists) (list : MemberList) :
    (membersOf rewriting.changes list = list.members
        ∧ ∀ change ∈ rewriting.changes, change.list ≠ list)
      ∨ ∃ change ∈ rewriting.changes, change.list = list
        ∧ membersOf rewriting.changes list = Plan.arrange ⟨change.order⟩ list.members := by
  unfold membersOf
  cases h : rewriting.changes.find? fun change => change.list = list with
  | none => exact .inl ⟨rfl, by simpa using h⟩
  | some change =>
      have hlist : change.list = list := by simpa using List.find?_some h
      exact .inr ⟨change, List.mem_of_find?_eq_some h, hlist, rfl⟩

theorem length_membersOf (rewriting : Rewriting linter lists) (list : MemberList) :
    (membersOf rewriting.changes list).length = list.size := by
  rcases rewriting.membersOf_cases list with ⟨hsame, -⟩ | ⟨change, hmem, rfl, harranged⟩
  · rw [hsame]
    rfl
  · rw [harranged]
    exact (@Plan.arrange_perm _ ⟨change.order⟩ (rewriting.planned change hmem).perm).length_eq

theorem checks_of_becomes (h : Becomes rewriting.changes old new) (rule : Rule) :
    rule.checks new = rule.checks old := by
  have hsize : new.size = old.size := by
    have hlength := congrArg List.length h.keys
    rwa [List.length_map, List.length_map, length_membersOf] at hlength
  exact Rule.checks_congr h.kind h.stringValued hsize

end Rewriting

namespace Linter

variable {linter : Linter} {lists : List MemberList} {rewriting : Rewriting linter lists}

/-- Whether rules that look at the same list sort alike. -/
def SortsAlike (linter : Linter) (lists : List MemberList) : Prop :=
  ∀ list ∈ lists, ∀ rule ∈ linter.rules, ∀ other ∈ linter.rules,
    rule.checks list = true → other.checks list = true → rule.options = other.options

/-- Rules that sort alike go on to do so. -/
theorem SortsAlike.follows {others : List MemberList} (h : linter.SortsAlike lists)
    (hfollows : rewriting.Follows others) : linter.SortsAlike others := by
  obtain ⟨pairs, rfl, hperm, hbecomes, -⟩ := hfollows
  intro list hlist rule hrule other hother hchecks hchecks'
  obtain ⟨pair, hpair, rfl⟩ := List.mem_map.mp (hperm.mem_iff.mpr hlist)
  rw [Rewriting.checks_of_becomes (hbecomes pair hpair)] at hchecks hchecks'
  exact h pair.1 (List.mem_map_of_mem hpair) rule hrule other hother hchecks hchecks'

/-- **After a rewriting those lists are reported that were reported and not rewritten.** -/
theorem violates_of_becomes {old new : MemberList} (halike : linter.SortsAlike lists)
    (hold : old ∈ lists) (h : Becomes rewriting.changes old new) :
    linter.violates new = true
      ↔ linter.violates old = true ∧ ∀ change ∈ rewriting.changes, change.list ≠ old := by
  have hkeys := h.keys
  rcases rewriting.membersOf_cases old with ⟨hmembers, hnot⟩ | ⟨change, hmem, hlist, harranged⟩
  · rw [hmembers] at hkeys
    have hsame : linter.violates new = linter.violates old := by
      unfold violates
      congr 1
      funext rule
      exact Rule.finds_congr h.kind h.stringValued hkeys
    rw [hsame]
    exact ⟨fun hviolates => ⟨hviolates, hnot⟩, And.left⟩
  · obtain ⟨rule, hrule, hfinds, horder⟩ := rewriting.planned change hmem
    rw [harranged, ← horder, hlist] at hkeys
    rw [hlist] at hfinds
    -- a rule that looks at the list sorts like the one that planned its order
    have hclean : linter.violates new = false := by
      refine List.any_eq_false.mpr fun other hother hreports => ?_
      have hchecks : other.checks old = true := by
        rw [← Rewriting.checks_of_becomes h]
        exact (Bool.and_eq_true_iff.mp hreports).1
      have hoptions : rule.options = other.options :=
        halike old hold rule hrule other hother (Bool.and_eq_true_iff.mp hfinds).1 hchecks
      rw [hoptions] at hkeys
      rw [Rule.not_finds_of_arranged hkeys] at hreports
      cases hreports
    rw [hclean]
    exact ⟨nofun, fun hnot => absurd hlist (hnot.2 change hmem)⟩

end Linter

end KeyOrder
