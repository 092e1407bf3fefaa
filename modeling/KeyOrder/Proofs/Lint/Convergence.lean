import KeyOrder.Proofs.Edit.Selection
import KeyOrder.Proofs.Lint.Rewriting
import Mathlib.Data.List.Permutation

/-!
# Fixing converges one level at a time

A pass sorts the outermost of the reported lists: the edit of a list that another reported list
encloses overlaps the edit of an outer one, and no edit of a reported list is without effect. The
next parse finds the same nest of lists, and of the reported ones those are left that another one
enclosed. **So each pass takes away one level**, and a source in which reported lists are nested no
deeper than the number of passes is fixed in as many passes as there are levels.
-/

namespace KeyOrder

theorem countP_lt_countP {α : Type} {p q : α → Bool} {l : List α} {a : α}
    (hle : ∀ b ∈ l, p b = true → q b = true) (ha : a ∈ l) (hp : p a = false) (hq : q a = true) :
    l.countP p < l.countP q := by
  obtain ⟨before, behind, rfl⟩ := List.append_of_mem ha
  have hbefore := List.countP_mono_left fun b hb => hle b (List.mem_append_left _ hb)
  have hbehind := List.countP_mono_left fun b hb =>
    hle b (List.mem_append_right _ (List.mem_cons_of_mem _ hb))
  simp only [List.countP_append, List.countP_cons, hp, hq, if_true]
  simp only [Bool.false_eq_true, if_false]
  omega

namespace Linter

/-- Whether a list is sorted by the next pass, in the order that a rule plans. -/
structure Selects (linter : Linter) (dialect : TypeScript.Dialect) (source : Text) (rule : Rule)
    (list : MemberList) : Prop where
  listed : list ∈ linter.lists dialect source
  enabled : rule ∈ linter.rules
  finds : rule.finds list = true
  selected : rule.bodyEdit source list ∈ linter.selected dialect source

/-- What holds of every text on the way of fixing a source. -/
structure OnTheWay (linter : Linter) (dialect : TypeScript.Dialect) (source text : Text) : Prop where
  reads : linter.ReadsRewritings dialect source
  reached : linter.Reaches dialect source text
  clean : linter.parsesClean dialect text = true
  alike : linter.SortsAlike (linter.lists dialect text)

variable {linter : Linter} {dialect : TypeScript.Dialect} {source text : Text}
  {a b list : MemberList}

/-- One pass that applies an edit. -/
theorem fixPasses_succ {output : Text} {edit : Edit} {rest : List Edit}
    (hnext : linter.nextEdits dialect text = .ok (edit :: rest))
    (happly : applyVerified (linter.parsesClean dialect) text (edit :: rest) = .ok output)
    (remaining passes applied : Nat) :
    linter.fixPasses dialect (remaining + 1) ⟨text, passes, applied⟩
      = linter.fixPasses dialect remaining
        ⟨output, passes + 1, applied + (edit :: rest).length⟩ := by
  rw [Linter.fixPasses, hnext]
  simp only [happly]

/-- What a run of passes begins with: it ends when there is no edit, or it goes on with the text to
which the edits have been applied. -/
theorem fixPasses_cases {remaining passes applied : Nat} {outcome : FixOutcome}
    (h : linter.fixPasses dialect (remaining + 1) ⟨text, passes, applied⟩ = .ok outcome) :
    (linter.nextEdits dialect text = .ok [] ∧ outcome = ⟨text, passes, applied⟩)
      ∨ ∃ edits output, linter.nextEdits dialect text = .ok edits ∧ edits ≠ []
        ∧ applyVerified (linter.parsesClean dialect) text edits = .ok output
        ∧ linter.fixPasses dialect remaining ⟨output, passes + 1, applied + edits.length⟩
          = .ok outcome := by
  rw [Linter.fixPasses] at h
  split at h
  · cases h
  · rename_i hnext
    cases h
    exact .inl ⟨hnext, rfl⟩
  · rename_i edits hne hnext
    split at h
    · cases h
    · rename_i output happly
      exact .inr ⟨edits, output, hnext, hne, happly, h⟩

theorem Selects.mem_violating {rule : Rule} (h : linter.Selects dialect text rule list) :
    list ∈ linter.violating dialect text :=
  Linter.mem_violating.mpr ⟨h.listed, List.any_eq_true.mpr ⟨rule, h.enabled, h.finds⟩⟩

/-- The edits of a pass are those of the lists that it sorts. -/
theorem selects_of_mem {edit : Edit} (h : edit ∈ linter.selected dialect text) :
    ∃ rule list, linter.Selects dialect text rule list ∧ rule.bodyEdit text list = edit := by
  obtain ⟨list, hlist, rule, hrule, hfinds, rfl⟩ :=
    mem_edits.mp ((Edit.selectEdits_spec text _).1 edit h).1
  exact ⟨rule, list, ⟨hlist, hrule, hfinds, h⟩, rfl⟩

namespace OnTheWay

variable (h : linter.OnTheWay dialect source text)
include h

/-! ## Lists on the way -/

theorem lists_inPlace : ∀ list ∈ linter.lists dialect text, list.InPlace 0 text.byteLength := by
  intro list hlist
  obtain ⟨hplace, hstop⟩ := h.reads.inPlace text h.reached
  exact (SyntaxNode.memberLists_inPlace hplace list hlist).mono (Nat.zero_le _) hstop

theorem checkRanges : ∀ list ∈ linter.lists dialect text, list.members ≠ [] →
    list.checkRanges text = .ok () :=
  fun list hlist hmembers => (h.lists_inPlace list hlist).checkRanges hmembers (Nat.le_refl _)

theorem lists_cases (ha : a ∈ linter.lists dialect text) (hb : b ∈ linter.lists dialect text) :
    a = b ∨ a.Encloses b ∨ b.Encloses a
      ∨ a.bodyStop ≤ b.bodyStart ∨ b.bodyStop ≤ a.bodyStart :=
  SyntaxNode.memberLists_cases (h.reads.inPlace text h.reached).1 ha hb

/-- A rewriting without syntax errors goes on the way, and the same nest of lists is found. -/
theorem rewrite (rewriting : Rewriting linter (linter.lists dialect text))
    (hclean : linter.parsesClean dialect (rewriting.apply text) = true) :
    linter.OnTheWay dialect source (rewriting.apply text)
      ∧ rewriting.Follows (linter.lists dialect (rewriting.apply text)) := by
  have hfollows := h.reads.follows text h.reached rewriting hclean
  exact ⟨⟨h.reads, h.reached.rewrite rewriting hclean, hclean, h.alike.follows hfollows⟩, hfollows⟩

/-! ## Every edit has an effect -/

/-- **The edit of a reported list changes the text.** A rewriting that leaves the text as it is would
leave as many reported lists as before, and not the rewritten one. -/
theorem isNoop_edit {change : Rearrangement} (hlisted : change.list ∈ linter.lists dialect text)
    (hplans : linter.Plans change) : (change.edit text).isNoop text = false := by
  refine eq_false_of_ne_true fun hnoop => ?_
  let rewriting : Rewriting linter (linter.lists dialect text) :=
    { changes := [change]
      listed := by simpa using hlisted
      planned := by simpa using hplans
      apart := List.pairwise_singleton _ _ }
  have hsame : rewriting.apply text = text := by
    have hnone : ∀ edit ∈ [change.edit text], edit.isNoop text = true := by simpa using hnoop
    have hspliced := splicedFrom_of_isNoop hnone (List.pairwise_singleton _ _)
      (Text.isBoundary_append [] text) (by simp)
    simpa [Rewriting.apply, Rearrangement.applyAll, rewriting] using hspliced
  obtain ⟨-, pairs, hfirst, hperm, hbecomes, -⟩ := h.rewrite rewriting (by rw [hsame]; exact h.clean)
  rw [hsame] at hperm
  have hviolates : ∀ pair ∈ pairs, (linter.violates pair.2 = true
      ↔ linter.violates pair.1 = true ∧ change.list ≠ pair.1) := by
    intro pair hpair
    have hold : pair.1 ∈ linter.lists dialect text := hfirst ▸ List.mem_map_of_mem hpair
    simpa [rewriting] using violates_of_becomes h.alike hold (hbecomes pair hpair)
  obtain ⟨pair, hpair, hchanged⟩ : ∃ pair ∈ pairs, pair.1 = change.list :=
    List.mem_map.mp (hfirst ▸ hlisted)
  have hfewer : pairs.countP (linter.violates ·.2) < pairs.countP (linter.violates ·.1) := by
    refine countP_lt_countP (fun other hother hreported => ((hviolates other hother).mp hreported).1)
      hpair (eq_false_of_ne_true fun hreported => ?_) (hchanged ▸ hplans.violates)
    exact ((hviolates pair hpair).mp hreported).2 hchanged.symm
  have hcount := hperm.countP_eq linter.violates
  rw [← hfirst, List.countP_map, List.countP_map] at hcount
  exact Nat.ne_of_lt hfewer hcount

/-! ## The lists that a pass sorts -/

/-- Every reported list is sorted by the next pass, or lies in a list that is. -/
theorem exists_selects (hlist : list ∈ linter.violating dialect text) :
    ∃ rule outer, linter.Selects dialect text rule outer
      ∧ (outer = list ∨ outer.Encloses list) := by
  obtain ⟨hlisted, hviolates⟩ := mem_violating.mp hlist
  obtain ⟨rule, hrule, hfinds⟩ := List.any_eq_true.mp hviolates
  have hedit : rule.bodyEdit text list ∈ linter.edits text (linter.lists dialect text) :=
    mem_edits.mpr ⟨list, hlisted, rule, hrule, hfinds, rfl⟩
  have hnoop : (rule.bodyEdit text list).isNoop text = false :=
    @isNoop_edit _ _ _ _ h ⟨list, _⟩ hlisted ⟨rule, hrule, hfinds, rfl⟩
  rcases (Edit.selectEdits_spec text _).2.2 _ hedit hnoop with
    hkept | ⟨edit, hkept, hprecedes, hoverlaps⟩
  · exact ⟨rule, list, ⟨hlisted, hrule, hfinds, hkept⟩, .inl rfl⟩
  · obtain ⟨other, outer, houter, rfl⟩ := selects_of_mem hkept
    refine ⟨other, outer, houter, ?_⟩
    have hmeet : outer.bodyStart < list.bodyStop ∧ list.bodyStart < outer.bodyStop :=
      Edit.overlaps_iff.mp hoverlaps
    have hfirst : outer.bodyStart < list.bodyStart
        ∨ (outer.bodyStart = list.bodyStart ∧ list.bodyStop ≤ outer.bodyStop) := hprecedes
    rcases h.lists_cases houter.listed hlisted with heq | hencloses | hinside | hapart | hapart
    · exact .inl heq
    · exact .inr hencloses
    · have := hinside.body (h.lists_inPlace outer houter.listed)
      omega
    · omega
    · omega

theorem body_lt {rule : Rule} (hlist : linter.Selects dialect text rule list) :
    list.bodyStart < list.bodyStop :=
  (h.lists_inPlace list hlist.listed).body_lt (Rule.members_ne_nil_of_finds hlist.finds)

/-- Two lists that the next pass sorts are not nested. -/
theorem not_encloses {rule other : Rule} (ha : linter.Selects dialect text rule a)
    (hb : linter.Selects dialect text other b) : ¬ a.Encloses b := by
  intro hencloses
  have hbody := hencloses.body (h.lists_inPlace b hb.listed)
  have hlt := h.body_lt hb
  have hpairs := (Edit.selectEdits_spec text (linter.edits text (linter.lists dialect text))).2.1
  rcases eq_or_of_pairwise hpairs ha.selected hb.selected with heq | ⟨-, hapart⟩ | ⟨-, hapart⟩
  · have : a.bodyStart = b.bodyStart := congrArg Edit.start heq
    omega
  · have hmeet := Edit.overlaps_iff.not.mp (ne_true_of_eq_false hapart)
    have hmeet : ¬ (a.bodyStart < b.bodyStop ∧ b.bodyStart < a.bodyStop) := hmeet
    omega
  · have hmeet := Edit.overlaps_iff.not.mp (ne_true_of_eq_false hapart)
    have hmeet : ¬ (b.bodyStart < a.bodyStop ∧ a.bodyStart < b.bodyStop) := hmeet
    omega

/-- The edits of a pass lie one behind the other, and each has something to replace. -/
theorem selected_apart : (∀ edit ∈ linter.selected dialect text, edit.start < edit.stop)
    ∧ (linter.selected dialect text).Pairwise fun a b => a.stop ≤ b.start := by
  have hnonempty : ∀ edit ∈ linter.selected dialect text, edit.start < edit.stop := by
    intro edit hedit
    obtain ⟨rule, list, hlist, rfl⟩ := selects_of_mem hedit
    exact h.body_lt hlist
  exact ⟨hnonempty, Edit.pairwise_behind (Edit.selectEdits_spec text _).2.1 hnonempty⟩

/-- Lists with the same body are the same. -/
theorem eq_of_body_eq {rule : Rule} (ha : a ∈ linter.lists dialect text)
    (hb : linter.Selects dialect text rule b) (hstart : a.bodyStart = b.bodyStart)
    (hstop : a.bodyStop = b.bodyStop) : a = b := by
  have hlt := h.body_lt hb
  rcases h.lists_cases ha hb.listed with heq | hencloses | hinside | hapart | hapart
  · exact heq
  · have := hencloses.body (h.lists_inPlace b hb.listed)
    omega
  · have := hinside.body (h.lists_inPlace a ha)
    omega
  · omega
  · omega

/-- **A pass rewrites the outermost of the reported lists.** -/
theorem exists_rewriting : ∃ rewriting : Rewriting linter (linter.lists dialect text),
    rewriting.changes.map (Rearrangement.edit text) = (linter.selected dialect text).map Edit.bare
      ∧ ∀ list ∈ linter.violating dialect text,
        ((∀ change ∈ rewriting.changes, change.list ≠ list)
          ↔ ∃ outer ∈ linter.violating dialect text, outer.Encloses list) := by
  obtain ⟨changes, hchanges, hmap⟩ := exists_map_eq (f := Rearrangement.edit text)
    (p := fun change => ∃ rule, linter.Selects dialect text rule change.list
      ∧ (rule.options.plan change.list.members).sorted = change.order)
    (l := (linter.selected dialect text).map Edit.bare) fun edit hedit => by
      obtain ⟨kept, hkept, rfl⟩ := List.mem_map.mp hedit
      obtain ⟨rule, list, hlist, rfl⟩ := selects_of_mem hkept
      exact ⟨⟨list, _⟩, ⟨rule, hlist, rfl⟩, rfl⟩
  have hapart : changes.Pairwise fun a b => a.list.bodyStop ≤ b.list.bodyStart := by
    have hedits : ((linter.selected dialect text).map Edit.bare).Pairwise
        fun a b => a.stop ≤ b.start := List.pairwise_map.mpr h.selected_apart.2
    rw [← hmap] at hedits
    exact List.pairwise_map.mp hedits
  refine ⟨⟨changes, fun change hchange => ?_, fun change hchange => ?_, hapart⟩, hmap,
    fun list hlist => ⟨fun hnot => ?_, ?_⟩⟩
  · obtain ⟨rule, hlist, -⟩ := hchanges change hchange
    exact hlist.listed
  · obtain ⟨rule, hlist, horder⟩ := hchanges change hchange
    exact ⟨rule, hlist.enabled, hlist.finds, horder⟩
  · obtain ⟨rule, outer, houter, rfl | hencloses⟩ := h.exists_selects hlist
    · have hedit : (rule.bodyEdit text outer).bare ∈ changes.map (Rearrangement.edit text) :=
        hmap ▸ List.mem_map_of_mem houter.selected
      obtain ⟨change, hchange, heq⟩ := List.mem_map.mp hedit
      obtain ⟨other, hother, -⟩ := hchanges change hchange
      exact absurd (h.eq_of_body_eq hother.listed houter (congrArg Edit.start heq)
        (congrArg Edit.stop heq)) (hnot change hchange)
    · exact ⟨outer, houter.mem_violating, hencloses⟩
  · rintro ⟨outer, houter, hencloses⟩ change hchange rfl
    obtain ⟨rule, hselects, -⟩ := hchanges change hchange
    obtain ⟨other, top, htop, htop'⟩ := h.exists_selects houter
    have hinside : top.Encloses change.list := by
      rcases htop' with rfl | hover
      · exact hencloses
      · exact hover.trans hencloses (h.lists_inPlace outer (mem_violating.mp houter).1)
    exact h.not_encloses htop hselects hinside

/-- Once the outermost of the reported lists are rewritten, those are reported that lay inside
another one. -/
theorem violates_iff_inside {rewriting : Rewriting linter (linter.lists dialect text)}
    {old new : MemberList}
    (houtermost : ∀ list ∈ linter.violating dialect text,
      ((∀ change ∈ rewriting.changes, change.list ≠ list)
        ↔ ∃ outer ∈ linter.violating dialect text, outer.Encloses list))
    (hold : old ∈ linter.lists dialect text)
    (hbecomes : Rearrangement.Becomes rewriting.changes old new) :
    linter.violates new = true ↔ old ∈ linter.violating dialect text
      ∧ ∃ outer ∈ linter.violating dialect text, outer.Encloses old := by
  rw [violates_of_becomes h.alike hold hbecomes]
  constructor
  · rintro ⟨hviolates, hnot⟩
    have hmem := mem_violating.mpr ⟨hold, hviolates⟩
    exact ⟨hmem, (houtermost old hmem).mp hnot⟩
  · rintro ⟨hmem, hinside⟩
    exact ⟨(mem_violating.mp hmem).2, (houtermost old hmem).mpr hinside⟩

/-! ## Passes -/

/-- A pass has nothing to do only if no list is reported. -/
theorem selected_eq_nil_iff :
    linter.selected dialect text = [] ↔ linter.violating dialect text = [] := by
  constructor
  · intro hnone
    refine List.eq_nil_iff_forall_not_mem.mpr fun list hlist => ?_
    obtain ⟨rule, outer, houter, -⟩ := h.exists_selects hlist
    exact List.not_mem_nil (hnone ▸ houter.selected)
  · intro hnone
    refine List.eq_nil_iff_forall_not_mem.mpr fun edit hedit => ?_
    obtain ⟨rule, list, hlist, -⟩ := selects_of_mem hedit
    exact List.not_mem_nil (hnone ▸ hlist.mem_violating)

/-- **A pass takes away one level.** -/
theorem pass {output : Text} {depth : Nat}
    (happly : applyVerified (linter.parsesClean dialect) text (linter.selected dialect text)
      = .ok output)
    (hdepth : NestDepth (linter.violating dialect text) (depth + 1)) :
    linter.OnTheWay dialect source output
      ∧ NestDepth (linter.violating dialect output) depth := by
  obtain ⟨hedits, hclean⟩ := applyVerified_ok happly h.clean
  obtain ⟨rewriting, hmap, houtermost⟩ := h.exists_rewriting
  have houtput : output = rewriting.apply text := by
    have hspliced := applyEdits_eq_splicedFrom (validateEdits_of_applyEdits hedits)
      h.selected_apart.1 h.selected_apart.2
    rw [Except.ok.inj (hedits.symm.trans hspliced), Rewriting.apply, Rearrangement.applyAll, hmap,
      splicedFrom_map_bare]
  subst houtput
  obtain ⟨hnext, pairs, hfirst, hperm, hbecomes, hnest⟩ := h.rewrite rewriting hclean
  refine ⟨hnext, hdepth.peel ?_ hnest ?_ fun list => ?_⟩
  · intro a _ b hb c _ hab hbc
    exact hab.trans hbc (h.lists_inPlace b (mem_violating.mp hb).1)
  · intro list hlist
    exact List.mem_map.mp (hfirst ▸ (mem_violating.mp hlist).1)
  · have hstep : ∀ pair ∈ pairs, (linter.violates pair.2 = true ↔
        pair.1 ∈ linter.violating dialect text
          ∧ ∃ outer ∈ linter.violating dialect text, outer.Encloses pair.1) := fun pair hpair =>
      h.violates_iff_inside houtermost (hfirst ▸ List.mem_map_of_mem hpair)
        (hbecomes pair hpair)
    rw [mem_violating, ← hperm.mem_iff, List.mem_map]
    constructor
    · rintro ⟨⟨pair, hpair, rfl⟩, hviolates⟩
      exact ⟨pair, hpair, rfl, (hstep pair hpair).mp hviolates⟩
    · rintro ⟨pair, hpair, rfl, hinside⟩
      exact ⟨⟨pair, hpair, rfl⟩, (hstep pair hpair).mpr hinside⟩

/-- **Passes take away one level each** until none is left. -/
theorem passes_eq {remaining depth passes applied : Nat} {outcome : FixOutcome}
    (hdepth : NestDepth (linter.violating dialect text) depth) (hle : depth ≤ remaining)
    (hfix : linter.fixPasses dialect remaining ⟨text, passes, applied⟩ = .ok outcome) :
    outcome.passes = passes + depth ∧ linter.OnTheWay dialect source outcome.output
      ∧ linter.violating dialect outcome.output = [] := by
  induction remaining generalizing text depth passes applied with
  | zero =>
      rw [Linter.fixPasses] at hfix
      cases hfix
      obtain rfl : depth = 0 := by omega
      exact ⟨rfl, h, hdepth.eq_zero_iff.mp rfl⟩
  | succ remaining ih =>
      rcases fixPasses_cases hfix with
        ⟨hnext, rfl⟩ | ⟨edits, output, hnext, hne, happly, hrest⟩
      · rw [nextEdits_eq h.checkRanges, Except.ok.injEq, h.selected_eq_nil_iff] at hnext
        obtain rfl : depth = 0 := hdepth.eq_zero_iff.mpr hnext
        exact ⟨rfl, h, hnext⟩
      · rw [nextEdits_eq h.checkRanges, Except.ok.injEq] at hnext
        subst hnext
        cases depth with
        | zero => exact absurd (h.selected_eq_nil_iff.mpr (hdepth.eq_zero_iff.mp rfl)) hne
        | succ depth =>
            obtain ⟨hstep, hless⟩ := h.pass happly hdepth
            obtain ⟨hpasses, hend⟩ := ih hstep hless (by omega) hrest
            exact ⟨by omega, hend⟩

end OnTheWay

end Linter

/-! ## A nest of two lists -/

namespace Nested

/-- A property on the first row, with a separator behind it or without one. -/
def property (name : String) (start stop : Nat) (terminated : Bool) : Member where
  kind := .property
  name := some name
  optional := false
  declaration := ⟨start, stop, 0, 0⟩
  terminator := if terminated then some ⟨stop, stop + 1, 0, 0⟩ else none

/-- An object type on the first row. -/
def objectType (start stop : Nat) (members : List Member) : MemberList where
  kind := .typeLiteral
  opening := ⟨start, start + 1, 0, 0⟩
  closing := ⟨stop - 1, stop, 0, 0⟩
  parent := ⟨start, stop, 0, 0⟩
  members
  comments := []
  stringValued := false

/-- An object type inside another one, each of them sorted or not. -/
def source (outerSorted innerSorted : Bool) : Text :=
  let inner := if innerSorted then "c:T;d:T".toList else "d:T;c:T".toList
  let member := "b:\x7b".toList ++ inner ++ ['\x7d']
  let outer := if outerSorted then "a:T;".toList ++ member else member ++ ";a:T".toList
  "type A=\x7b".toList ++ outer ++ ['\x7d']

/-- The outer list of a source. -/
def outer (sorted : Bool) : MemberList :=
  objectType 7 24 (if sorted then [property "a" 8 11 true, property "b" 12 23 false]
    else [property "b" 8 19 true, property "a" 20 23 false])

/-- The inner list of a source. It stands where the outer list puts it. -/
def inner (outerSorted sorted : Bool) : MemberList :=
  let start := if outerSorted then 14 else 10
  let first := if sorted then "c" else "d"
  let last := if sorted then "d" else "c"
  objectType start (start + 9)
    [property first (start + 1) (start + 4) true, property last (start + 5) (start + 8) false]

/-- The rule that looks at object types, with default options. -/
def rule : Rule := ⟨.interface, .error, {}⟩

/-- A linter with one rule. -/
def linter : Linter := .typeScript [rule]

theorem parse_source : ∀ outerSorted innerSorted : Bool,
    (linter.parse .plain (source outerSorted innerSorted)).inPlace = true
      ∧ (linter.parse .plain (source outerSorted innerSorted)).span.stop
        ≤ (source outerSorted innerSorted).byteLength
      ∧ linter.parsesClean .plain (source outerSorted innerSorted) = true
      ∧ linter.lists .plain (source outerSorted innerSorted)
        = [outer outerSorted, inner outerSorted innerSorted] := by
  decide +kernel

variable {outerSorted innerSorted sorted : Bool} {list : MemberList}

/-- The changes that a rewriting of the two lists can make: none, or one list in one of its two
orders. -/
def changes (outerSorted innerSorted : Bool) : List (List Rearrangement) :=
  [] :: [outer outerSorted, inner outerSorted innerSorted].flatMap fun list =>
    (List.range 2).permutations'.map fun order => [⟨list, order⟩]

theorem mem_changes {lists : List MemberList}
    (hlists : lists = [outer outerSorted, inner outerSorted innerSorted])
    (rewriting : Rewriting linter lists) : rewriting.changes ∈ changes outerSorted innerSorted := by
  subst hlists
  have hsize : ∀ outerSorted innerSorted, ∀ list ∈ [outer outerSorted, inner outerSorted innerSorted],
      list.size = 2 := by
    decide
  have hmeet : ∀ outerSorted innerSorted, ∀ a ∈ [outer outerSorted, inner outerSorted innerSorted],
      ∀ b ∈ [outer outerSorted, inner outerSorted innerSorted], ¬ a.bodyStop ≤ b.bodyStart := by
    decide
  obtain ⟨made, listed, planned, apart⟩ := rewriting
  show made ∈ changes outerSorted innerSorted
  match made with
  | [] => exact List.mem_cons_self
  | [change] =>
      have hlisted := listed change List.mem_cons_self
      have horder := (planned change List.mem_cons_self).perm
      rw [hsize outerSorted innerSorted _ hlisted] at horder
      exact List.mem_cons_of_mem _ (List.mem_flatMap.mpr ⟨change.list, hlisted,
        List.mem_map.mpr ⟨change.order, List.mem_permutations'.mpr horder, rfl⟩⟩)
  | first :: second :: rest =>
      exact absurd ((List.pairwise_cons.mp apart).1 second List.mem_cons_self)
        (hmeet _ _ _ (listed first List.mem_cons_self) _ (listed second (by simp)))

theorem applyAll_changes : ∀ outerSorted innerSorted : Bool,
    ∀ made ∈ changes outerSorted innerSorted, ∃ outerSorted' innerSorted' : Bool,
      Rearrangement.applyAll made (source outerSorted innerSorted)
          = source outerSorted' innerSorted'
        ∧ Rearrangement.Becomes made (outer outerSorted) (outer outerSorted')
        ∧ Rearrangement.Becomes made (inner outerSorted innerSorted)
          (inner outerSorted' innerSorted') := by
  decide +kernel

/-- The parser finds the two lists again, whatever is rewritten. -/
theorem readsRewritings : linter.ReadsRewritings .plain (source false false) := by
  have hencloses : ∀ outerSorted innerSorted,
      (outer outerSorted).Encloses (inner outerSorted innerSorted)
        ∧ ¬ (inner outerSorted innerSorted).Encloses (outer outerSorted)
        ∧ ¬ (outer outerSorted).Encloses (outer outerSorted)
        ∧ ¬ (inner outerSorted innerSorted).Encloses (inner outerSorted innerSorted) := by
    decide
  refine .of_closed (p := fun text => ∃ outerSorted innerSorted, source outerSorted innerSorted = text)
    ⟨false, false, rfl⟩ ?_ ?_
  · rintro text ⟨outerSorted, innerSorted, rfl⟩
    obtain ⟨hplace, hstop, -⟩ := parse_source outerSorted innerSorted
    exact ⟨hplace, hstop⟩
  · rintro text ⟨outerSorted, innerSorted, rfl⟩ rewriting
    obtain ⟨-, -, -, hlists⟩ := parse_source outerSorted innerSorted
    obtain ⟨outerSorted', innerSorted', happly, houter, hinner⟩ :=
      applyAll_changes outerSorted innerSorted rewriting.changes (mem_changes hlists rewriting)
    have happly : rewriting.apply (source outerSorted innerSorted)
        = source outerSorted' innerSorted' := happly
    obtain ⟨-, -, -, hlists'⟩ := parse_source outerSorted' innerSorted'
    refine ⟨⟨outerSorted', innerSorted', happly.symm⟩, ?_⟩
    rw [happly]
    refine ⟨[(outer outerSorted, outer outerSorted'),
      (inner outerSorted innerSorted, inner outerSorted' innerSorted')],
      hlists.symm, .of_eq hlists'.symm, ?_, ?_⟩
    · simpa using ⟨houter, hinner⟩
    · simp [hencloses outerSorted innerSorted, hencloses outerSorted' innerSorted']

theorem plan_members (hlist : list ∈ [outer sorted, inner outerSorted sorted]) :
    rule.options.plan list.members = ⟨if sorted then [0, 1] else [1, 0]⟩ := by
  have hsorted : ∀ outerSorted sorted, ∀ list ∈ [outer sorted, inner outerSorted sorted],
      (if sorted then [0, 1] else [1, 0]).Perm ([0, 1].filter (Plan.namedAt list.members))
        ∧ ((if sorted then [0, 1] else [1, 0]).Pairwise fun a b =>
          Plan.namesLE rule.options.compareNames list.members a b = true
            ∧ (Plan.namesLE rule.options.compareNames list.members b a = true → a < b))
        ∧ list.members.length = 2
        ∧ Plan.fillSlots (Plan.namedAt list.members) [0, 1] (if sorted then [0, 1] else [1, 0])
          = if sorted then [0, 1] else [1, 0] := by
    decide +kernel
  obtain ⟨hperm, hpairs, hlength, hfill⟩ := hsorted outerSorted sorted list hlist
  have hplan : rule.options.plan list.members = ⟨Plan.sortPartition rule.options.compareNames
      list.members (List.range list.members.length)⟩ := rfl
  rw [hplan, hlength]
  exact congrArg Plan.mk ((Plan.sortPartition_eq _ (by decide) hperm hpairs).trans hfill)

theorem finds_eq (hlist : list ∈ [outer sorted, inner outerSorted sorted]) :
    rule.finds list = !sorted := by
  have hcount : ∀ outerSorted sorted, ∀ list ∈ [outer sorted, inner outerSorted sorted],
      (rule.checks list && ((⟨if sorted then [0, 1] else [1, 0]⟩ : Plan).select
        list.members).count != 0) = !sorted := by
    decide
  rw [Rule.finds, plan_members hlist]
  exact hcount outerSorted sorted list hlist

theorem finds_outer (sorted : Bool) : rule.finds (outer sorted) = !sorted :=
  @finds_eq false sorted _ List.mem_cons_self

theorem finds_inner (outerSorted sorted : Bool) : rule.finds (inner outerSorted sorted) = !sorted :=
  finds_eq (List.mem_cons_of_mem _ List.mem_cons_self)

/-- The edit that swaps the members of a list. -/
def swap (text : Text) (list : MemberList) : Edit :=
  { Rearrangement.edit text ⟨list, [1, 0]⟩ with description := some "sort interface body" }

theorem bodyEdit_eq (text : Text) (hlist : list ∈ [outer false, inner outerSorted false]) :
    rule.bodyEdit text list = swap text list := by
  rw [Rule.bodyEdit, plan_members hlist]
  rfl

theorem nextEdits_source (outerSorted innerSorted : Bool) :
    linter.nextEdits .plain (source outerSorted innerSorted)
      = .ok (selectEdits (source outerSorted innerSorted)
        (((if outerSorted then [] else [outer outerSorted])
          ++ if innerSorted then [] else [inner outerSorted innerSorted]).map
          (swap (source outerSorted innerSorted)))) := by
  obtain ⟨hplace, hstop, -, hlists⟩ := parse_source outerSorted innerSorted
  have hnext : linter.nextEdits .plain (source outerSorted innerSorted)
      = .ok (linter.selected .plain (source outerSorted innerSorted)) :=
    Linter.nextEdits_eq fun list hlist hmembers =>
      (SyntaxNode.memberLists_inPlace hplace list hlist).checkRanges hmembers hstop
  have hrules : linter.rules = [rule] := rfl
  have houter := bodyEdit_eq (source outerSorted innerSorted)
    (List.mem_cons_self : outer false ∈ [outer false, inner outerSorted false])
  have hinner := bodyEdit_eq (source outerSorted innerSorted) (List.mem_cons_of_mem _
    List.mem_cons_self : inner outerSorted false ∈ [outer false, inner outerSorted false])
  rw [hnext, Linter.selected, hlists]
  cases outerSorted <;> cases innerSorted <;>
    simp [Linter.edits, hrules, finds_outer, finds_inner, houter, hinner]

/-- The two passes: the outer list, and then the inner one. -/
theorem fixSource_source : linter.fixSource "nested.ts" (source false false)
    = .ok ⟨source true true, 2, 2⟩ := by
  have hdialect : Path.dialect "nested.ts" = .plain := by decide +kernel
  have hfirst : linter.nextEdits .plain (source false false)
      = .ok [swap (source false false) (outer false)] := by
    rw [nextEdits_source, selectEdits]
    simp only [Bool.false_eq_true, if_false, List.singleton_append, List.map_cons, List.map_nil]
    rw [List.mergeSort_of_pairwise (by decide +kernel)]
    rfl
  have hsecond : linter.nextEdits .plain (source true false)
      = .ok [swap (source true false) (inner true false)] := by
    rw [nextEdits_source, selectEdits]
    simp only [Bool.false_eq_true, if_false, if_true, List.nil_append, List.map_cons, List.map_nil,
      List.mergeSort_singleton]
    rfl
  have hthird : linter.nextEdits .plain (source true true) = .ok [] := by
    rw [nextEdits_source]
    simp [selectEdits]
  have houter : applyVerified (linter.parsesClean .plain) (source false false)
      [swap (source false false) (outer false)] = .ok (source true false) :=
    applyVerified_singleton (by decide +kernel) (by decide +kernel) (parse_source true false).2.2.1
  have hinner : applyVerified (linter.parsesClean .plain) (source true false)
      [swap (source true false) (inner true false)] = .ok (source true true) :=
    applyVerified_singleton (by decide +kernel) (by decide +kernel) (parse_source true true).2.2.1
  calc linter.fixSource "nested.ts" (source false false)
      = linter.fixPasses .plain 10 ⟨source false false, 0, 0⟩ := by
        rw [Linter.fixSource, hdialect, Linter.maxPasses]
    _ = linter.fixPasses .plain 9 ⟨source true false, 1, 1⟩ :=
        Linter.fixPasses_succ hfirst houter 9 0 0
    _ = linter.fixPasses .plain 8 ⟨source true true, 2, 2⟩ :=
        Linter.fixPasses_succ hsecond hinner 8 1 1
    _ = .ok ⟨source true true, 2, 2⟩ := by rw [Linter.fixPasses, hthird]

theorem nestDepth : NestDepth (linter.violating .plain (source false false)) 2 := by
  obtain ⟨hplace, -, -, hlists⟩ := parse_source false false
  have hrules : linter.rules = [rule] := rfl
  have hviolating : linter.violating .plain (source false false) = [outer false, inner false false] := by
    simp [Linter.violating, hlists, Linter.violates, hrules, finds_outer, finds_inner]
  rw [hviolating]
  refine ⟨⟨_, List.Subset.refl _, by decide, rfl⟩, fun chain hchain hpairs => ?_⟩
  have hnodup := MemberList.nodup_of_pairwise_encloses hpairs fun list hlist =>
    SyntaxNode.memberLists_inPlace hplace list (hlists ▸ hchain hlist)
  exact (hnodup.subperm hchain).length_le

end Nested

namespace Linter

variable {linter : Linter} {source : Text}

/-- **Fixing converges one level per pass.** Of a source without syntax errors, whose lists are not
looked at by rules that sort differently, let `depth` be the largest number of reported lists nested
one inside another. If it is at most 10 and fixing goes through, it takes `depth` passes, and
linting the result gives no diagnostic. -/
theorem fixSource_converges {path : Path}
    (hreads : linter.ReadsRewritings path.dialect source)
    (hclean : linter.parsesClean path.dialect source = true)
    (halike : linter.SortsAlike (linter.lists path.dialect source)) :
    (∃ depth, NestDepth (linter.violating path.dialect source) depth)
      ∧ ∀ depth, NestDepth (linter.violating path.dialect source) depth → depth ≤ 10 →
        ∀ outcome, linter.fixSource path source = .ok outcome →
          outcome.passes = depth
            ∧ ∃ report, linter.lintSource path outcome.output = .ok report
              ∧ report.diagnostics = [] := by
  have h : linter.OnTheWay path.dialect source source := ⟨hreads, .refl, hclean, halike⟩
  refine ⟨NestDepth.exists_of_inPlace fun list hlist => h.lists_inPlace list (mem_violating.mp hlist).1,
    fun depth hdepth hle outcome hfix => ?_⟩
  obtain ⟨hpasses, hend, hnone⟩ := h.passes_eq hdepth hle hfix
  exact ⟨by simpa using hpasses, lintSource_of_violating_eq_nil hend.checkRanges hnone⟩

/-- Two unsorted lists, one inside the other, take two passes. -/
theorem fixSource_converges_nested :
    NestDepth (Nested.linter.violating .plain (Nested.source false false)) 2
      ∧ ∃ outcome,
        Nested.linter.fixSource "nested.ts" (Nested.source false false) = .ok outcome
          ∧ outcome.passes = 2
          ∧ ∃ report, Nested.linter.lintSource "nested.ts" outcome.output = .ok report
            ∧ report.diagnostics = [] := by
  have hdialect : Path.dialect "nested.ts" = .plain := by decide +kernel
  have halike : Nested.linter.SortsAlike (Nested.linter.lists .plain (Nested.source false false)) := by
    intro list _ rule hrule other hother _ _
    rw [List.mem_singleton.mp hrule, List.mem_singleton.mp hother]
  obtain ⟨-, hconverges⟩ := @fixSource_converges Nested.linter (Nested.source false false) "nested.ts"
    (hdialect ▸ Nested.readsRewritings) (hdialect ▸ (Nested.parse_source false false).2.2.1)
    (hdialect ▸ halike)
  exact ⟨Nested.nestDepth, _, Nested.fixSource_source,
    hconverges 2 (hdialect ▸ Nested.nestDepth) (by decide) _ Nested.fixSource_source⟩

end Linter

end KeyOrder
