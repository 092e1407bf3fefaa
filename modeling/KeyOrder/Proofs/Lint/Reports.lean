import KeyOrder.Lint.Basic
import KeyOrder.Proofs.Order.Enforcement

/-!
# What a linter reports

A rule reports a list if it looks at the order of the list and flags one of its members; its reports
then carry one edit, which writes the body in the planned order. **Whether a list is reported hangs
on its kind and on the names and question marks of its members only**, and a source of which no list
is reported has no diagnostic.
-/

namespace KeyOrder

/-! ## Plans of lists with the same names and question marks -/

namespace Plan

variable {compareNames : String → String → Ordering} {requiredFirst : Bool}
  {members others : List Member}

theorem nameAt_eq (members : List Member) (index : Nat) :
    nameAt members index = (members.map Member.sortKey)[index]?.bind Prod.fst := by
  rw [List.getElem?_map]
  cases h : members[index]? <;> simp [nameAt, h, Member.sortKey]

theorem optionalAt_eq (members : List Member) (index : Nat) :
    optionalAt members index = (members.map Member.sortKey)[index]?.any Prod.snd := by
  rw [List.getElem?_map]
  cases h : members[index]? <;> simp [optionalAt, h, Member.sortKey]

variable (h : others.map Member.sortKey = members.map Member.sortKey)
include h

theorem ofMembers_congr :
    ofMembers compareNames requiredFirst others = ofMembers compareNames requiredFirst members := by
  have hlength : others.length = members.length := by
    simpa using congrArg List.length h
  have hname : nameAt others = nameAt members := by
    funext index
    rw [nameAt_eq, nameAt_eq, h]
  have hoptional : optionalAt others = optionalAt members := by
    funext index
    rw [optionalAt_eq, optionalAt_eq, h]
  have hnamed : namedAt others = namedAt members := by
    funext index
    rw [namedAt, namedAt, hname]
  simp only [ofMembers, sortPartition, hlength, hname, hoptional, hnamed]

theorem select_congr (plan : Plan) : plan.select others = plan.select members := by
  have hreports : plan.reports others = plan.reports members := by
    funext position
    simp only [reports, namedAt, nameAt_eq, h]
  rw [select, select, hreports]

end Plan

/-! ## Rules -/

namespace Rule

variable {rule : Rule} {source : Text} {list other : MemberList}

/-- Whether a rule looks at the order of a list. -/
def checks (rule : Rule) (list : MemberList) : Bool :=
  2 ≤ list.size && rule.id.accepts list

/-- Whether a rule reports a list. -/
def finds (rule : Rule) (list : MemberList) : Bool :=
  rule.checks list && ((rule.options.plan list.members).select list.members).count != 0

/-- The edit that writes the body of a list in the order that a rule plans. -/
def bodyEdit (rule : Rule) (source : Text) (list : MemberList) : Edit where
  start := list.bodyStart
  stop := list.bodyStop
  replacement :=
    list.rebuildBody source (list.trivia source) (rule.options.plan list.members).sorted
  description := some ("sort " ++ rule.id.name ++ " body")

/-- What a rule has to say about a list whose ranges fit the source. -/
def findings (rule : Rule) (source : Text) (list : MemberList) : List Report :=
  if rule.finds list then rule.reportsOf list (rule.options.computeEvaluation source list) else []

theorem members_ne_nil_of_checks (h : rule.checks list = true) : list.members ≠ [] := by
  have hsize : 2 ≤ list.members.length := of_decide_eq_true (Bool.and_eq_true_iff.mp h).1
  exact List.ne_nil_of_length_pos (by omega)

theorem members_ne_nil_of_finds (h : rule.finds list = true) : list.members ≠ [] :=
  members_ne_nil_of_checks (Bool.and_eq_true_iff.mp h).1

/-- **A rule gives its findings** on a list whose ranges fit the source. -/
theorem check_eq (hranges : list.members ≠ [] → list.checkRanges source = .ok ()) :
    rule.check source list = .ok (rule.findings source list) := by
  have hskip : (list.size < 2 || !rule.id.accepts list) = !rule.checks list := by
    simp only [checks, Bool.not_and, ← decide_not, Nat.not_le]
  unfold check
  rw [hskip]
  cases hchecks : rule.checks list with
  | false => simp [findings, finds, hchecks, pure, Except.pure]
  | true =>
      have heval : rule.options.evaluate source list
          = .ok (rule.options.computeEvaluation source list) :=
        SortOptions.evaluate_of_checkRanges (hranges (members_ne_nil_of_checks hchecks))
      have hcount : (rule.options.computeEvaluation source list).selection.count
          = ((rule.options.plan list.members).select list.members).count := rfl
      by_cases hzero : ((rule.options.plan list.members).select list.members).count = 0
      · simp [findings, finds, hchecks, heval, hcount, hzero, pure, Except.pure, bind, Except.bind]
      · simp [findings, finds, hchecks, heval, hcount, hzero, pure, Except.pure, bind, Except.bind]

/-- The edits of the findings: the one that sorts the body, if the list is reported. -/
theorem filterMap_fix_findings :
    (rule.findings source list).filterMap Report.fix
      = if rule.finds list then [rule.bodyEdit source list] else [] := by
  unfold findings
  cases hfinds : rule.finds list with
  | false => simp
  | true =>
      have hcount : ((rule.options.plan list.members).select list.members).count ≠ 0 := by
        simpa using (Bool.and_eq_true_iff.mp hfinds).2
      have hmembers : ∀ violation : Violation, ((list.members[violation.index]?.map fun member =>
          { span := member.declaration, messageId := .invalidOrderBody
            message := rule.id.memberMessage rule.options violation.name violation.placement
            fix := none : Report }).bind Report.fix) = none := by
        intro violation
        cases list.members[violation.index]? <;> rfl
      simp [reportsOf, SortOptions.computeEvaluation, hcount, bodyEdit, List.filterMap_filterMap,
        hmembers]

theorem checks_congr (hkind : other.kind = list.kind)
    (hvalued : other.stringValued = list.stringValued) (hsize : other.size = list.size) :
    rule.checks other = rule.checks list := by
  have haccepts : rule.id.accepts other = rule.id.accepts list := by
    cases rule.id <;> simp only [RuleId.accepts, hkind, hvalued]
  rw [checks, checks, hsize, haccepts]

/-- **Whether a rule reports a list hangs on its kind and on the names and question marks of its
members.** -/
theorem finds_congr (hkind : other.kind = list.kind)
    (hvalued : other.stringValued = list.stringValued)
    (hkeys : other.members.map Member.sortKey = list.members.map Member.sortKey) :
    rule.finds other = rule.finds list := by
  have hsize : other.size = list.size := by
    simpa [MemberList.size] using congrArg List.length hkeys
  have hplan : rule.options.plan other.members = rule.options.plan list.members :=
    Plan.ofMembers_congr hkeys
  rw [finds, finds, checks_congr hkind hvalued hsize, hplan, Plan.select_congr hkeys]

/-- A list in the order that a rule plans is not reported by that rule. -/
theorem not_finds_of_arranged {members : List Member}
    (hkeys : list.members.map Member.sortKey
      = ((rule.options.plan members).arrange members).map Member.sortKey) :
    rule.finds list = false := by
  have hidentity : (rule.options.plan list.members).isIdentity = true :=
    Plan.isIdentity_ofMembers_iff.mpr
      ((Plan.pairwise_mayPrecede_congr hkeys).mpr Plan.pairwise_arrange)
  have hcount := Plan.count_eq_zero_of_isIdentity (rule.options.plan_perm list.members) hidentity
  simp [finds, hcount]

end Rule

/-! ## Linters -/

namespace Linter

/-- Whether a rule of the linter reports a list. -/
def violates (linter : Linter) (list : MemberList) : Bool :=
  linter.rules.any (·.finds list)

/-- The member lists of a source. -/
def lists (linter : Linter) (dialect : TypeScript.Dialect) (source : Text) : List MemberList :=
  (linter.parse dialect source).memberLists source

/-- The reported lists of a source. -/
def violating (linter : Linter) (dialect : TypeScript.Dialect) (source : Text) : List MemberList :=
  (linter.lists dialect source).filter linter.violates

/-- What the rules of a linter have to say about a list whose ranges fit the source. -/
def findings (linter : Linter) (source : Text) (list : MemberList) : List (Rule × Report) :=
  linter.rules.flatMap fun rule => (rule.findings source list).map fun report => (rule, report)

/-- The edits of all reports on the lists of a source. -/
def edits (linter : Linter) (source : Text) (lists : List MemberList) : List Edit :=
  lists.flatMap fun list =>
    (linter.rules.filter (·.finds list)).map fun rule => rule.bodyEdit source list

/-- The edits that the next pass applies. -/
def selected (linter : Linter) (dialect : TypeScript.Dialect) (source : Text) : List Edit :=
  selectEdits source (linter.edits source (linter.lists dialect source))

variable {linter : Linter} {dialect : TypeScript.Dialect} {source : Text} {lists : List MemberList}

theorem mem_edits {edit : Edit} : edit ∈ linter.edits source lists ↔
    ∃ list ∈ lists, ∃ rule ∈ linter.rules, rule.finds list = true
      ∧ rule.bodyEdit source list = edit := by
  simp [edits, and_assoc]

theorem findings_of_not_violates {list : MemberList} (h : linter.violates list = false) :
    linter.findings source list = [] := by
  simp only [findings, List.flatMap_eq_nil_iff]
  intro rule hrule
  have hfinds : rule.finds list = false := by
    simpa using List.any_eq_false.mp h rule hrule
  simp [Rule.findings, hfinds]

/-- The edits of the findings: one for each rule that reports the list. -/
theorem filterMap_fix_findings (linter : Linter) (source : Text) (list : MemberList) :
    (linter.findings source list).filterMap (fun (_, report) => report.fix)
      = (linter.rules.filter (·.finds list)).map fun rule => rule.bodyEdit source list := by
  unfold findings
  induction linter.rules with
  | nil => rfl
  | cons rule rest ih =>
      rw [List.flatMap_cons, List.filterMap_append, ih, List.filterMap_map]
      show (rule.findings source list).filterMap Report.fix ++ _ = _
      rw [Rule.filterMap_fix_findings, List.filter_cons]
      cases rule.finds list <;> rfl

/-- **A linter gives its findings** on lists whose ranges fit the source. -/
theorem reportsOn_eq
    (hranges : ∀ list ∈ lists, list.members ≠ [] → list.checkRanges source = .ok ()) :
    linter.reportsOn source lists = .ok (lists.flatMap (linter.findings source)) := by
  have hrule : ∀ list ∈ lists, ∀ rule ∈ linter.rules,
      (do return (← rule.check source list).map fun report => (rule, report) :
        Except EvaluationError (List (Rule × Report)))
      = .ok ((rule.findings source list).map fun report => (rule, report)) := by
    intro list hlist rule _
    rw [Rule.check_eq (hranges list hlist)]
    rfl
  have hlist : ∀ list ∈ lists,
      (do
        let byRule ← linter.rules.mapM fun rule => do
          return (← rule.check source list).map fun report => (rule, report)
        return byRule.flatten : Except EvaluationError (List (Rule × Report)))
      = .ok (linter.findings source list) := by
    intro list hlist
    rw [mapM_eq_pure_map (hrule list hlist)]
    rfl
  unfold reportsOn
  rw [mapM_eq_pure_map hlist]
  rfl

theorem mem_violating {list : MemberList} : list ∈ linter.violating dialect source
    ↔ list ∈ linter.lists dialect source ∧ linter.violates list = true := by
  simp [violating]

/-- **A pass applies a selection of the edits that sort a reported list.** -/
theorem nextEdits_eq (hranges : ∀ list ∈ linter.lists dialect source,
      list.members ≠ [] → list.checkRanges source = .ok ()) :
    linter.nextEdits dialect source = .ok (linter.selected dialect source) := by
  have hreports : linter.reports dialect source
      = .ok ((linter.lists dialect source).flatMap (linter.findings source)) := reportsOn_eq hranges
  simp [nextEdits, hreports, pure, Except.pure, bind, Except.bind, List.filterMap_flatMap,
    filterMap_fix_findings, selected, edits]

/-- A source of which no list is reported has no diagnostic. -/
theorem lintSource_of_violating_eq_nil {path : Path}
    (hranges : ∀ list ∈ linter.lists path.dialect source,
      list.members ≠ [] → list.checkRanges source = .ok ())
    (hnone : linter.violating path.dialect source = []) :
    ∃ report, linter.lintSource path source = .ok report ∧ report.diagnostics = [] := by
  have hnothing : (linter.lists path.dialect source).flatMap (linter.findings source) = [] := by
    refine List.flatMap_eq_nil_iff.mpr fun list hlist => findings_of_not_violates ?_
    exact eq_false_of_ne_true (List.filter_eq_nil_iff.mp hnone list hlist)
  have hreports : linter.reportsOn source (linter.lists path.dialect source) = .ok [] := by
    rw [reportsOn_eq hranges, hnothing]
  unfold Linter.lists at hreports
  simp only [lintSource, hreports, pure, Except.pure, bind, Except.bind]
  exact ⟨_, rfl, by simp⟩

end Linter

end KeyOrder
