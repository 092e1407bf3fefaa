import KeyOrder.Proofs.Lint.AllOrNothing
import KeyOrder.Proofs.Lint.Reports
import KeyOrder.Proofs.Order.StableSort
import KeyOrder.Proofs.Text.Lines
import KeyOrder.Proofs.TypeScript.WellFormed

/-!
# Diagnostics stand in source order

A report is about a node around a list or about a declaration, and both start where a node does. On
a tree whose nodes start on character boundaries, lines and columns order the reports as their byte
offsets do, so **the diagnostics of a source are its reports in the order of their starts, and those
with one start in the order in which they were reported**.
-/

namespace KeyOrder

/-- A computation in two steps succeeds if both do. -/
theorem exists_of_bind_eq_ok {α β ε : Type} {x : Except ε α} {f : α → Except ε β} {b : β}
    (h : x >>= f = .ok b) : ∃ a, x = .ok a ∧ f a = .ok b := by
  cases x with
  | error e => cases h
  | ok a => exact ⟨a, rfl, h⟩

/-- What a traversal gives is given at some element. -/
theorem exists_of_mapM_eq_ok {α β ε : Type} {f : α → Except ε β} {l : List α} {results : List β}
    (h : l.mapM f = .ok results) {b : β} (hb : b ∈ results) : ∃ a ∈ l, f a = .ok b := by
  induction l generalizing results with
  | nil =>
      cases h
      simp at hb
  | cons a rest ih =>
      rw [List.mapM_cons] at h
      obtain ⟨first, hfirst, h⟩ := exists_of_bind_eq_ok h
      obtain ⟨later, hlater, h⟩ := exists_of_bind_eq_ok h
      cases h
      rcases List.mem_cons.mp hb with rfl | hb
      · exact ⟨a, List.mem_cons_self, hfirst⟩
      · obtain ⟨other, hother, hresult⟩ := ih hlater hb
        exact ⟨other, List.mem_cons_of_mem _ hother, hresult⟩

/-! ## Where reports start -/

/-- Whether the places at which a list is reported start on character boundaries. -/
structure MemberList.StartsOnBoundaries (list : MemberList) (source : Text) : Prop where
  parent : source.isBoundary list.parent.start = true
  declarations : ∀ member ∈ list.members, source.isBoundary member.declaration.start = true

namespace SyntaxNode

/-- Whether every node of a tree starts on a character boundary. -/
def StartsOnBoundaries (root : SyntaxNode) (source : Text) : Prop :=
  ∀ node ∈ root.nodes, source.isBoundary node.span.start = true

variable {source : Text} {root : SyntaxNode}

theorem place_startsOnBoundary {node : SyntaxNode} (h : node.StartsOnBoundaries source) :
    source.isBoundary node.place.start = true := by
  unfold place
  split
  · exact h node node.self_mem_nodes
  · obtain ⟨first, hfirst, last, -, hcore⟩ := coreSpan_eq_spanning node
    rw [hcore]
    exact h first hfirst

theorem memberList?_startsOnBoundaries {comments : List Comment} {parent : Option Span}
    {listKind : ListKind} {body : SyntaxNode} {list : MemberList}
    (hparent : ∀ span ∈ parent, source.isBoundary span.start = true)
    (hbody : body.StartsOnBoundaries source)
    (h : body.memberList? source comments parent listKind = some list) :
    list.StartsOnBoundaries source := by
  refine ⟨?_, fun member hmember => ?_⟩
  · rcases memberList?_parent h with hown | houter
    · rw [hown]
      exact hbody body body.self_mem_nodes
    · exact hparent _ houter
  · obtain ⟨opening, -, closing, -, -, -, hmembers, -⟩ := memberList?_eq_some h
    obtain ⟨tokens, htokens, hsub⟩ := @memberTokens_readMembers source listKind []
      (body.children.filter fun child =>
        opening.span.stop ≤ child.span.start && child.span.stop ≤ closing.span.start)
    rw [← hmembers] at htokens
    have htoken := (declarations_sublist list.members).subset
      (List.mem_map_of_mem (f := Member.declaration) hmember)
    rw [htokens] at htoken
    obtain ⟨child, hchild, hplace⟩ := List.mem_map.mp (hsub.subset htoken)
    rw [← hplace]
    exact place_startsOnBoundary fun node hnode =>
      hbody node (nodes_subset_of_child (List.mem_filter.mp hchild).1 hnode)

/-- **Every list of a tree is reported on character boundaries**, if the nodes start there. -/
theorem memberLists_startsOnBoundaries (h : root.StartsOnBoundaries source) :
    ∀ list ∈ root.memberLists source, list.StartsOnBoundaries source := by
  refine forall_mem_listsBelow_of_parent (fun parent below =>
    (∀ span ∈ parent, source.isBoundary span.start = true) ∧ below.StartsOnBoundaries source)
    ?_ ?_ root none ⟨by simp, h⟩
  · rintro parent below ⟨-, hbelow⟩ child hchild
    refine ⟨?_, fun node hnode => hbelow node (nodes_subset_of_child hchild hnode)⟩
    rintro span hspan
    cases hspan
    exact hbelow below below.self_mem_nodes
  · rintro parent body ⟨hparent, hbody⟩ listKind list - hlist
    exact memberList?_startsOnBoundaries hparent hbody hlist

end SyntaxNode

/-- A rule reports a list at the node around it and at declarations of its members. -/
theorem Rule.span_of_mem_reportsOf {rule : Rule} {list : MemberList} {evaluation : Evaluation}
    {report : Report} (h : report ∈ rule.reportsOf list evaluation) :
    report.span = list.parent ∨ ∃ member ∈ list.members, report.span = member.declaration := by
  rcases List.mem_cons.mp h with rfl | hmember
  · exact .inl rfl
  · obtain ⟨violation, -, hviolation⟩ := List.mem_filterMap.mp hmember
    obtain ⟨member, hget, rfl⟩ := Option.map_eq_some_iff.mp hviolation
    exact .inr ⟨member, List.mem_of_getElem? hget, rfl⟩

theorem Rule.check_startsOnBoundaries {rule : Rule} {source : Text} {list : MemberList}
    {found : List Report} (hlist : list.StartsOnBoundaries source)
    (h : rule.check source list = .ok found) :
    ∀ report ∈ found, source.isBoundary report.span.start = true := by
  unfold check at h
  split at h
  · cases h
    simp
  · obtain ⟨evaluation, -, h⟩ := exists_of_bind_eq_ok h
    split at h
    · cases h
      simp
    · cases h
      intro report hreport
      rcases span_of_mem_reportsOf hreport with hparent | ⟨member, hmember, hspan⟩
      · rw [hparent]
        exact hlist.parent
      · rw [hspan]
        exact hlist.declarations member hmember

namespace Linter

variable {linter : Linter} {source : Text} {path : Path} {report : FileReport}

/-- **Every report starts on a character boundary**, if every node does. -/
theorem reports_startOnBoundaries {dialect : TypeScript.Dialect} {reports : List (Rule × Report)}
    (htree : (linter.parse dialect source).StartsOnBoundaries source)
    (h : linter.reports dialect source = .ok reports) :
    ∀ pair ∈ reports, source.isBoundary pair.2.span.start = true := by
  intro pair hpair
  obtain ⟨found, hfound, h⟩ := exists_of_bind_eq_ok h
  cases h
  -- the list and then the rule that a report comes from
  obtain ⟨onList, honList, hpair⟩ := List.mem_flatten.mp hpair
  obtain ⟨list, hlist, honList⟩ := exists_of_mapM_eq_ok hfound honList
  obtain ⟨byRule, hbyRule, honList⟩ := exists_of_bind_eq_ok honList
  cases honList
  obtain ⟨ofRule, hofRule, hpair⟩ := List.mem_flatten.mp hpair
  obtain ⟨rule, -, hofRule⟩ := exists_of_mapM_eq_ok hbyRule hofRule
  obtain ⟨checked, hchecked, hofRule⟩ := exists_of_bind_eq_ok hofRule
  cases hofRule
  obtain ⟨report, hreport, rfl⟩ := List.mem_map.mp hpair
  exact rule.check_startsOnBoundaries
    (SyntaxNode.memberLists_startsOnBoundaries htree list hlist) hchecked report hreport

/-- The reports with their places in lines and columns, in the order of the reports. -/
def diagnosed (source : Text) (reports : List (Rule × Report)) : List Diagnostic :=
  reports.map fun (rule, report) => diagnostic source (LineIndex.ofText source) rule report

theorem lintSource_eq_ok (h : linter.lintSource path source = .ok report) : ∃ reports,
    linter.reports path.dialect source = .ok reports
      ∧ report.diagnostics = (diagnosed source reports).mergeSort placedBefore := by
  obtain ⟨reports, hreports, h⟩ := exists_of_bind_eq_ok h
  cases h
  exact ⟨reports, hreports, rfl⟩

/-- Whether a diagnostic starts on a character boundary and has its line and its column. -/
structure Placed (source : Text) (diagnostic : Diagnostic) : Prop where
  boundary : source.isBoundary diagnostic.span.start = true
  lineColumn_eq : (LineIndex.ofText source).lineColumn source diagnostic.span.start
    = (diagnostic.line, diagnostic.column)

/-- Whether a diagnostic starts no later than another. -/
def startsBefore (a b : Diagnostic) : Bool := a.span.start ≤ b.span.start

/-- On boundaries, lines and columns order diagnostics as their offsets do. -/
theorem placedBefore_eq {a b : Diagnostic} (ha : Placed source a) (hb : Placed source b) :
    placedBefore a b = startsBefore a b := by
  have hrises : ∀ {x y : Diagnostic}, Placed source x → Placed source y →
      x.span.start < y.span.start → x.line < y.line ∨ x.line = y.line ∧ x.column < y.column := by
    intro x y hx hy hlt
    have h := LineIndex.lineColumn_lt hx.boundary hy.boundary hlt
    rw [hx.lineColumn_eq, hy.lineColumn_eq] at h
    exact Prod.lex_def.mp h
  rw [Bool.eq_iff_iff]
  simp only [placedBefore, startsBefore, Bool.or_eq_true, Bool.and_eq_true, decide_eq_true_eq]
  rcases Nat.lt_trichotomy a.span.start b.span.start with hlt | heq | hgt
  · have := hrises ha hb hlt
    omega
  · have hsame : (a.line, a.column) = (b.line, b.column) := by
      rw [← ha.lineColumn_eq, ← hb.lineColumn_eq, heq]
    simp only [Prod.mk.injEq] at hsame
    omega
  · have := hrises hb ha hgt
    omega

theorem placed_of_mem_diagnosed {reports : List (Rule × Report)}
    (h : ∀ pair ∈ reports, source.isBoundary pair.2.span.start = true) :
    ∀ diagnostic ∈ diagnosed source reports, Placed source diagnostic := by
  intro diagnostic hmem
  obtain ⟨pair, hpair, rfl⟩ := List.mem_map.mp hmem
  exact ⟨h pair hpair, rfl⟩

/-- **Diagnostics on boundaries are sorted by their starts**, and those with one start stay as they
are. -/
theorem mergeSort_placed {diagnostics : List Diagnostic}
    (h : ∀ diagnostic ∈ diagnostics, Placed source diagnostic) :
    (diagnostics.mergeSort placedBefore).Pairwise (fun a b => a.span.start ≤ b.span.start)
      ∧ ∀ offset : Nat, (diagnostics.mergeSort placedBefore).filter (·.span.start = offset)
        = diagnostics.filter (·.span.start = offset) := by
  have hsame : diagnostics.mergeSort placedBefore = diagnostics.mergeSort startsBefore := by
    have hmap := List.map_mergeSort (f := id) fun a ha b hb => placedBefore_eq (h a ha) (h b hb)
    simpa using hmap
  have htrans : ∀ a b c : Diagnostic, startsBefore a b = true → startsBefore b c = true →
      startsBefore a c = true := by
    simp only [startsBefore, decide_eq_true_eq]
    omega
  have htotal : ∀ a b : Diagnostic, (startsBefore a b || startsBefore b a) = true := by
    simp only [startsBefore, Bool.or_eq_true, decide_eq_true_eq]
    omega
  rw [hsame]
  refine ⟨(List.pairwise_mergeSort htrans htotal _).imp fun hab => of_decide_eq_true hab,
    fun offset => ?_⟩
  refine filter_mergeSort_of_tie htrans htotal _ fun a b ha hb => ?_
  simp only [startsBefore, decide_eq_true_eq] at ha hb ⊢
  omega

end Linter

/-- **Lines and columns are exact, and diagnostics stand in source order.** The line of an offset is
one more than the line feeds at bytes below it; at a character boundary, the column is one more than
the characters behind the last of them, and both together rise strictly. So where the nodes of a
tree start on boundaries, as those of a TypeScript tree do (`TypeScript.parse_startsOnBoundaries`),
the diagnostics are the reports by their starts, with ties in the order of the reports. -/
theorem lineColumn_exact (source : Text) :
    (∀ offset, (LineIndex.ofText source).line offset = 1 + source.lineFeedsBelow offset)
    ∧ (∀ offset, source.isBoundary offset = true → (LineIndex.ofText source).lineColumn source offset
        = (1 + source.lineFeedsBelow offset, 1 + source.columnsBelow offset))
    ∧ (∀ a b, source.isBoundary a = true → source.isBoundary b = true → a < b →
        Prod.Lex (· < ·) (· < ·) ((LineIndex.ofText source).lineColumn source a)
          ((LineIndex.ofText source).lineColumn source b))
    ∧ ∀ (linter : Linter) (path : Path) (report : FileReport),
      (linter.parse path.dialect source).StartsOnBoundaries source →
      linter.lintSource path source = .ok report →
      ∃ reports, linter.reports path.dialect source = .ok reports
        ∧ (∀ diagnostic ∈ report.diagnostics, source.isBoundary diagnostic.span.start = true)
        ∧ report.diagnostics.Pairwise (fun a b => a.span.start ≤ b.span.start)
        ∧ ∀ offset : Nat, report.diagnostics.filter (·.span.start = offset)
          = (Linter.diagnosed source reports).filter (·.span.start = offset) := by
  refine ⟨LineIndex.line_eq source, fun _ => LineIndex.lineColumn_eq,
    fun _ _ => LineIndex.lineColumn_lt, fun linter path report htree hlint => ?_⟩
  obtain ⟨reports, hreports, hdiagnostics⟩ := Linter.lintSource_eq_ok hlint
  have hplaced := Linter.placed_of_mem_diagnosed (Linter.reports_startOnBoundaries htree hreports)
  obtain ⟨hsorted, hties⟩ := Linter.mergeSort_placed hplaced
  rw [hdiagnostics]
  refine ⟨reports, hreports, fun diagnostic hmem => ?_, hsorted, hties⟩
  exact (hplaced diagnostic (List.mem_mergeSort.mp hmem)).boundary

/-- An enum whose name takes up two bytes, with its members in descending order. -/
def wideEnum : Text := "enum É\x7bb,a\x7d".toList

/-- The list that is read off it. -/
def wideEnumList : MemberList where
  kind := .enumeration
  opening := ⟨7, 8, 0, 0⟩
  closing := ⟨11, 12, 0, 0⟩
  parent := ⟨0, 12, 0, 0⟩
  members := [⟨.enumMember, some "b", false, ⟨8, 9, 0, 0⟩, some ⟨9, 10, 0, 0⟩⟩,
    ⟨.enumMember, some "a", false, ⟨10, 11, 0, 0⟩, none⟩]
  comments := []
  stringValued := false

/-- The rule about enums with default options. -/
def enumRule (severity : Severity) : Rule := ⟨.enumeration, severity, {}⟩

/-- A linter that has that rule twice, so that there are ties. -/
def enumLinter : Linter := .typeScript [enumRule .error, enumRule .warning]

theorem starts_findings_wideEnum (severity : Severity) :
    ((enumRule severity).findings wideEnum wideEnumList).map (·.span.start) = [0, 8, 10] := by
  have hsorted : Plan.sortPartition ({} : SortOptions).compareNames wideEnumList.members [0, 1]
      = [1, 0] :=
    Plan.sortPartition_eq [1, 0] (by decide) (by decide +kernel) (by decide +kernel)
  have hplan : (enumRule severity).options.plan wideEnumList.members = ⟨[1, 0]⟩ :=
    congrArg Plan.mk hsorted
  simp only [Rule.findings, Rule.finds, SortOptions.computeEvaluation, hplan]
  cases severity <;> decide +kernel

/-- Each rule reports the enum at its start and at both of its members. -/
theorem starts_wideEnum {reports : List (Rule × Report)}
    (h : enumLinter.reports .plain wideEnum = .ok reports) :
    reports.map (·.2.span.start) = [0, 8, 10, 0, 8, 10] := by
  have hlists : enumLinter.lists .plain wideEnum = [wideEnumList] := by decide +kernel
  have hranges : ∀ list ∈ [wideEnumList],
      list.members ≠ [] → list.checkRanges wideEnum = .ok () := by decide +kernel
  have hfound : enumLinter.reports .plain wideEnum
      = .ok (enumLinter.findings wideEnum wideEnumList) := by
    rw [Linter.reports, ← Linter.lists, hlists, Linter.reportsOn_eq hranges]
    simp
  rw [hfound] at h
  cases h
  have hrules : enumLinter.rules = [enumRule .error, enumRule .warning] := rfl
  simp [Linter.findings, hrules, Function.comp_def, starts_findings_wideEnum]

/-- Diagnostics of two rules with ties, behind a character of two bytes. -/
theorem lineColumn_exact_wide : ∃ report reports,
    enumLinter.lintSource "wide.ts" wideEnum = .ok report
      ∧ enumLinter.reports .plain wideEnum = .ok reports
      ∧ reports.map (·.2.span.start) = [0, 8, 10, 0, 8, 10]
      ∧ report.diagnostics.Pairwise (fun a b => a.span.start ≤ b.span.start)
      ∧ (report.diagnostics.filter (·.span.start = 10)
          = (Linter.diagnosed wideEnum reports).filter (·.span.start = 10))
      ∧ (LineIndex.ofText wideEnum).lineColumn wideEnum 10 = (1, 10) := by
  obtain ⟨-, hcolumn, -, hordered⟩ := lineColumn_exact wideEnum
  have hwellFormed : (enumLinter.parse (Path.dialect "wide.ts") wideEnum).WellFormed wideEnum :=
    TypeScript.parse_wellFormed (Path.dialect "wide.ts") wideEnum
  obtain ⟨report, hlint⟩ := Linter.exists_lintSource hwellFormed
  have hstarts : (enumLinter.parse (Path.dialect "wide.ts") wideEnum).StartsOnBoundaries wideEnum :=
    TypeScript.parse_startsOnBoundaries (Path.dialect "wide.ts") wideEnum
  obtain ⟨reports, hreports, -, hsorted, hties⟩ :=
    hordered enumLinter "wide.ts" report hstarts hlint
  refine ⟨report, reports, hlint, hreports, starts_wideEnum hreports, hsorted, hties 10, ?_⟩
  rw [hcolumn 10 (by decide)]
  decide

end KeyOrder
