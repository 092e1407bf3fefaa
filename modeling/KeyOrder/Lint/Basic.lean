import KeyOrder.Files.Path
import KeyOrder.Rule.Basic
import KeyOrder.Syntax.MemberLists
import KeyOrder.Text.LineIndex
import KeyOrder.TypeScript.Parse

/-!
# Linting and fixing a source

A linter runs its rules over every member list of a source. Fixing applies the edits of the
reports in passes: each pass applies those that can be applied together, the outermost ones first,
and parses again, so that nested lists are sorted from the outside to the inside. **A source that
parses stays one**: a pass whose result does not parse is an error.
-/

namespace KeyOrder

/-- A report with its place in lines and columns. -/
structure Diagnostic where
  rule : RuleId
  messageId : MessageId
  severity : Severity
  message : String
  line : Nat
  column : Nat
  endLine : Nat
  endColumn : Nat
  span : Span
  fix : Option Edit
deriving DecidableEq, Repr

/-- The result of fixing a source. -/
structure FixOutcome where
  output : Text
  /-- Passes that applied an edit. -/
  passes : Nat
  /-- Edits applied in all passes. -/
  applied : Nat
deriving DecidableEq, Repr

/-- Whether an edit was applied. -/
def FixOutcome.changed (outcome : FixOutcome) : Bool := 0 < outcome.applied

/-- What is said about one file. -/
structure FileReport where
  file : Path
  /-- In the order of their places. -/
  diagnostics : List Diagnostic
  hasSyntaxErrors : Bool
  /-- The result of fixing, if that was asked for. -/
  fix : Option FixOutcome
deriving DecidableEq, Repr

/-- Number of diagnostics of a severity. -/
def FileReport.count (report : FileReport) (severity : Severity) : Nat :=
  report.diagnostics.countP (·.severity = severity)

/-- Why a source cannot be linted or fixed. -/
inductive LintError where
  /-- The file at a path cannot be read. -/
  | access (path : Path) (reason : String)
  | evaluation (error : EvaluationError)
  | edit (error : EditError)
deriving DecidableEq, Repr

/-- The wording of a lint error. -/
def LintError.message : LintError → String
  | .access path reason => "failed to access " ++ path ++ ": " ++ reason
  | .evaluation error => error.message
  | .edit error => error.message

/-- Rules, and a parser to find member lists with. -/
structure Linter where
  parse : TypeScript.Dialect → Text → SyntaxNode
  rules : List Rule

namespace Linter

/-- The linter of TypeScript with the given rules. -/
def typeScript (rules : List Rule) : Linter := ⟨TypeScript.parse, rules⟩

/-- The reports of every rule on every member list: list by list, and rule by rule for each. -/
def reportsOn (linter : Linter) (source : Text) (lists : List MemberList) :
    Except EvaluationError (List (Rule × Report)) := do
  let found ← lists.mapM fun list => do
    let byRule ← linter.rules.mapM fun rule => do
      return (← rule.check source list).map fun report => (rule, report)
    return byRule.flatten
  return found.flatten

/-- The reports on a source. -/
def reports (linter : Linter) (dialect : TypeScript.Dialect) (source : Text) :
    Except EvaluationError (List (Rule × Report)) :=
  linter.reportsOn source ((linter.parse dialect source).memberLists source)

/-- A report with its place in lines and columns. -/
def diagnostic (source : Text) (index : LineIndex) (rule : Rule) (report : Report) : Diagnostic :=
  let (line, column) := index.lineColumn source report.span.start
  let (endLine, endColumn) := index.lineColumn source report.span.stop
  { rule := rule.id, messageId := report.messageId, severity := rule.severity
    message := report.message, line, column, endLine, endColumn, span := report.span
    fix := report.fix }

/-- Whether a diagnostic stands no later than another. -/
def placedBefore (a b : Diagnostic) : Bool :=
  a.line < b.line || (a.line = b.line && a.column ≤ b.column)

/-- Lints a source. Its path chooses the dialect. -/
def lintSource (linter : Linter) (path : Path) (source : Text) :
    Except EvaluationError FileReport := do
  let tree := linter.parse path.dialect source
  let reports ← linter.reportsOn source (tree.memberLists source)
  let index := LineIndex.ofText source
  let diagnostics := reports.map fun (rule, report) => diagnostic source index rule report
  return {
    file := path
    diagnostics := diagnostics.mergeSort placedBefore
    hasSyntaxErrors := tree.hasError
    fix := none }

/-- Passes after which fixing stops. -/
def maxPasses : Nat := 10

/-- The edits that the next pass applies. -/
def nextEdits (linter : Linter) (dialect : TypeScript.Dialect) (source : Text) :
    Except EvaluationError (List Edit) := do
  let reports ← linter.reports dialect source
  return selectEdits source (reports.filterMap fun (_, report) => report.fix)

/-- Whether a source parses without a syntax error. -/
def parsesClean (linter : Linter) (dialect : TypeScript.Dialect) (source : Text) : Bool :=
  !(linter.parse dialect source).hasError

/-- Runs passes until no edit is left, or the given number of passes is used up. -/
def fixPasses (linter : Linter) (dialect : TypeScript.Dialect) :
    Nat → FixOutcome → Except LintError FixOutcome
  | 0, outcome => .ok outcome
  | remaining + 1, outcome =>
    match linter.nextEdits dialect outcome.output with
    | .error error => .error (.evaluation error)
    | .ok [] => .ok outcome
    | .ok edits =>
      match applyVerified (linter.parsesClean dialect) outcome.output edits with
      | .error error => .error (.edit error)
      | .ok output =>
        linter.fixPasses dialect remaining
          ⟨output, outcome.passes + 1, outcome.applied + edits.length⟩

/-- Fixes a source. -/
def fixSource (linter : Linter) (path : Path) (source : Text) : Except LintError FixOutcome :=
  linter.fixPasses path.dialect maxPasses ⟨source, 0, 0⟩

end Linter

end KeyOrder
