import KeyOrder.Lint.File

/-!
# Summary of a run

What a run comes to in numbers. Diagnostics are counted over all reports; a file that could not be
linted is a failure and has no diagnostics.
-/

namespace KeyOrder

/-- A file that could not be linted, and why. -/
structure FileFailure where
  file : Path
  error : String
deriving DecidableEq, Repr

/-- Totals over a run. -/
structure Summary where
  /-- Files that were linted. -/
  files : Nat := 0
  errors : Nat := 0
  warnings : Nat := 0
  /-- Diagnostics that come with a fix. -/
  fixable : Nat := 0
  /-- Files that fixing changed. -/
  fixedFiles : Nat := 0
  /-- Files that could not be linted. -/
  failures : Nat := 0
deriving DecidableEq, Repr

namespace Summary

/-- The totals of reports and failures. -/
def ofReports (reports : List FileReport) (failures : List FileFailure) : Summary :=
  let diagnostics := reports.flatMap (·.diagnostics)
  { files := reports.length
    errors := diagnostics.countP (·.severity = .error)
    warnings := diagnostics.countP (·.severity = .warning)
    fixable := diagnostics.countP (·.fix.isSome)
    fixedFiles := reports.countP fun report => report.fix.any FixOutcome.changed
    failures := failures.length }

/-- Number of diagnostics. -/
def problems (summary : Summary) : Nat := summary.errors + summary.warnings

end Summary

end KeyOrder
