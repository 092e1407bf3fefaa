import KeyOrder.Data.JsonWriter
import KeyOrder.Output.Summary

/-!
# Output for programs

Reports, failures, totals and rules as structured values. Entries stand in a fixed order, and what a
diagnostic or a report does not have is left out.
-/

namespace KeyOrder

/-- A number as a value. -/
def Value.ofNat (n : Nat) : Value := .number (toString n)

/-- An entry for something that may be missing. -/
def Value.entry? {α : Type} (key : String) (toValue : α → Value) (content : Option α) :
    List (String × Value) :=
  (content.map fun content => (key, toValue content)).toList

/-- A span as a value. -/
def Span.toValue (span : Span) : Value :=
  .table [("start", .ofNat span.start), ("end", .ofNat span.stop),
    ("start_row", .ofNat span.startRow), ("end_row", .ofNat span.endRow)]

/-- An edit as a value. -/
def Edit.toValue (edit : Edit) : Value :=
  .table ([("start_byte", .ofNat edit.start), ("end_byte", .ofNat edit.stop),
    ("replacement", .string (String.ofList edit.replacement))] ++
    Value.entry? "description" .string edit.description)

/-- A diagnostic as a value. -/
def Diagnostic.toValue (diagnostic : Diagnostic) : Value :=
  .table ([("rule_id", .string diagnostic.rule.name),
    ("message_id", .string diagnostic.messageId.name),
    ("severity", .string diagnostic.severity.word), ("message", .string diagnostic.message),
    ("line", .ofNat diagnostic.line), ("col", .ofNat diagnostic.column),
    ("end_line", .ofNat diagnostic.endLine), ("end_col", .ofNat diagnostic.endColumn),
    ("span", diagnostic.span.toValue)] ++ Value.entry? "fix" Edit.toValue diagnostic.fix)

/-- The result of fixing as a value. -/
def FixOutcome.toValue (outcome : FixOutcome) : Value :=
  .table [("output", .string (String.ofList outcome.output)), ("passes", .ofNat outcome.passes),
    ("applied", .ofNat outcome.applied)]

/-- A report as a value. -/
def FileReport.toValue (report : FileReport) : Value :=
  .table ([("file", .string report.file),
    ("diagnostics", .array (report.diagnostics.map Diagnostic.toValue)),
    ("has_syntax_errors", .boolean report.hasSyntaxErrors)] ++
    Value.entry? "fix" FixOutcome.toValue report.fix)

/-- A failure as a value. -/
def FileFailure.toValue (failure : FileFailure) : Value :=
  .table [("file", .string failure.file), ("error", .string failure.error)]

/-- Totals as a value. -/
def Summary.toValue (summary : Summary) : Value :=
  .table [("files", .ofNat summary.files), ("errors", .ofNat summary.errors),
    ("warnings", .ofNat summary.warnings), ("fixable", .ofNat summary.fixable),
    ("fixed_files", .ofNat summary.fixedFiles), ("failures", .ofNat summary.failures)]

/-- What is said about a rule, as a value. -/
def RuleId.toValue (rule : RuleId) : Value :=
  .table [("id", .string rule.name), ("code", .string rule.code),
    ("description", .string rule.description),
    ("replaced_by", (rule.replacement?.map fun other => Value.string other.name).getD .null)]

namespace Output

/-- The whole outcome of a run, for programs. -/
def document (reports : List FileReport) (failures : List FileFailure) (summary : Summary) :
    String :=
  Json.pretty (.table [("files", .array (reports.map FileReport.toValue)),
    ("failures", .array (failures.map FileFailure.toValue)), ("summary", summary.toValue)]) ++ "\n"

/-- The rules there are, for programs. -/
def ruleDocument (rules : List RuleId) : String :=
  Json.pretty (.array (rules.map RuleId.toValue)) ++ "\n"

end Output

end KeyOrder
