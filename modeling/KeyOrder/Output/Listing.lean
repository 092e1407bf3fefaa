import KeyOrder.Files.Collect
import KeyOrder.Output.Style
import KeyOrder.Output.Summary
import KeyOrder.Output.Table

/-!
# Output for people

What a run prints: the diagnostics of each file, fixed sources, files that could not be linted,
counts by rule, and the totals at the end. Every part starts with an empty line of its own, and a
part that has nothing to say prints nothing.
-/

namespace KeyOrder.Output

/-- The ending of a noun that is counted. -/
def plural (count : Nat) : String := if count = 1 then "" else "s"

/-- The place of a diagnostic. -/
def placeLabel (diagnostic : Diagnostic) : String :=
  toString diagnostic.line ++ ":" ++ toString diagnostic.column

/-- The style of a severity. -/
def severityStyle : Severity → Style
  | .error => { colour := some .red }
  | .warning => { colour := some .yellow }

/-- The line about a diagnostic, with its place padded to a width. -/
def diagnosticLine (coloured : Bool) (width : Nat) (diagnostic : Diagnostic) : String :=
  let place := padEnd width (placeLabel diagnostic)
  let severity := padEnd 7 diagnostic.severity.word
  "  " ++ Style.faint.paint coloured place ++ "  " ++
    (severityStyle diagnostic.severity).paint coloured severity ++ "  " ++
    diagnostic.message ++ "  " ++ Style.faint.paint coloured diagnostic.rule.name ++ "\n"

/-- The diagnostics of a file below its path. -/
def fileReport (coloured : Bool) (report : FileReport) : String :=
  if report.diagnostics.isEmpty then ""
  else
    let width := report.diagnostics.foldl (fun widest d => max widest (placeLabel d).length) 0
    "\n" ++ Style.paint { underline := true } coloured report.file.display ++ "\n" ++
      String.join (report.diagnostics.map (diagnosticLine coloured width))

/-- The fixed source of a file, if fixing changed it. -/
def fixedSource (coloured : Bool) (report : FileReport) : String :=
  match report.fix with
  | none => ""
  | some outcome =>
    if outcome.changed then
      "\n" ++ Style.paint { bold := true, colour := some .green } coloured "Fixed:" ++ " " ++
        report.file.display ++ "\n" ++ String.ofList outcome.output ++
        (if outcome.output.getLast? = some '\n' then "" else "\n")
    else ""

/-- The files that could not be linted. -/
def failures (coloured : Bool) (failures : List FileFailure) : String :=
  if failures.isEmpty then ""
  else
    let table : Table :=
      ⟨["File", "Error"], failures.map fun failure => [failure.file.display, failure.error]⟩
    let title : Style := { bold := true, underline := true, colour := some .red }
    "\n" ++ title.paint coloured "Errors" ++ "\n" ++ table.render ++ "\n"

/-- The row about a rule in the statistics, if it has a diagnostic. -/
def statisticsRow? (reports : List FileReport) (rule : RuleId) : Option (List String) :=
  let diagnostics := (reports.flatMap (·.diagnostics)).filter (·.rule = rule)
  let files := reports.countP fun report => report.diagnostics.any (·.rule = rule)
  if diagnostics.isEmpty then none
  else
    some [rule.name, toString (diagnostics.countP (·.severity = .error)),
      toString (diagnostics.countP (·.severity = .warning)), toString files]

/-- Diagnostics counted by rule, the rules in the order of their names. -/
def statistics (coloured : Bool) (reports : List FileReport) : String :=
  let ordered := RuleId.all.mergeSort fun a b => a.name ≤ b.name
  let rows := ordered.filterMap (statisticsRow? reports)
  "\n" ++ Style.paint { bold := true, underline := true } coloured "Statistics" ++ "\n" ++
    (if rows.isEmpty then Style.faint.paint coloured "No diagnostics."
      else Table.render ⟨["Rule", "Errors", "Warnings", "Files"], rows⟩) ++ "\n"

/-- The line about the number of problems. -/
def problemsLine (summary : Summary) : String :=
  let count (n : Nat) (noun : String) : String := toString n ++ " " ++ noun ++ plural n
  "✖ " ++ count summary.problems "problem" ++ " (" ++ count summary.errors "error" ++ ", " ++
    count summary.warnings "warning" ++ ")"

/-- The totals of a run. -/
def summary (coloured : Bool) (summary : Summary) : String :=
  let fixed :=
    if summary.fixedFiles = 0 then ""
    else
      Style.paint { colour := some .green } coloured
        ("Fixed " ++ toString summary.fixedFiles ++ " file" ++ plural summary.fixedFiles ++ ".") ++
        "\n"
  let rest :=
    if summary.problems = 0 then
      Style.paint { bold := true, colour := some .green } coloured "[OK]" ++ " " ++
        Style.faint.paint coloured ("No problems in " ++ toString summary.files ++ " files.") ++
        "\n"
    else
      let colour := if 0 < summary.errors then Colour.red else .yellow
      Style.paint { bold := true, colour := some colour } coloured (problemsLine summary) ++ "\n" ++
        (if summary.fixable = 0 then ""
          else
            let hint := toString summary.fixable ++ " of them can be fixed with the `--fix` option."
            "  " ++ Style.faint.paint coloured hint ++ "\n")
  "\n" ++ fixed ++ rest

/-- The rules there are. -/
def rules (rules : List RuleId) : String :=
  let status (rule : RuleId) : String :=
    match rule.replacement? with
    | none => "active"
    | some other => "deprecated, use '" ++ other.name ++ "'"
  let row (rule : RuleId) : List String := [rule.name, rule.code, rule.description, status rule]
  Table.render ⟨["Rule", "Code", "Description", "Status"], rules.map row⟩ ++ "\n"

/-- The folders that are left out. -/
def exclusions (coloured : Bool) (folders : List String) : String :=
  Style.paint { bold := true, colour := some .yellow } coloured "Excluding:" ++ " " ++
    Style.faint.paint coloured (String.intercalate ", " (defaultExcludes ++ folders)) ++ "\n"

end KeyOrder.Output
