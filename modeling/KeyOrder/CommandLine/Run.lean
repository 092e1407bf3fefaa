import KeyOrder.CommandLine.Help
import KeyOrder.Output.Document
import KeyOrder.Output.Listing
import KeyOrder.Settings.Load

/-!
# Running the program

A run takes a command line and the files there are, and gives what is printed, how the program ends,
and the files after that. Nothing is printed and no file is touched when the command line, a path or
the settings are not in order.
-/

namespace KeyOrder.CommandLine

/-- How a run ends. -/
inductive ExitStatus where
  /-- No problem of severity error is left. -/
  | clean
  /-- A problem of severity error is left. -/
  | problems
  /-- The run could not be started, or a file could not be linted. -/
  | failure
deriving DecidableEq, Repr

/-- The exit code of a status. -/
def ExitStatus.code : ExitStatus → Nat
  | .clean => 0
  | .problems => 1
  | .failure => 2

/-- Why a run could not be started. -/
inductive RunError where
  /-- A path leads nowhere. -/
  | missingPath (path : Path)
  | settings (error : SettingsError)
deriving DecidableEq, Repr

/-- The wording of a run error. -/
def RunError.message : RunError → String
  | .missingPath path => "the file or directory '" ++ path ++ "' does not exist"
  | .settings error => error.message

/-- What a run comes to. -/
structure RunResult where
  status : ExitStatus
  output : String
  /-- What is said aside from the output. -/
  notice : Option String := none
  files : FileSystem

namespace Arguments

/-- The paths to lint. -/
def lintPaths (arguments : Arguments) : List Path :=
  if arguments.paths.isEmpty then ["."] else arguments.paths

/-- What is done with fixes. -/
def fixMode (arguments : Arguments) : FixMode :=
  if arguments.has .dryRun then .dryRun else if arguments.has .fix then .apply else .off

/-- The settings of a run: those of a file with what the command line says on top. -/
def settings (arguments : Arguments) (files : FileSystem) (path : Path) :
    Except SettingsError Settings := do
  let loaded ← match arguments.config with
    | some file => files.loadSettingsFile file
    | none => files.loadSettings path
  let preset := arguments.preset <|> loaded.settings.preset
  return { loaded.settings with preset }.withOverrides arguments.overrides

/-- The files to lint, each of them once. -/
def lintedFiles (arguments : Arguments) (settings : Settings) (files : FileSystem)
    (walk : Walker := FileSystem.walk) : List Path :=
  let excludes := settings.excludeFolders.getD [] ++ arguments.excludes
  let skip := arguments.has .skipDeclarationFiles || settings.skipDeclarationFiles.getD false
  Path.dedup (Path.sort (arguments.lintPaths.flatMap fun path =>
    (files.collect excludes skip path walk).files))

/-- The text of a run for people. -/
def listing (arguments : Arguments) (coloured : Bool) (reports : List FileReport)
    (failures : List FileFailure) (summary : Summary) : String :=
  let about (report : FileReport) : String :=
    (if arguments.fixMode = .dryRun then Output.fixedSource coloured report else "") ++
      Output.fileReport coloured report
  (if arguments.has .quiet then "" else String.join (reports.map about)) ++
    Output.failures coloured failures ++
    (if arguments.has .statistics then Output.statistics coloured reports else "") ++
    Output.summary coloured summary

end Arguments

/-- How a run with these totals ends. -/
def exitStatus (summary : Summary) : ExitStatus :=
  if 0 < summary.failures then .failure else if 0 < summary.errors then .problems else .clean

/-- The reports among the results of linting. -/
def reportsOf (results : List (Path × Except LintError FileReport)) : List FileReport :=
  results.filterMap fun (_, result) => result.toOption

/-- The failures among the results of linting. -/
def failuresOf (results : List (Path × Except LintError FileReport)) : List FileFailure :=
  results.filterMap fun (path, result) =>
    match result with
    | .ok _ => none
    | .error error => some ⟨path, error.message⟩

/-- Lints the files that a command line names. -/
def lint (arguments : Arguments) (coloured : Bool) (files : FileSystem) :
    Except RunError RunResult := do
  let paths := arguments.lintPaths
  if let some path := paths.find? fun path => !files.pathExists path then
    throw (.missingPath path)
  let settings ← (arguments.settings files (paths.headD ".")).mapError RunError.settings
  let rules ← settings.rules.mapError RunError.settings
  let paths := arguments.lintedFiles settings files
  let (results, after) := (Linter.typeScript rules).lintFiles arguments.fixMode files paths
  let reports := reportsOf results
  let failures := failuresOf results
  let summary := Summary.ofReports reports failures
  let output :=
    if arguments.has .json then Output.document reports failures summary
    else arguments.listing coloured reports failures summary
  return { status := exitStatus summary, output, files := after }

/-- Runs the program. -/
def run (coloured : Bool) (arguments : List String) (files : FileSystem) : RunResult :=
  match read arguments with
  | .error (.help page) => { status := .clean, output := page.text, files }
  | .error .version => { status := .clean, output := versionText, files }
  | .error (.usage _) =>
    { status := .failure, output := "", files
      notice := some "bad usage, for more information try '--help'" }
  | .ok arguments =>
    match arguments.listRules with
    | some true => { status := .clean, output := Output.ruleDocument RuleId.all, files }
    | some false => { status := .clean, output := Output.rules RuleId.all, files }
    | none =>
      match lint arguments coloured files with
      | .ok result => result
      | .error error =>
        { status := .failure, output := "", files, notice := some ("Error: " ++ error.message) }

end KeyOrder.CommandLine
