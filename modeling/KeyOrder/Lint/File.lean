import KeyOrder.Files.Tree
import KeyOrder.Lint.Basic

/-!
# Linting and fixing files

A file is read, fixed if that is asked for, and linted. **It is written only when fixing went
through and applied an edit**; a file that could not be fixed to the end keeps its content.
-/

namespace KeyOrder

/-- What is done with fixes. -/
inductive FixMode where
  /-- Nothing: problems are only reported. -/
  | off
  /-- Files are written. -/
  | apply
  /-- Fixed sources are worked out and not written. -/
  | dryRun
deriving DecidableEq, Repr

namespace Linter

/-- Lints a file and gives the file system after that. -/
def lintFile (linter : Linter) (mode : FixMode) (files : FileSystem) (path : Path) :
    Except LintError FileReport × FileSystem :=
  match files.read path with
  | .error error => (.error (.access path error.message), files)
  | .ok source =>
    if mode = .off then
      ((linter.lintSource path source).mapError .evaluation, files)
    else
      match linter.fixSource path source with
      | .error error => (.error error, files)
      | .ok outcome =>
        let files :=
          if mode = .apply && outcome.changed then files.write path outcome.output else files
        match linter.lintSource path outcome.output with
        | .error error => (.error (.evaluation error), files)
        | .ok report => (.ok { report with fix := some outcome }, files)

/-- Lints files one after another. -/
def lintFiles (linter : Linter) (mode : FixMode) (files : FileSystem) :
    List Path → List (Path × Except LintError FileReport) × FileSystem
  | [] => ([], files)
  | path :: rest =>
    let (result, files) := linter.lintFile mode files path
    let (others, files) := linter.lintFiles mode files rest
    ((path, result) :: others, files)

end Linter

end KeyOrder
