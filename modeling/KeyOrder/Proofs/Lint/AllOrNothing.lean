import KeyOrder.Lint.File
import KeyOrder.Proofs.Files.Writing
import KeyOrder.Proofs.Lint.Convergence
import KeyOrder.Proofs.TypeScript.WellFormed

/-!
# Fixing a file is all or nothing

A file is written in one step, and only when all passes went through and applied an edit. What
follows the write is the report on the written text, and **on a well-formed tree no rule fails**, so
no error comes behind the write: a file on which linting fails is as it was.
-/

namespace KeyOrder.Linter

variable {linter : Linter} {mode : FixMode} {files : FileSystem} {path : Path}
  {outcome : FixOutcome}

/-- A text with a well-formed tree is linted without an error. -/
theorem exists_lintSource {source : Text}
    (h : (linter.parse path.dialect source).WellFormed source) :
    ∃ report, linter.lintSource path source = .ok report := by
  simp only [lintSource, reportsOn_eq h.checkRanges, pure, Except.pure, bind, Except.bind]
  exact ⟨_, rfl⟩

/-- Whether linting the file at a path rewrites it: that is asked for, the file holds a text, and
fixing it goes through with this outcome and applies an edit. -/
structure Rewrites (linter : Linter) (mode : FixMode) (files : FileSystem) (path : Path)
    (outcome : FixOutcome) : Prop where
  mode_eq : mode = .apply
  fixed : ∃ source, files.find? path = some (.file (.text source))
    ∧ linter.fixSource path source = .ok outcome
  applied : 0 < outcome.applied

/-- A file that is rewritten holds the output, and the report is on that. -/
theorem lintFile_of_rewrites (h : linter.Rewrites mode files path outcome) :
    linter.lintFile mode files path
      = (match linter.lintSource path outcome.output with
          | .error error => .error (.evaluation error)
          | .ok report => .ok { report with fix := some outcome },
        files.write path outcome.output) := by
  obtain ⟨rfl, ⟨source, hfile, hfix⟩, happlied⟩ := h
  have hread : files.read path = .ok source := by rw [FileSystem.read, hfile]
  have hchanged : outcome.changed = true := decide_eq_true happlied
  simp only [lintFile, hread, hfix, hchanged]
  cases linter.lintSource path outcome.output <;> rfl

/-- A file that is not rewritten is not written to. -/
theorem lintFile_of_not_rewrites (h : ¬ ∃ outcome, linter.Rewrites mode files path outcome) :
    (linter.lintFile mode files path).2 = files := by
  unfold lintFile
  split
  · rfl
  · rename_i source hread
    split
    · rfl
    · split
      · rfl
      · rename_i outcome hfix
        have hkept : (mode = .apply && outcome.changed) = false := by
          refine eq_false_of_ne_true fun hwritten => h ⟨outcome, ?_⟩
          obtain ⟨hmode, hchanged⟩ := Bool.and_eq_true_iff.mp hwritten
          exact ⟨of_decide_eq_true hmode, ⟨source, FileSystem.find?_of_read hread, hfix⟩,
            of_decide_eq_true hchanged⟩
        simp only [hkept]
        split <;> rfl

/-- **Fixing a file is all or nothing.** Let the parser give a well-formed tree for every text. A
file that is rewritten holds the output of fixing it, every other place of the file system has what
it had, and there is a report, which describes the text that is now in the file. In all other cases
nothing is written: so it is whenever linting the file is an error, and whenever writing is not
asked for. -/
theorem lintFile_all_or_nothing
    (hparser : ∀ text, (linter.parse path.dialect text).WellFormed text) (mode : FixMode)
    (files : FileSystem) :
    (∀ outcome, linter.Rewrites mode files path outcome →
      (linter.lintFile mode files path).2.find? path = some (.file (.text outcome.output))
        ∧ (∀ location, files.locate? path ≠ some location →
          (linter.lintFile mode files path).2.contentAt? location = files.contentAt? location)
        ∧ ∃ report, linter.lintSource path outcome.output = .ok report
          ∧ (linter.lintFile mode files path).1 = .ok { report with fix := some outcome })
      ∧ ((¬ ∃ outcome, linter.Rewrites mode files path outcome) →
        (linter.lintFile mode files path).2 = files)
      ∧ (∀ error, (linter.lintFile mode files path).1 = .error error →
        (linter.lintFile mode files path).2 = files)
      ∧ (mode ≠ .apply → (linter.lintFile mode files path).2 = files) := by
  have hreport : ∀ outcome, linter.Rewrites mode files path outcome →
      ∃ report, linter.lintSource path outcome.output = .ok report
        ∧ linter.lintFile mode files path
          = (.ok { report with fix := some outcome }, files.write path outcome.output) := by
    intro outcome h
    obtain ⟨report, hlint⟩ := exists_lintSource (hparser outcome.output)
    refine ⟨report, hlint, ?_⟩
    rw [lintFile_of_rewrites h, hlint]
  refine ⟨fun outcome h => ?_, lintFile_of_not_rewrites, fun error herror => ?_, fun hmode => ?_⟩
  · obtain ⟨report, hlint, hresult⟩ := hreport outcome h
    obtain ⟨source, hfile, -⟩ := h.fixed
    rw [hresult]
    refine ⟨FileSystem.find?_write hfile, fun location hlocation => ?_, report, hlint, rfl⟩
    rw [FileSystem.contentAt?_write hfile, if_neg hlocation]
  · refine lintFile_of_not_rewrites ?_
    rintro ⟨outcome, h⟩
    obtain ⟨report, -, hresult⟩ := hreport outcome h
    rw [hresult] at herror
    cases herror
  · exact lintFile_of_not_rewrites fun ⟨_, h⟩ => hmode h.mode_eq

/-- A directory with one file of two unsorted lists, one inside the other. -/
def nestedFiles : FileSystem where
  root := .directory [("nested.ts", .file (.text (Nested.source false false)))]
  workingDirectory := []

/-- The file is rewritten in two passes if that is asked for, and otherwise it stays as it is. -/
theorem lintFile_all_or_nothing_nested :
    (Nested.linter.lintFile .apply nestedFiles "nested.ts").2.find? "nested.ts"
        = some (.file (.text (Nested.source true true)))
      ∧ (Nested.linter.lintFile .dryRun nestedFiles "nested.ts").2 = nestedFiles := by
  have hparser : ∀ text, (Nested.linter.parse (Path.dialect "nested.ts") text).WellFormed text :=
    TypeScript.parse_wellFormed _
  have hrewrites : Nested.linter.Rewrites .apply nestedFiles "nested.ts"
      ⟨Nested.source true true, 2, 2⟩ :=
    ⟨rfl, ⟨_, by rfl, Nested.fixSource_source⟩, by decide⟩
  exact ⟨((lintFile_all_or_nothing hparser .apply nestedFiles).1 _ hrewrites).1,
    (lintFile_all_or_nothing hparser .dryRun nestedFiles).2.2.2 (by decide)⟩

end KeyOrder.Linter
