import KeyOrder.Proofs.Lint.Convergence

/-!
# Fixing ends at a fixed point

Fixing goes on until a pass finds no edit to apply, or the passes are used up. Whatever the parser
and the rules are, **a run that ends before that has reached a text that fixing leaves alone**: the
edits that are still reported there change nothing, and a second run applies none.
-/

namespace KeyOrder

namespace Linter

variable {linter : Linter} {dialect : TypeScript.Dialect} {source : Text}

/-- What a run of passes that went through comes to, from an outcome so far and with a number of
passes left. -/
structure Settles (linter : Linter) (dialect : TypeScript.Dialect) (remaining : Nat)
    (start outcome : FixOutcome) : Prop where
  passes_ge : start.passes ≤ outcome.passes
  passes_le : outcome.passes ≤ start.passes + remaining
  /-- Every pass applies an edit. -/
  applied_ge : start.applied + outcome.passes ≤ outcome.applied + start.passes
  /-- The text changes in passes only. -/
  output_eq : outcome.passes = start.passes → outcome.output = start.output
  /-- A run with passes to spare has found nothing more to apply. -/
  done : outcome.passes < start.passes + remaining →
    linter.nextEdits dialect outcome.output = .ok []

/-- One pass in front of a run. -/
theorem Settles.pass {remaining passes applied : Nat} {output : Text} {edits : List Edit}
    {outcome : FixOutcome} (hne : edits ≠ [])
    (h : linter.Settles dialect remaining ⟨output, passes + 1, applied + edits.length⟩ outcome) :
    linter.Settles dialect (remaining + 1) ⟨source, passes, applied⟩ outcome := by
  have hlength := List.length_pos_iff.mpr hne
  have hge : passes + 1 ≤ outcome.passes := h.passes_ge
  have hle : outcome.passes ≤ passes + 1 + remaining := h.passes_le
  have happlied : applied + edits.length + outcome.passes ≤ outcome.applied + (passes + 1) :=
    h.applied_ge
  refine ⟨?_, ?_, ?_, fun heq => ?_, fun hlt => h.done ?_⟩
  · show passes ≤ outcome.passes
    omega
  · show outcome.passes ≤ passes + (remaining + 1)
    omega
  · show applied + outcome.passes ≤ outcome.applied + passes
    omega
  · have heq : outcome.passes = passes := heq
    omega
  · have hlt : outcome.passes < passes + (remaining + 1) := hlt
    show outcome.passes < passes + 1 + remaining
    omega

/-- **A run of passes settles.** -/
theorem fixPasses_settles {remaining passes applied : Nat} {outcome : FixOutcome}
    (h : linter.fixPasses dialect remaining ⟨source, passes, applied⟩ = .ok outcome) :
    linter.Settles dialect remaining ⟨source, passes, applied⟩ outcome := by
  induction remaining generalizing source passes applied with
  | zero =>
      rw [Linter.fixPasses] at h
      cases h
      exact ⟨Nat.le_refl _, Nat.le_refl _, Nat.le_refl _, fun _ => rfl, fun hlt => by simp at hlt⟩
  | succ remaining ih =>
      rcases fixPasses_cases h with ⟨hnext, rfl⟩ | ⟨edits, output, -, hne, -, hrest⟩
      · exact ⟨Nat.le_refl _, Nat.le_add_right _ _, Nat.le_refl _, fun _ => rfl, fun _ => hnext⟩
      · exact (ih hrest).pass hne

/-- A text without an edit to apply is linted, and the edits that are reported change nothing. -/
theorem lintSource_of_nextEdits_eq_nil {path : Path}
    (h : linter.nextEdits path.dialect source = .ok []) :
    ∃ report, linter.lintSource path source = .ok report
      ∧ ∀ diagnostic ∈ report.diagnostics, ∀ edit ∈ diagnostic.fix, edit.isNoop source = true := by
  unfold nextEdits at h
  cases hfound : linter.reports path.dialect source with
  | error error => simp [hfound, bind, Except.bind] at h
  | ok reports =>
      simp only [hfound, bind, Except.bind, pure, Except.pure, Except.ok.injEq] at h
      unfold Linter.reports at hfound
      simp only [lintSource, hfound, bind, Except.bind, pure, Except.pure]
      refine ⟨_, rfl, fun diagnostic hdiagnostic edit hedit => ?_⟩
      obtain ⟨⟨rule, report⟩, hreport, rfl⟩ := List.mem_map.mp (List.mem_mergeSort.mp hdiagnostic)
      exact Edit.isNoop_of_selectEdits_eq_nil h edit
        (List.mem_filterMap.mpr ⟨(rule, report), hreport, hedit⟩)

/-- A text without an edit to apply is fixed without a pass. -/
theorem fixSource_of_nextEdits_eq_nil {path : Path}
    (h : linter.nextEdits path.dialect source = .ok []) :
    linter.fixSource path source = .ok ⟨source, 0, 0⟩ := by
  rw [fixSource, maxPasses, Linter.fixPasses, h]

/-- **Fixing stops only at a fixed point or at the limit of passes.** If it goes through, it has
taken 10 passes at most, each of which applied an edit, and without a pass the text is the source.
With passes to spare, linting the output reports no edit that would change it, and fixing it again
does nothing. -/
theorem fixSource_stops {path : Path} {outcome : FixOutcome}
    (h : linter.fixSource path source = .ok outcome) :
    outcome.passes ≤ 10 ∧ outcome.passes ≤ outcome.applied
      ∧ (outcome.passes = 0 → outcome.output = source)
      ∧ (outcome.passes < 10 →
        (∃ report, linter.lintSource path outcome.output = .ok report
          ∧ ∀ diagnostic ∈ report.diagnostics, ∀ edit ∈ diagnostic.fix,
            edit.isNoop outcome.output = true)
        ∧ linter.fixSource path outcome.output = .ok ⟨outcome.output, 0, 0⟩) := by
  have hsettles : linter.Settles path.dialect maxPasses ⟨source, 0, 0⟩ outcome :=
    fixPasses_settles h
  refine ⟨by simpa [maxPasses] using hsettles.passes_le, by simpa using hsettles.applied_ge,
    hsettles.output_eq, fun hlt => ?_⟩
  have hnext := hsettles.done (by simpa [maxPasses] using hlt)
  exact ⟨lintSource_of_nextEdits_eq_nil hnext, fixSource_of_nextEdits_eq_nil hnext⟩

/-- Two unsorted lists, one inside the other, are a fixed point after two passes. -/
theorem fixSource_stops_nested : ∃ outcome,
    Nested.linter.fixSource "nested.ts" (Nested.source false false) = .ok outcome
      ∧ outcome.passes = 2
      ∧ Nested.linter.fixSource "nested.ts" outcome.output = .ok ⟨outcome.output, 0, 0⟩ :=
  ⟨_, Nested.fixSource_source, rfl, ((fixSource_stops Nested.fixSource_source).2.2.2 (by decide)).2⟩

end Linter

end KeyOrder
