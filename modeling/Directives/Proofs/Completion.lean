import Directives.Proofs.SourceOrder
import Directives.Proofs.WalkRun
import Directives.Tree.Draft
/-!
Analyses that succeed. The report is that of a walk over the regions of the program which nothing stops,
and all that is reported besides is what the walk reports.
-/

namespace Directives

/-- The report of a walk that nothing stopped. -/
theorem analyze_of_runs {o : Options} {p : Program} {w : Walk} (valid : o.validate = .ok ())
    (run : (Walk.start p.decls).forest o p.forest = .ok w) :
    (analyze o p).1 = .ok { regions := w.regions, decls := w.decls } := by
  have back := (Walk.Runs.of_forest p.forest rfl run).backAt rfl
  have balanced : w.scope.stack.total = 0 := back.frames.length_eq
  rw [analyze, valid]
  dsimp only
  rw [run]
  dsimp only
  rw [Walk.finish, if_pos balanced]

/-- A report is that of a walk over the regions of the program, and what is reported besides is what
the walk reports. -/
theorem walk_of_analyze {o : Options} {p : Program} {report : Report}
    (ok : (analyze o p).1 = .ok report) :
    ∃ w, (Walk.start p.decls).forest o p.forest = .ok w ∧
      report = { regions := w.regions, decls := w.decls } ∧
      (analyze o p).2 = w.scope.diagnostics := by
  cases hvalid : o.validate with
  | error e =>
    rw [analyze, hvalid] at ok
    cases ok
  | ok =>
    cases hrun : (Walk.start p.decls).forest o p.forest with
    | error stopped =>
      rw [analyze, hvalid] at ok
      dsimp only at ok
      rw [hrun] at ok
      cases ok
    | ok w =>
      rw [analyze_of_runs hvalid hrun] at ok
      refine ⟨w, rfl, (Except.ok.inj ok).symm, ?_⟩
      rw [analyze, hvalid]
      dsimp only
      rw [hrun]

theorem runs_of_analyze {o : Options} {p : Program} {report : Report}
    (ok : (analyze o p).1 = .ok report) :
    ∃ w, Walk.Runs o p.forest (.start p.decls) w ∧
      report = { regions := w.regions, decls := w.decls } := by
  obtain ⟨w, run, made, -⟩ := walk_of_analyze ok
  exact ⟨w, .of_forest _ rfl run, made⟩

/-- A result has what evaluation shows of it. -/
theorem exists_ok_of_decide {ε α : Type} {x : Except ε α} (P : α → Prop) [DecidablePred P]
    (h : (x.toOption.any fun a => decide (P a)) = true) : ∃ a, x = .ok a ∧ P a := by
  cases x with
  | ok a => exact ⟨a, rfl, of_decide_eq_true h⟩
  | error e => cases h

/-- A report has what evaluation shows of it. -/
theorem exists_report_of_decide {o : Options} {p : Program} (P : Report → Prop) [DecidablePred P]
    (h : ((analyze o p).1.toOption.any fun report => decide (P report)) = true) :
    ∃ report, (analyze o p).1 = .ok report ∧ P report :=
  exists_ok_of_decide P h

end Directives
