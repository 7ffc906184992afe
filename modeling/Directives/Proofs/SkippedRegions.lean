import Directives.Proofs.Cancellation
import Directives.Proofs.ReportOrder
import Directives.Proofs.Visits
import Directives.Proofs.WorksharingNesting
/-!
Regions that are not analysed. A region that is put off, or that stands where it may not, leaves its
record and at most the report on its placement; the walk goes past it, and past all that is inside it,
as if it were not there. No other region has a report on its placement.
-/

namespace Directives

/-! ## Reports on placements -/

/-- The kind of diagnostic is one of those on the placement of a region. -/
def DiagnosticKind.isNesting (k : DiagnosticKind) : Bool :=
  k.family = .illegalNesting || k.family = .duplicateNamedRegion

/-- The kind of diagnostic that goes with a failure: a duplicate name has its own, and the other failures
are kinds of illegal nesting. -/
inductive PlacementFailure.ReportedAs : PlacementFailure → DiagnosticKind → Prop where
  | orphaned : ReportedAs .orphaned (.illegalNesting .orphaned)
  | incompatibleParent : ReportedAs .incompatibleParent (.illegalNesting .incompatibleParent)
  | duplicateName : ReportedAs .duplicateName .duplicateNamedRegion

theorem PlacementFailure.reportedAs_diagnosticKind (failure : PlacementFailure) :
    failure.ReportedAs failure.diagnosticKind := by
  cases failure <;> constructor

theorem PlacementFailure.ReportedAs.isNesting {failure : PlacementFailure} {k : DiagnosticKind}
    (h : failure.ReportedAs k) : k.isNesting = true := by
  cases h <;> rfl

/-- The diagnostic is the one on the placement of the region of a record: it is at the place of the
region, and of the kind that goes with the verdict. -/
def Diagnostic.ReportsPlacement (d : Diagnostic) (x : RegionReport) : Prop :=
  d.location = x.location ∧ ∃ failure hint rule conflicting,
    x.verdict = .illegal failure hint rule conflicting ∧ failure.ReportedAs d.kind

theorem Diagnostic.ReportsPlacement.isNesting {d : Diagnostic} {x : RegionReport}
    (h : d.ReportsPlacement x) : d.kind.isNesting = true := by
  obtain ⟨-, failure, _, _, _, -, kind⟩ := h
  exact kind.isNesting

theorem Placement.reportsPlacement {p : Placement} {d : Diagnostic} {x : RegionReport}
    (h : p.diagnostic? x.location x.verdict = some d) : d.ReportsPlacement x := by
  cases verdict : x.verdict with
  | legal =>
    rw [verdict] at h
    cases h
  | illegal failure hint rule conflicting =>
    rw [verdict] at h
    cases h
    exact ⟨rfl, failure, hint, rule, conflicting, verdict, failure.reportedAs_diagnosticKind⟩

theorem Diagnostic.OnClause.not_nesting {d : Diagnostic} (h : d.OnClause) :
    d.kind.isNesting = false := by
  obtain ⟨reason, kind, -⟩ := h
  rw [kind]
  rfl

theorem Diagnostic.OnLoop.not_nesting {d : Diagnostic} (h : d.OnLoop) : d.kind.isNesting = false := by
  obtain ⟨failure, level, rfl⟩ := h
  cases failure <;> rfl

theorem Frame.not_nesting_of_refusedCounter? {f : Frame} {fixed : Sharing} {var : DeclId}
    {d : Diagnostic} (h : f.refusedCounter? fixed var = some d) : d.kind.isNesting = false := by
  obtain ⟨e, -, refused⟩ := Option.bind_eq_some_iff.mp h
  split at refused
  · cases refused
    rfl
  · cases refused

theorem not_nesting_of_inferenceReport? {o : Options} {decls : DeclTable}
    {directive : DirectiveKind} {stack : FrameStack} {f : Frame} {occ : Occurrence} {d : Diagnostic}
    (h : inferenceReport? o decls directive stack f occ = some d) : d.kind.isNesting = false := by
  obtain ⟨_, -, due⟩ := Option.bind_eq_some_iff.mp h
  unfold Inference.report? at due
  split at due <;> cases due <;> rfl

/-- While a region is entered, nothing is reported on its placement. -/
theorem Walk.Entrance.not_nesting {o : Options} {r : Region} {w w₂ w₁ : Walk} {nest : Option LoopNest}
    {f f' : Frame} {outer : List Frame} (h : Entrance o r w w₂ w₁ nest f f' outer) :
    ∃ ds, w₁.scope.diagnostics = w.scope.diagnostics ++ ds ∧ ∀ d ∈ ds, d.kind.isNesting = false := by
  obtain ⟨clauses, loops, onClause, onLoop, reported⟩ := h.reports
  refine ⟨_, reported, fun d hd => ?_⟩
  simp only [List.mem_append] at hd
  obtain hd | hd | hd | hd := hd
  · exact (onClause d hd).not_nesting
  · exact (onLoop d hd).not_nesting
  · obtain ⟨_, -, refused⟩ := List.mem_filterMap.mp hd
    exact Frame.not_nesting_of_refusedCounter? refused
  · obtain ⟨_, -, due⟩ := List.mem_filterMap.mp hd
    exact not_nesting_of_inferenceReport? due

/-! ## What a visit comes to -/

/-- The walk goes past the region and all that is inside it: it comes away with the declarations, the
open frames and the private copies with which it arrived, and has reported `ds`. -/
structure Visit.GoesPast (o : Options) (v : Visit) (ds : List Diagnostic) : Prop where
  walked : v.before.tree o v.tree = .ok v.after
  decls : v.after.decls = v.before.decls
  stack : v.after.scope.stack = v.before.scope.stack
  diagnostics : v.after.scope.diagnostics = v.before.scope.diagnostics ++ ds

/-- What a visit comes to, where `x` is its record. -/
inductive Visit.ComesTo (o : Options) (v : Visit) (x : RegionReport) : Prop where
  | analyzed (status : x.status = .analyzed) (legal : x.verdict = .legal)
      (others : ∀ d ∈ v.emitted, d.kind.isNesting = false)
  | deferred (status : x.status = .deferred) (legal : x.verdict = .legal) (past : v.GoesPast o [])
  | misplaced (d : Diagnostic) (status : x.status = .invalidNesting) (reports : d.ReportsPlacement x)
      (past : v.GoesPast o [d])

namespace Walk

variable {o : Options} {r : Region} {sole : Bool} {w w₁ : Walk} {id : Nat}

/-- A region is passed by because it is put off, or because of its placement, which is reported. -/
theorem passed_cases (h : w.arrive o r sole = .passed w₁) :
    ∃ verdict status ds,
      w₁ = ({ w with scope := { w.scope with diagnostics := w.scope.diagnostics ++ ds } } : Walk).add
        (w.blank r verdict status) ∧
      ((verdict = .legal ∧ status = .deferred ∧ ds = []) ∨
        ∃ p : Placement, ∃ d, p.diagnostic? r.location verdict = some d ∧
          status = .invalidNesting ∧ ds = [d]) := by
  unfold arrive at h
  split at h
  · cases h
    refine ⟨.legal, .deferred, [], ?_, .inl ⟨rfl, rfl, rfl⟩⟩
    rw [List.append_nil]
  · dsimp only at h
    split at h
    · rename_i d reported
      cases h
      exact ⟨_, .invalidNesting, [d], rfl, .inr ⟨_, d, reported, rfl, rfl⟩⟩
    · split at h
      · cases h
      · exact absurd h analyzeCurrent_ne_passed

theorem tree_of_passed {t : RegionTree} (h : w.arrive o t.region t.sole = .passed w₁) :
    w.tree o t = .ok w₁ := by
  cases t with
  | node r sole inside =>
    change w.arrive o r sole = .passed w₁ at h
    rw [tree, h]

theorem Enters.verdict (h : Enters o r sole w id w₁) :
    ∃ x, w₁.regions = w.regions ++ [x] ∧ x.status = .analyzed ∧ x.verdict = .legal := by
  cases h with
  | intro hidden _ _ _ _ _ _ _ regions _ =>
    refine ⟨_, congrArg (· ++ [_]) regions, ?_⟩
    rw [RegionReport.recordAll_eq]
    exact ⟨rfl, rfl⟩

end Walk

theorem Visit.Between.comesTo {o : Options} {decls decls' : DeclTable} {v : Visit} {x : RegionReport}
    (h : v.Between o decls decls' x) : v.ComesTo o x := by
  obtain passed | ⟨id, entered⟩ := h.arrives
  · have walked := Walk.tree_of_passed passed
    obtain ⟨verdict, status, ds, after, cause⟩ := Walk.passed_cases passed
    have made := h.records
    rw [Visit.Records, after] at made
    -- The record differs from the one first made in nothing but the cancellation.
    have same := List.head_eq_of_cons_eq (List.append_cancel_left made)
    have isVerdict : verdict = x.verdict := congrArg RegionReport.verdict same
    have isStatus : status = x.status := congrArg RegionReport.status same
    have isLocation : v.region.location = x.location := congrArg RegionReport.location same
    have past : v.GoesPast o ds := {
      walked
      decls := by rw [after]; rfl
      stack := by rw [after]; rfl
      diagnostics := by rw [after]; rfl }
    obtain ⟨rfl, rfl, rfl⟩ | ⟨p, d, reported, rfl, rfl⟩ := cause
    · exact .deferred isStatus.symm isVerdict.symm past
    · rw [isLocation, isVerdict] at reported
      exact .misplaced d isStatus.symm (Placement.reportsPlacement reported) past
  · have arrives := Walk.arrives_arrive o v.region v.tree.sole h.hidden
    rw [entered] at arrives
    cases arrives with
    | entered enters =>
      obtain ⟨x', regions, status, legal⟩ := enters.verdict
      cases List.append_cancel_left (regions.symm.trans h.records)
      obtain ⟨_, _, _, _, _, entrance⟩ := Walk.exists_entrance h.hidden entered
      obtain ⟨ds, reported, others⟩ := entrance.not_nesting
      rw [← Visit.emitted_eq reported] at others
      exact .analyzed status legal others

namespace Visit.ComesTo

variable {o : Options} {v : Visit} {x : RegionReport}

theorem legal (h : v.ComesTo o x) (placed : x.status ≠ .invalidNesting) : x.verdict = .legal := by
  cases h with
  | analyzed _ legal => exact legal
  | deferred _ legal => exact legal
  | misplaced _ status => exact absurd status placed

theorem past_of_deferred (h : v.ComesTo o x) (deferred : x.status = .deferred) :
    v.GoesPast o [] := by
  cases h with
  | analyzed status | misplaced _ status =>
    rw [status] at deferred
    cases deferred
  | deferred _ _ past => exact past

theorem past_of_misplaced (h : v.ComesTo o x) (misplaced : x.status = .invalidNesting) :
    ∃ d, d.ReportsPlacement x ∧ v.GoesPast o [d] := by
  cases h with
  | analyzed status | deferred status =>
    rw [status] at misplaced
    cases misplaced
  | misplaced d _ reports past => exact ⟨d, reports, past⟩

/-- Of what is reported at a visit, the reports on placements are that of a misplaced region. -/
theorem filter_emitted (h : v.ComesTo o x) :
    List.Forall₂ Diagnostic.ReportsPlacement (v.emitted.filter (·.kind.isNesting))
      ([x].filter (·.status = .invalidNesting)) := by
  cases h with
  | analyzed status _ others =>
    have none : v.emitted.filter (·.kind.isNesting) = [] := by
      apply List.filter_eq_nil_iff.mpr
      intro d hd
      rw [others d hd]
      exact Bool.false_ne_true
    rw [none, List.filter_singleton, status]
    exact .nil
  | deferred status _ past =>
    rw [Visit.emitted_eq past.diagnostics, List.filter_singleton, status]
    exact .nil
  | misplaced d status reports past =>
    rw [Visit.emitted_eq past.diagnostics, List.filter_singleton, List.filter_singleton, status,
      reports.isNesting]
    exact .cons reports .nil

end Visit.ComesTo

theorem forall₂_filter_emitted {o : Options} {visits : List Visit} {xs : List RegionReport}
    (h : List.Forall₂ (Visit.ComesTo o) visits xs) :
    List.Forall₂ Diagnostic.ReportsPlacement
      ((visits.flatMap (·.emitted)).filter (·.kind.isNesting))
      (xs.filter (·.status = .invalidNesting)) := by
  induction h with
  | nil => exact .nil
  | @cons v x visits xs here _ ih =>
    have split : (x :: xs).filter (·.status = .invalidNesting) =
        [x].filter (·.status = .invalidNesting) ++ xs.filter (·.status = .invalidNesting) :=
      List.filter_append [x] xs
    rw [List.flatMap_cons, List.filter_append, split]
    exact List.rel_append here.filter_emitted ih

/-! ## Records without findings -/

/-- Nothing is noted on the region of the record. -/
structure RegionReport.IsBlank (x : RegionReport) : Prop where
  attributes : x.attributes = []
  unresolved : x.unresolved = []
  rejected : x.rejected = []
  implicit : x.implicit = {}
  nest : x.nest = none
  uncancelled : x.cancelPresent = false

namespace Walk

variable {o : Options} {r : Region} {sole : Bool} {w w₁ : Walk} {id : Nat}

/-- The regions that are open were analysed, and nothing is noted on those that were not. -/
structure NotesAnalyzed (w : Walk) : Prop where
  opened : ∀ id ∈ w.parents, ∃ x, w.regions[id]? = some x ∧ x.status = .analyzed
  skipped : ∀ x ∈ w.regions, x.status ≠ .analyzed → x.IsBlank

theorem notesAnalyzed_start (decls : DeclTable) : (start decls).NotesAnalyzed where
  opened _ h := absurd h List.not_mem_nil
  skipped _ h := absurd h List.not_mem_nil

theorem NotesAnalyzed.record (h : w.NotesAnalyzed) {x : RegionReport}
    (blank : x.status ≠ .analyzed → x.IsBlank) :
    (∀ id ∈ w.parents, ∃ y, (w.regions ++ [x])[id]? = some y ∧ y.status = .analyzed) ∧
      ∀ y ∈ w.regions ++ [x], y.status ≠ .analyzed → y.IsBlank := by
  constructor
  · intro id hid
    obtain ⟨y, is, analyzed⟩ := h.opened id hid
    obtain ⟨inside, -⟩ := List.getElem?_eq_some_iff.mp is
    exact ⟨y, (List.getElem?_append_left inside).trans is, analyzed⟩
  · exact List.forall_mem_append.mpr ⟨h.skipped, List.forall_mem_singleton.mpr blank⟩

theorem NotesAnalyzed.passed (h : w.NotesAnalyzed) (passes : Passes r w w₁) : w₁.NotesAnalyzed := by
  cases passes with
  | intro _ _ _ =>
    obtain ⟨opened, skipped⟩ := h.record (x := w.blank r _ _) fun _ => ⟨rfl, rfl, rfl, rfl, rfl, rfl⟩
    exact ⟨opened, skipped⟩

theorem NotesAnalyzed.entered (h : w.NotesAnalyzed) (enters : Enters o r sole w id w₁) :
    w₁.NotesAnalyzed := by
  obtain ⟨x, regions, -, analyzed⟩ := enters.record
  obtain ⟨_, current⟩ := enters.exists_current
  obtain ⟨opened, skipped⟩ := h.record (x := x) (absurd analyzed)
  have isLast : id = w.regions.length := by cases enters; rfl
  constructor
  · rw [current.parents, regions, List.forall_mem_cons]
    refine ⟨⟨x, ?_, analyzed⟩, opened⟩
    rw [isLast]
    exact List.getElem?_concat_length
  · rwa [regions]

/-- To leave a region notes a cancellation on a region that was analysed. -/
theorem NotesAnalyzed.left {around : List Nat} {f : Frame} {outer : List Frame}
    (h : w.NotesAnalyzed) (parents : w.parents = id :: around) :
    (w.left id f outer).NotesAnalyzed := by
  have regions : (w.left id f outer).regions = noteRecord w.regions id f.flags.cancelPresent := rfl
  obtain ⟨own, is, analyzed⟩ := h.opened id (parents ▸ List.mem_cons_self)
  constructor
  · rw [Walk.left, parents, List.tail_cons]
    intro k hk
    obtain ⟨x, is', status⟩ := h.opened k (parents ▸ List.mem_cons_of_mem id hk)
    by_cases same : id = k
    · subst same
      exact ⟨_, getElem?_noteRecord_self is' _, status⟩
    · exact ⟨x, (getElem?_noteRecord_of_ne same _).trans is', status⟩
  · rw [regions]
    intro x hx notAnalyzed
    obtain ⟨k, here⟩ := List.getElem?_of_mem hx
    by_cases same : id = k
    · subst same
      cases (getElem?_noteRecord_self is _).symm.trans here
      exact absurd analyzed notAnalyzed
    · rw [getElem?_noteRecord_of_ne same] at here
      exact h.skipped x (List.mem_of_getElem? here) notAnalyzed

theorem Runs.notesAnalyzed {ts : List RegionTree} (run : Runs o ts w w₁) (h : w.NotesAnalyzed) :
    w₁.NotesAnalyzed :=
  run.invariant .passed .entered (fun h parents _ => h.left parents) h

end Walk

/-! ## The regions around a record -/

variable {o : Options} {p : Program} {report : Report}

/-- Where the regions that are named as parents were analysed, so were all around a place. -/
theorem status_of_ancestors {l : List RegionReport} {inner? : Option Nat} {around : List Nat}
    (ancestors : Ancestors l inner? around)
    (parents : ∀ y ∈ l, ∀ id x, y.parent = some id → l[id]? = some x → x.status = .analyzed)
    (innermost : ∀ id x, inner? = some id → l[id]? = some x → x.status = .analyzed) :
    ∀ i x, l[i]? = some x → x.status ≠ .analyzed → i ∉ around := by
  induction ancestors with
  | none =>
    intro i x _ _
    exact List.not_mem_nil
  | some parent _ ih =>
    intro i x is skipped
    rw [List.mem_cons, not_or]
    constructor
    · rintro rfl
      exact skipped (innermost i x rfl is)
    · exact ih (parents _ (List.mem_of_getElem? parent)) i x is skipped

theorem parents_analyzed (ok : (analyze o p).1 = .ok report) :
    ∀ y ∈ report.regions, ∀ id x, y.parent = some id → report.regions[id]? = some x →
      x.status = .analyzed := by
  obtain ⟨rows, regions, order⟩ := exists_rows_of_analyze ok
  rw [regions]
  intro y hy id x parent is
  obtain ⟨row, hrow, rfl⟩ := List.mem_map.mp hy
  rw [List.getElem?_map, Option.map_eq_some_iff] at is
  obtain ⟨outer, is, rfl⟩ := is
  exact order.parents_analyzed (List.prefix_refl rows) nofun row hrow outer ⟨id, parent, is⟩

/-- No region stands inside one that was not analysed. -/
theorem exists_ancestors (ok : (analyze o p).1 = .ok report) :
    ∀ y ∈ report.regions, ∃ around, Ancestors report.regions y.parent around ∧
      ∀ i x, report.regions[i]? = some x → x.status ≠ .analyzed → i ∉ around := by
  have analyzed := parents_analyzed ok
  obtain ⟨rows, regions, order⟩ := exists_rows_of_analyze ok
  intro y hy
  have own := analyzed y hy
  rw [regions] at hy
  obtain ⟨row, hrow, rfl⟩ := List.mem_map.mp hy
  obtain ⟨k, is⟩ := List.getElem?_of_mem hrow
  obtain ⟨_, _, stands⟩ := order.exists_standsIn is
  obtain ⟨around, ancestors, -⟩ := stands.linkedIn.depth
  rw [← regions] at ancestors
  exact ⟨around, ancestors, status_of_ancestors ancestors analyzed own⟩

/-- What is reported on placements is reported on the regions that stand where they may not, once on
each of them, and in their order. The others have legal placements. On a region that is not analysed
nothing is noted, no region is recorded inside it, and the walk goes past it with at most the report on
its placement. -/
theorem skipped_regions_leave_no_trace (ok : (analyze o p).1 = .ok report) :
    List.Forall₂ Diagnostic.ReportsPlacement ((analyze o p).2.filter (·.kind.isNesting))
        (report.regions.filter (·.status = .invalidNesting)) ∧
      (∀ x ∈ report.regions, x.status ≠ .invalidNesting → x.verdict = .legal) ∧
      (∀ i x, report.regions[i]? = some x → x.status ≠ .analyzed → x.IsBlank ∧
        ∀ y ∈ report.regions, ∃ around, Ancestors report.regions y.parent around ∧ i ∉ around) ∧
      List.Forall₂ (fun v x => v.Records x ∧ (x.status = .deferred → v.GoesPast o []) ∧
          (x.status = .invalidNesting → ∃ d, d.ReportsPlacement x ∧ v.GoesPast o [d]))
        (p.visits o) report.regions := by
  have visits := forall₂_visits ok
  have come : List.Forall₂ (Visit.ComesTo o) (p.visits o) report.regions :=
    visits.imp fun _ _ between => between.comesTo
  refine ⟨?_, ?_, ?_, ?_⟩
  · rw [diagnostics_eq_emitted ok]
    exact forall₂_filter_emitted come
  · have legal : List.Forall₂
        (fun x v => (x.status ≠ .invalidNesting → x.verdict = .legal) ∧ v.ComesTo o x)
        report.regions (p.visits o) := .flip (come.imp fun _ _ comes => ⟨comes.legal, comes⟩)
    exact ((List.forall₂_and_left _ _).mp legal).1
  · intro i x is skipped
    constructor
    · obtain ⟨w, run, rfl⟩ := runs_of_analyze ok
      have notes := run.notesAnalyzed (Walk.notesAnalyzed_start p.decls)
      exact notes.skipped x (List.mem_of_getElem? is) skipped
    · intro y hy
      obtain ⟨around, ancestors, outside⟩ := exists_ancestors ok y hy
      exact ⟨around, ancestors, outside i x is skipped⟩
  · refine visits.imp fun v x between => ⟨between.records, fun status => ?_, fun status => ?_⟩
    · exact between.comesTo.past_of_deferred status
    · exact between.comesTo.past_of_misplaced status

/-- In `parallel`, a barrier stands in `critical`, a named `critical` in one of the same name, and `single`
is put off with the region inside it; a `section` stands alone after it. -/
theorem skipped_regions_leave_no_trace_mixed :
    let p := Draft.program do
      let x ← Draft.functionLocal "x" .int32
      let inner ← Draft.region .critical id
      let barrier ← Draft.region .barrier fun r => { r with body := some inner }
      let critical ← Draft.region .critical fun r => { r with body := some barrier }
      let deferred ← Draft.region .single fun r =>
        { r.withList .priv [x] with body := some inner, dependent := true }
      let again ← Draft.region .critical fun r => { r with name := some "a" }
      let named ← Draft.region .critical fun r => { r with name := some "a", body := some again }
      let block ← Draft.block [← Draft.useVars [x], critical, deferred, named]
      return [← Draft.region .parallel fun r => { r with body := some block },
        ← Draft.region .sectionBlock id]
    ∃ report, (analyze {} p).1 = .ok report ∧
      report.regions.map (fun x => (x.kind, x.status)) =
        [(.parallel, .analyzed), (.critical, .analyzed), (.barrier, .invalidNesting),
          (.single, .deferred), (.critical, .analyzed), (.critical, .invalidNesting),
          (.sectionBlock, .invalidNesting)] ∧
      (analyze {} p).2.map (·.kind) = [.illegalNesting .incompatibleParent, .duplicateNamedRegion,
        .illegalNesting .orphaned] ∧
      List.Forall₂ Diagnostic.ReportsPlacement ((analyze {} p).2.filter (·.kind.isNesting))
        (report.regions.filter (·.status = .invalidNesting)) ∧
      (∀ x ∈ report.regions, x.status ≠ .invalidNesting → x.verdict = .legal) ∧
      (∀ i x, report.regions[i]? = some x → x.status ≠ .analyzed → x.IsBlank ∧
        ∀ y ∈ report.regions, ∃ around, Ancestors report.regions y.parent around ∧ i ∉ around) ∧
      List.Forall₂ (fun v x => v.Records x ∧ (x.status = .deferred → v.GoesPast {} []) ∧
          (x.status = .invalidNesting → ∃ d, d.ReportsPlacement x ∧ v.GoesPast {} [d]))
        (p.visits {}) report.regions := by
  intro p
  obtain ⟨report, ok, statuses⟩ :
      ∃ report, (analyze {} p).1 = .ok report ∧
        report.regions.map (fun x => (x.kind, x.status)) =
          [(.parallel, .analyzed), (.critical, .analyzed), (.barrier, .invalidNesting),
            (.single, .deferred), (.critical, .analyzed), (.critical, .invalidNesting),
            (.sectionBlock, .invalidNesting)] :=
    exists_report_of_decide _ (by decide +kernel)
  exact ⟨report, ok, statuses, by decide +kernel, skipped_regions_leave_no_trace ok⟩

end Directives
