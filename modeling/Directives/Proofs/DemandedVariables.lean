import Directives.Proofs.ReachingReferences
import Directives.Proofs.Visits
/-!
Which variables `default(none)` demands. A region asks for the attribute of a variable exactly where a
reference to it reaches the region and nothing in the region itself settles what it is. References in
nested regions reach it unless a nested region lists the variable in a `private` clause: that a nested
region gives its own copy to a loop counter does not keep the region around it from asking.
-/

namespace Directives

/-- The diagnostic says that the variable is left without attribute. -/
def Diagnostic.LeavesUnresolved (d : Diagnostic) (c : DeclId) : Prop :=
  d.kind.family = .unresolvedUnderNoDefault ∧ d.var? = some c

instance (d : Diagnostic) (c : DeclId) : Decidable (d.LeavesUnresolved c) :=
  inferInstanceAs (Decidable (_ ∧ _))

theorem Diagnostic.OnClause.not_leavesUnresolved {d : Diagnostic} (h : d.OnClause) (c : DeclId) :
    ¬ d.LeavesUnresolved c := by
  obtain ⟨reason, kind, -⟩ := h
  rintro ⟨family, -⟩
  rw [kind] at family
  cases family

theorem Diagnostic.OnLoop.not_leavesUnresolved {d : Diagnostic} (h : d.OnLoop) (c : DeclId) :
    ¬ d.LeavesUnresolved c := by
  obtain ⟨failure, level, rfl⟩ := h
  rintro ⟨family, -⟩
  cases failure <;> cases family

theorem Frame.not_leavesUnresolved_of_refusedCounter? {f : Frame} {fixed : Sharing} {var : DeclId}
    {d : Diagnostic} (h : f.refusedCounter? fixed var = some d) (c : DeclId) :
    ¬ d.LeavesUnresolved c := by
  obtain ⟨e, -, h⟩ := Option.bind_eq_some_iff.mp h
  rintro ⟨family, -⟩
  split at h <;> cases h
  cases family

section
variable {o : Options} {decls : DeclTable} {stack : FrameStack} {f : Frame} {directive : DirectiveKind}
  {occ : Occurrence} {c : DeclId}

/-- The report on a reference leaves its variable unresolved when that is what is inferred. -/
theorem inferenceReport?_leavesUnresolved :
    (∃ e, inferenceReport? o decls directive stack f occ = some e ∧ e.LeavesUnresolved c) ↔
      occ.1 = c ∧ ∃ d, decls.get? c = some d ∧
        ∃ context, infer o decls stack f directive c d = .unresolved context := by
  constructor
  · rintro ⟨e, report, family, var⟩
    obtain ⟨d, hd, report⟩ := Option.bind_eq_some_iff.mp report
    unfold Inference.report? at report
    split at report
    · cases report
    · cases report
    · rename_i context inferred
      cases report
      have same : occ.1 = c := Option.some.inj var
      exact ⟨same, d, same ▸ hd, context, same ▸ inferred⟩
    · cases report
      cases family
  · rintro ⟨rfl, d, hd, context, inferred⟩
    refine ⟨
      { location := occ.2
        kind := .unresolvedUnderNoDefault context
        args := [.var occ.1, .directive f.kind] }, ?_, rfl, rfl⟩
    rw [inferenceReport?, hd, Option.bind_some, inferred]
    rfl

end

section
variable {o : Options} {v : Visit} {w₂ : Walk} {nest : Option LoopNest} {f f' : Frame}
  {outer : List Frame} {c : DeclId} {d : VarDecl} {r : Region}

/-- A variable is left unresolved where the region refers to it and that is what is inferred for it in
the frame in which the clauses and loops are registered. -/
theorem Walk.Entrance.leavesUnresolved_iff
    (entrance : Entrance o v.region v.before w₂ v.after nest f f' outer) :
    (∃ e ∈ v.emitted, e.LeavesUnresolved c) ↔
      (∃ occ ∈ v.region.references w₂.decls, occ.1 = c) ∧ ∃ d, w₂.decls.get? c = some d ∧
        ∃ context, infer o w₂.decls w₂.scope.stack f v.region.kind c d = .unresolved context := by
  obtain ⟨clauses, loops, onClause, onLoop, reported⟩ := entrance.reports
  have emitted := Visit.emitted_eq reported
  constructor
  · rintro ⟨e, he, unresolved⟩
    simp only [emitted, List.mem_append] at he
    obtain he | he | he | he := he
    · exact absurd unresolved ((onClause e he).not_leavesUnresolved c)
    · exact absurd unresolved ((onLoop e he).not_leavesUnresolved c)
    · obtain ⟨var, -, refused⟩ := List.mem_filterMap.mp he
      exact absurd unresolved (Frame.not_leavesUnresolved_of_refusedCounter? refused c)
    · obtain ⟨occ, hocc, due⟩ := List.mem_filterMap.mp he
      obtain ⟨same, inferred⟩ := inferenceReport?_leavesUnresolved.mp ⟨e, due, unresolved⟩
      exact ⟨⟨occ, hocc, same⟩, inferred⟩
  · rintro ⟨⟨occ, hocc, same⟩, inferred⟩
    obtain ⟨e, due, unresolved⟩ := inferenceReport?_leavesUnresolved.mpr ⟨same, inferred⟩
    refine ⟨e, ?_, unresolved⟩
    simp only [emitted, List.mem_append]
    exact .inr (.inr (.inr (List.mem_filterMap.mpr ⟨occ, hocc, due⟩)))

/-- When the clauses and loops are registered, the nature of a variable leaves open what it is exactly
where it is no counter of these loops, not declared inside, and not shared for being read-only. -/
theorem Walk.Entrance.leavesOpen_iff {w w₁ : Walk} (entrance : Entrance o r w w₂ w₁ nest f f' outer) :
    f.LeavesOpen o c d ↔ c ∉ ownCounters w₂.decls nest ∧ c ∉ r.locals w.decls ∧
      (o.sharesConst && d.ty.isReadOnly) = false := by
  constructor
  · rintro ⟨counter, isLocal, notConst⟩
    have noCounter : c ∉ ownCounters w₂.decls nest := by
      intro counts
      rw [entrance.counter?, if_pos counts] at counter
      cases counter
    refine ⟨noCounter, ?_, notConst⟩
    rw [entrance.isLocal] at isLocal
    simpa [noCounter] using isLocal
  · rintro ⟨noCounter, notLocal, notConst⟩
    refine ⟨?_, ?_, notConst⟩
    · rw [entrance.counter?, if_neg noCounter]
    · rw [entrance.isLocal]
      simp [notLocal]

end

/-! ## What the region itself settles -/

/-- The region itself settles what the variable `c` with declaration `d` is in it. -/
inductive Region.Settles (o : Options) (decls : DeclTable) (r : Region) (nest : Option LoopNest)
    (c : DeclId) (d : VarDecl) : Prop where
  | threadprivate (is : d.threadprivate)
  | const (legacy : o.sharesConst) (is : d.ty.isReadOnly)
  | declared (inside : c ∈ r.locals decls)
  | counter (is : c ∈ ownCounters decls nest)
  | listed (lists : r.Lists decls.canonical c)

section
variable {o : Options} {decls decls' : DeclTable} {r : Region} {w w₁ w₂ : Walk}
  {nest : Option LoopNest} {f f' : Frame} {outer : List Frame} {c : DeclId} {d : VarDecl}

theorem mem_locals_congr (since : decls.ExtendsTo decls') (hd : decls.get? c = some d) :
    c ∈ r.locals decls' ↔ c ∈ r.locals decls := by
  simp only [Region.locals, List.mem_filter, since.canonical, since.get?_eq_some hd, hd]

theorem ownCounters_congr (canonical : decls'.canonical = decls.canonical) (nest : Option LoopNest) :
    ownCounters decls' nest = ownCounters decls nest := by
  rw [ownCounters, ownCounters, canonical]

/-- The frame of a region leaves open what the region does not settle. -/
theorem Walk.Entrance.not_settles_iff (entrance : Entrance o r w w₂ w₁ nest f f' outer)
    (since : decls.ExtendsTo w.decls) (hd : decls.get? c = some d) :
    (d.threadprivate = false ∧ ¬ f.Knows c ∧ f.LeavesOpen o c d) ↔
      ¬ r.Settles o decls nest c d := by
  have hd' : w.decls.get? c = some d := since.get?_eq_some hd
  have canonical₂ : w₂.decls.canonical = decls.canonical :=
    (since.trans entrance.extendsTo).canonical
  rw [entrance.leavesOpen_iff, mem_locals_congr since hd, ownCounters_congr canonical₂]
  constructor
  · rintro ⟨notThreadprivate, unknown, noCounter, notLocal, notConst⟩ settles
    cases settles with
    | threadprivate is =>
      rw [notThreadprivate] at is
      cases is
    | const legacy is =>
      rw [legacy, is] at notConst
      cases notConst
    | declared inside => exact notLocal inside
    | counter is => exact noCounter is
    | listed lists =>
      rw [entrance.knows c d hd' notThreadprivate, since.canonical] at unknown
      exact unknown lists
  · intro opens
    have notThreadprivate : d.threadprivate = false :=
      Bool.eq_false_iff.mpr fun is => opens (.threadprivate is)
    refine ⟨notThreadprivate, ?_, fun is => opens (.counter is), fun is => opens (.declared is), ?_⟩
    · rw [entrance.knows c d hd' notThreadprivate, since.canonical]
      exact fun lists => opens (.listed lists)
    · refine Bool.eq_false_iff.mpr fun is => ?_
      rw [Bool.and_eq_true] at is
      exact opens (.const is.1 is.2)

end

/-- The references to `c` that reach a region past nested regions with `c` in a `private` clause. -/
def Region.IsReached (canon : DeclId → DeclId) (r : Region) (c : DeclId) : Prop :=
  ∃ body, r.body = some body ∧ Reaches canon (Region.ListsPrivate canon c) c (.stmt body)

theorem Region.isReached_iff {decls : DeclTable} {r : Region} {c : DeclId} :
    r.IsReached decls.canonical c ↔ ∃ occ ∈ r.references decls, occ.1 = c := by
  unfold IsReached references
  cases r.body with
  | none => simp
  | some body =>
    simp only [Option.map_some, Option.getD_some, Option.some.injEq, exists_eq_left',
      exists_mem_referencedVariables]

/-- Under `default(none)`, a region asks for the attribute of a variable exactly where a reference to
it reaches the region and the region itself does not settle what it is. -/
theorem unresolved_under_none_iff {o : Options} {p : Program} {report : Report}
    (ok : (analyze o p).1 = .ok report) :
    List.Forall₂ (fun v x => v.Records x ∧
        (x.status = .analyzed → v.region.defaultMode = .none →
          ∀ c d, p.decls.get? c = some d → p.decls.canonical c = c →
            ((∃ e ∈ v.emitted, e.LeavesUnresolved c) ↔
              v.region.IsReached p.decls.canonical c ∧ ¬ v.region.Settles o p.decls x.nest c d)))
      (p.visits o) report.regions := by
  refine (forall₂_visits ok).imp fun v x between => ⟨between.records, ?_⟩
  intro analyzed none c d hd canonical
  obtain ⟨w₂, f, f', outer, entrance, -, -⟩ := between.exists_entrance analyzed
  have extended : p.decls.ExtendsTo w₂.decls := between.since.trans entrance.extendsTo
  have hd₂ : w₂.decls.get? c = some d := extended.get?_eq_some hd
  have canonical₂ : w₂.decls.canonical c = c := by rw [extended.canonical, canonical]
  have inferred : (∃ context,
        infer o w₂.decls w₂.scope.stack f v.region.kind c d = .unresolved context) ↔
      d.threadprivate = false ∧ ¬ f.Knows c ∧ f.LeavesOpen o c d :=
    infer_under_none entrance.registered canonical₂ hd₂ (entrance.defaultMode.trans none)
  rw [entrance.leavesUnresolved_iff, ← Region.isReached_iff, extended.canonical,
    ← entrance.not_settles_iff between.since hd, ← inferred]
  refine and_congr_right fun _ => ⟨?_, fun h => ⟨d, hd₂, h⟩⟩
  rintro ⟨d', hd', h⟩
  cases hd₂.symm.trans hd'
  exact h

/-- Of three variables, one is listed as shared by the parallel region, and one as private by the task in
it; the parallel region asks for the third. -/
theorem unresolved_under_none_iff_task :
    let p := Draft.program do
      let a ← Draft.functionLocal "a" .int32
      let b ← Draft.functionLocal "b" .int32
      let c ← Draft.functionLocal "c" .int32
      let uses ← Draft.useVars [a, b, c]
      let task ← Draft.region .task fun r => { r.withList .priv [b] with body := some uses }
      return [← Draft.region .parallel fun r =>
        { (r.withMark (.default .none)).withList .shared [a] with body := some task }]
    ∃ report, (analyze {} p).1 = .ok report ∧
      report.regions.map (·.status) = [.analyzed, .analyzed] ∧
      ((p.visits {}).map fun v =>
        [⟨0⟩, ⟨1⟩, ⟨2⟩].filter fun c => ∃ e ∈ v.emitted, e.LeavesUnresolved c) = [[⟨2⟩], []] ∧
      List.Forall₂ (fun v x => v.Records x ∧
          (x.status = .analyzed → v.region.defaultMode = .none →
            ∀ c d, p.decls.get? c = some d → p.decls.canonical c = c →
              ((∃ e ∈ v.emitted, e.LeavesUnresolved c) ↔
                v.region.IsReached p.decls.canonical c ∧
                  ¬ v.region.Settles {} p.decls x.nest c d)))
        (p.visits {}) report.regions := by
  intro p
  obtain ⟨report, ok, analyzed⟩ : ∃ report, (analyze {} p).1 = .ok report ∧
      report.regions.map (·.status) = [.analyzed, .analyzed] :=
    exists_report_of_decide _ (by decide +kernel)
  exact ⟨report, ok, analyzed, by decide +kernel, unresolved_under_none_iff ok⟩

/-- A loop in a parallel region under `default(none)`. Every reference to the counter `i` stands inside
the nested region, which has its own copy of the counter and no clauses; the parallel region asks for
`i` all the same. -/
theorem demands_counter_of_nested_loop :
    let p := Draft.program do
      let i ← Draft.functionLocal "i" .int32
      let loop ← Draft.countedLoop i (← Draft.int 0) (← Draft.int 8) (← Draft.useVars [i])
      let loops ← Draft.region .forLoop fun r => { r with body := some loop }
      return [← Draft.region .parallel fun r =>
        { r.withMark (.default .none) with body := some loops }]
    ∃ report, (analyze {} p).1 = .ok report ∧
      ∃ v u x y, p.visits {} = [v, u] ∧ report.regions = [x, y] ∧ p.regions = [v.region, u.region] ∧
        (x.status = .analyzed ∧ v.region.defaultMode = .none ∧
          (p.decls.get? ⟨0⟩).any (·.isAutomatic) ∧ ⟨0⟩ ∉ v.region.locals p.decls) ∧
        (y.status = .analyzed ∧ ⟨0⟩ ∈ ownCounters p.decls y.nest ∧ u.region.clauses = []) ∧
        (∀ holds : Region → Prop, holds u.region → ∀ body, v.region.body = some body →
          ¬ Reaches p.decls.canonical holds ⟨0⟩ (.stmt body)) ∧
        ∃ e ∈ v.emitted, e.LeavesUnresolved ⟨0⟩ := by
  intro p
  obtain ⟨around, loops, regions, none, undeclared, body, unlisted⟩ :
      ∃ around loops, p.regions = [around, loops] ∧ around.defaultMode = .none ∧
        ⟨0⟩ ∉ around.locals p.decls ∧ around.body = some (.region loops.location loops) ∧
        loops.clauses = [] := ⟨_, _, rfl, rfl, by decide, rfl, rfl⟩
  obtain ⟨report, ok, records⟩ := exists_report_of_decide (o := {}) (p := p)
    (fun report => report.regions.map (fun x => (x.status, ownCounters p.decls x.nest)) =
      [(.analyzed, []), (.analyzed, [⟨0⟩])]) (by decide +kernel)
  have asks : (p.visits {}).map (fun v => decide (∃ e ∈ v.emitted, e.LeavesUnresolved ⟨0⟩)) =
      [true, false] := by decide +kernel
  obtain ⟨x, y, recorded⟩ := List.length_eq_two.mp (by simpa using congrArg List.length records)
  obtain ⟨v, u, visited⟩ := List.length_eq_two.mp (by simpa using congrArg List.length asks)
  have visits := p.map_region_visits (o := {}) (by rw [visited, regions]; rfl)
  rw [visited, regions] at visits
  obtain ⟨rfl, rfl⟩ : v.region = around ∧ u.region = loops := by simpa using visits
  rw [recorded] at records
  obtain ⟨⟨analyzed, -⟩, analyzed', counts⟩ : (x.status = .analyzed ∧ ownCounters p.decls x.nest = []) ∧
      y.status = .analyzed ∧ ownCounters p.decls y.nest = [⟨0⟩] := by simpa using records
  rw [visited] at asks
  refine ⟨report, ok, v, u, x, y, visited, recorded, regions, ⟨analyzed, none, by decide, undeclared⟩,
    ⟨analyzed', counts ▸ List.mem_singleton_self _, unlisted⟩, fun holds held s is reaches => ?_, ?_⟩
  · -- The body is the nested region: nothing reaches past its clauses, and it has none.
    cases body.symm.trans is
    obtain ⟨k, clause, -⟩ | ⟨open', -⟩ := (reaches_region_iff rfl).mp reaches
    · rw [unlisted] at clause
      cases clause
    · exact open' held
  · exact of_decide_eq_true (List.head_eq_of_cons_eq asks)

end Directives
