import Directives.Proofs.Completion
import Directives.Proofs.ReferencedVariables
/-!
The implicit clauses of a region and the attributes of its variables are found one after the other:
inference fills the lists of the clauses, and resolution is asked for the attributes later. They
agree in every region that is analysed.
-/

namespace Directives

theorem mem_distinct {seen l : List DeclId} {v : DeclId} :
    v ∈ regionVariables.distinct seen l ↔ v ∈ l ∧ v ∉ seen := by
  induction l generalizing seen with
  | nil => simp [regionVariables.distinct]
  | cons a rest ih =>
    rw [regionVariables.distinct]
    by_cases same : v = a
    · subst same
      split
      · simp_all
      · simp_all
    · split <;> simp_all

section
variable {decls : DeclTable} {r : Region} {nest : Option LoopNest} {v : DeclId}

theorem canonical_of_mem_regionVariables (h : v ∈ regionVariables decls r nest) :
    decls.canonical v = v := by
  obtain ⟨d, -, rfl⟩ := List.mem_map.mp (mem_distinct.mp h).1
  exact decls.canonical_canonical d

/-- What the body of a region refers to is among the variables that the region is asked about. -/
theorem mem_regionVariables_of_referenced {body : Stmt} {occ : Occurrence} (hbody : r.body = some body)
    (h : occ ∈ referencedVariables decls body) : occ.1 ∈ regionVariables decls r nest := by
  refine mem_distinct.mpr ⟨List.mem_map.mpr ⟨occ.1, ?_, canonical_of_mem_referencedVariables h⟩,
    List.not_mem_nil⟩
  rw [hbody]
  exact List.mem_append_right _ (List.mem_map_of_mem h)

end

namespace RegionReport

/-- The variables of an implicit clause are those to which the region itself gives the attribute of
the clause implicitly, and no variable is listed twice. -/
structure ImplicitAgrees (x : RegionReport) : Prop where
  mem_iff : ∀ (l : ImplicitList) v, v ∈ l.vars x.implicit ↔
    ∃ a ∈ x.attributes, a.var = v ∧ l.Gives a.attr.kind a.attr.modifier ∧
      a.attr.origin = .implicit ∧ a.attr.frame = some x.depth
  nodup : x.implicit.listed.Nodup

theorem mem_filterMap_attr {vars : List DeclId} {resolution : DeclId → Resolution}
    {a : VariableAttribute} :
    (a ∈ vars.filterMap fun v => (resolution v).attr?.map fun a => ⟨v, a⟩) ↔
      a.var ∈ vars ∧ resolution a.var = .resolved a.attr := by
  rw [List.mem_filterMap]
  constructor
  · rintro ⟨v, hv, ha⟩
    cases hr : resolution v with
    | resolved attr =>
      rw [hr] at ha
      cases ha
      exact ⟨hv, hr⟩
    | unresolved | rejected =>
      rw [hr] at ha
      cases ha
  · rintro ⟨hv, hr⟩
    exact ⟨a.var, hv, by rw [hr]; rfl⟩

theorem mem_attributes_recordAll {x : RegionReport} {vars : List DeclId}
    {resolution : DeclId → Resolution} (fresh : x.attributes = []) {a : VariableAttribute} :
    a ∈ (x.recordAll vars resolution).attributes ↔
      a.var ∈ vars ∧ resolution a.var = .resolved a.attr := by
  rw [recordAll_eq, fresh, List.nil_append, mem_filterMap_attr]

end RegionReport

section
variable {o : Options} {decls : DeclTable} {vars : List DeclId} {f : Frame} {outer : List Frame}
  {c : ImplicitClauses}

/-- Where the clauses list the implicit entries of a frame, they agree with what resolution says
while that frame is the innermost one. -/
theorem RecordsImplicit.agrees (outer : List Frame) (records : RecordsImplicit o decls vars f c)
    (canonical : ∀ v ∈ vars, decls.canonical v = v) {x : RegionReport} (fresh : x.attributes = [])
    (depth : x.depth = outer.length) (nest : Option LoopNest) :
    RegionReport.ImplicitAgrees
      { x.recordAll vars (resolve o decls (f :: outer)) with implicit := c, nest } where
  nodup := records.nodup
  mem_iff l v := by
    have sameDepth : (x.recordAll vars (resolve o decls (f :: outer))).depth = outer.length := by
      rw [RegionReport.recordAll_eq, depth]
    dsimp only
    rw [records.mem_iff, sameDepth]
    constructor
    · rintro ⟨e, he, implicit, gives⟩
      obtain ⟨hv, d, hd, notThreadprivate, leavesOpen⟩ := records.leavesOpen v e he implicit
      have hr : resolve o decls (f :: outer) v = .resolved (e.toAttribute outer.length) := by
        rw [resolve_of_canonical (canonical v hv) hd notThreadprivate, resolveDeclared,
          Frame.answer_of_entry leavesOpen he]
      refine ⟨⟨v, e.toAttribute outer.length⟩,
        (RegionReport.mem_attributes_recordAll fresh).mpr ⟨hv, hr⟩, rfl, gives, ?_, rfl⟩
      rw [Entry.toAttribute, if_pos implicit]
    · rintro ⟨a, ha, rfl, gives, implicit, here⟩
      obtain ⟨hv, hr⟩ := (RegionReport.mem_attributes_recordAll fresh).mp ha
      cases hd : decls.get? a.var with
      | none =>
        simp only [resolve, canonical _ hv, hd] at hr
        cases hr
      | some d =>
        cases hthread : d.threadprivate with
        | true =>
          simp only [resolve, canonical _ hv, hd, hthread, ↓reduceIte] at hr
          rw [← Resolution.resolved.inj hr] at implicit
          cases implicit
        | false =>
          rw [resolve_of_canonical (canonical _ hv) hd hthread] at hr
          obtain ⟨e, he, himplicit, hattr⟩ := entry_of_resolveDeclared_implicit hr implicit here
          rw [hattr] at gives
          exact ⟨e, he, himplicit, gives⟩

/-- Inference records in the frame of a region, whose entries all stem from its clauses, what it
adds to the implicit clauses. -/
theorem recordsImplicit_inferClauses {s : Scope} (o : Options) (decls : DeclTable) (r : Region)
    (nest : Option LoopNest) (inside : s.stack.Inside f outer) (explicit : f.AllExplicit) :
    ∃ f', (inferClauses o decls r s).1.stack.Inside f' outer ∧
      RecordsImplicit o decls (regionVariables decls r nest) f' (inferClauses o decls r s).2 := by
  unfold inferClauses
  split
  · exact ⟨f, inside, .of_allExplicit explicit⟩
  · rename_i body hbody
    exact (RecordsImplicit.of_allExplicit explicit).foldl inside fun occ hocc =>
      ⟨mem_regionVariables_of_referenced hbody hocc, canonical_of_mem_referencedVariables hocc⟩

end

/-- The record of a region that is entered agrees with itself. -/
theorem Walk.Enters.implicitAgrees {o : Options} {r : Region} {sole : Bool} {w w₁ : Walk} {id : Nat}
    {x : RegionReport} (h : Enters o r sole w id w₁) (regions : w₁.regions = w.regions ++ [x]) :
    x.ImplicitAgrees := by
  cases h with
  | @intro nest f outer w₂ hidden _ frames inside _ _ explicit _ regions₂ _ =>
    obtain ⟨f', inside', records⟩ := recordsImplicit_inferClauses o w₂.decls r nest inside explicit
    have depth : (w.blank r .legal .analyzed).depth = outer.length := by
      rw [(Walk.records_blank hidden r _ _).depth, frames,
        (FrameStack.framesKept_noting hidden r).length_eq]
    have agrees := records.agrees outer (fun v => canonical_of_mem_regionVariables)
      (x := w.blank r .legal .analyzed) rfl depth nest
    rw [← inside'.visible] at agrees
    have made := List.append_cancel_left ((congrArg (· ++ [_]) regions₂.symm).trans regions)
    cases made
    exact agrees

/-- In every region that is analysed, the implicit clauses and the attributes agree. -/
theorem implicit_clauses_agree {o : Options} {p : Program} {report : Report}
    (ok : (analyze o p).1 = .ok report) :
    ∀ x ∈ report.regions, x.status = .analyzed → x.ImplicitAgrees := by
  obtain ⟨w, run, rfl⟩ := runs_of_analyze ok
  refine run.forall_regions (P := fun x => x.status = .analyzed → x.ImplicitAgrees) ?_ ?_ ?_ ?_
  · exact fun x present agrees status => { agrees status with }
  · intro r w w₁ x passes regions status
    obtain ⟨x', regions', -, skipped⟩ := passes.record
    cases List.append_cancel_left (regions.symm.trans regions')
    exact absurd status skipped
  · exact fun enters regions _ => enters.implicitAgrees regions
  · exact fun x hx => absurd hx List.not_mem_nil

/-- In `target`, a scalar and an array; in `task` inside it, the scalar and a static variable. -/
theorem implicit_clauses_agree_target :
    let p := Draft.program do
      let x ← Draft.functionLocal "x" .int32
      let a ← Draft.functionLocal "a" (Ty.int32.arrayOf (some 8))
      let s ← Draft.staticLocal "s" .int32
      let inTask ← Draft.useVars [x, s]
      let task ← Draft.region .task fun r => { r with body := some inTask }
      let block ← Draft.block [← Draft.useVars [x, a], task]
      return [← Draft.region .target fun r => { r with body := some block }]
    ∃ report, (analyze {} p).1 = .ok report ∧ ∃ x ∈ report.regions, x.status = .analyzed ∧
      x.implicit.firstprivate = [⟨0⟩, ⟨2⟩] ∧ x.implicit.mapped .tofrom = [⟨1⟩] ∧
        x.ImplicitAgrees := by
  intro p
  obtain ⟨report, ok, x, hx, status, firstprivate, mapped⟩ :
      ∃ report, (analyze {} p).1 = .ok report ∧ ∃ x ∈ report.regions, x.status = .analyzed ∧
        x.implicit.firstprivate = [⟨0⟩, ⟨2⟩] ∧ x.implicit.mapped .tofrom = [⟨1⟩] :=
    exists_report_of_decide _ (by decide +kernel)
  exact ⟨report, ok, x, hx, status, firstprivate, mapped, implicit_clauses_agree ok x hx status⟩

end Directives
