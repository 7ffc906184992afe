import Directives.Proofs.InferenceReports
/-!
One report for one variable. Inference reports at most once on a variable, and never on one that is
threadprivate or that the frame of the region knows already. Under `default(none)` it reports on every
other variable that is unresolved, where it is first referred to. Frames that are hidden play no part
in this: what is done in the current frame is the same without them.
-/

namespace Directives

/-! ## Without the hidden frames -/

/-- The stack of the visible frames alone. -/
def FrameStack.exposed (s : FrameStack) : FrameStack := { s with frames := s.visible, hidden := 0 }

/-- The scope with the visible frames alone. -/
def Scope.exposed (s : Scope) : Scope := { s with stack := s.stack.exposed }

namespace FrameStack

variable {s : FrameStack}

@[simp] theorem visible_exposed : s.exposed.visible = s.visible := rfl

@[simp] theorem current?_exposed : s.exposed.current? = s.current? := rfl

@[simp] theorem depth_exposed : s.exposed.depth = s.depth := rfl

theorem visible_suppress : s.suppress.visible = s.visible.tail := List.tail_drop.symm

theorem exposed_modifyCurrent (change : Frame → Frame) :
    (s.modifyCurrent change).exposed = s.exposed.modifyCurrent change := by
  simp [exposed, modifyCurrent, visible, List.drop_modify_of_ge]

theorem inside_exposed {f : Frame} {outer : List Frame} (h : s.visible = f :: outer) :
    s.exposed.Inside f outer := ⟨h, rfl⟩

end FrameStack

section
variable {o : Options} {decls : DeclTable} {stack : FrameStack} {f : Frame} {directive : DirectiveKind}
  {var : DeclId} {d : VarDecl}

theorem Scope.copyFor_exposed (s : Scope) (kind : Sharing) :
    s.exposed.copyFor kind = ((s.copyFor kind).1, (s.copyFor kind).2.exposed) := by
  unfold copyFor
  split <;> rfl

theorem infer_exposed :
    infer o decls stack.exposed f directive var d = infer o decls stack f directive var d := by
  have enclosing : isEnclosingReductionItem stack.exposed var = isEnclosingReductionItem stack var := by
    simp [isEnclosingReductionItem, FrameStack.innermost?, FrameStack.visible_suppress]
  rw [infer, infer, FrameStack.visible_exposed, FrameStack.depth_exposed, enclosing]

theorem Scope.exposed_modifyCurrent (s : Scope) (change : Frame → Frame) :
    (s.modifyCurrent change).exposed = s.exposed.modifyCurrent change :=
  congrArg (Scope.mk · s.diagnostics) (FrameStack.exposed_modifyCurrent change)

theorem applyInference_exposed (s : Scope) (c : ImplicitClauses) (location : Location)
    (i : Inference) :
    applyInference directive f var location i (s.exposed, c) =
      ((applyInference directive f var location i (s, c)).1.exposed,
        (applyInference directive f var location i (s, c)).2) := by
  cases i with
  | nothing => rfl
  | unresolved | reductionInTask =>
    simp only [applyInference, Scope.exposed_modifyCurrent]
    rfl
  | attr kind modifier =>
    simp only [applyInference, Scope.copyFor_exposed, Scope.exposed_modifyCurrent]

theorem inferOccurrence_exposed (s : Scope) (c : ImplicitClauses) (occ : Occurrence) :
    inferOccurrence o decls directive (s.exposed, c) occ =
      ((inferOccurrence o decls directive (s, c) occ).1.exposed,
        (inferOccurrence o decls directive (s, c) occ).2) := by
  have current : s.exposed.stack.current? = s.stack.current? := rfl
  unfold inferOccurrence
  simp only [current]
  split
  · rw [← applyInference_exposed, Scope.exposed, infer_exposed]
  · rfl

/-- Hidden frames change nothing about what is inferred for a region. -/
theorem inferClauses_exposed (s : Scope) (r : Region) :
    inferClauses o decls r s.exposed =
      ((inferClauses o decls r s).1.exposed, (inferClauses o decls r s).2) := by
  unfold inferClauses
  cases r.body with
  | none => rfl
  | some body =>
    dsimp only
    generalize referencedVariables decls body = occs, ({} : ImplicitClauses) = c
    induction occs generalizing s c with
    | nil => rfl
    | cons occ rest ih =>
      rw [List.foldl_cons, List.foldl_cons, inferOccurrence_exposed, ih]

end

/-! ## What is due on a reference -/

section
variable {o : Options} {decls : DeclTable} {stack : FrameStack} {f : Frame} {directive : DirectiveKind}
  {var : DeclId} {d : VarDecl} {occ : Occurrence} {e : Diagnostic}

/-- Something is inferred only for a variable that is not threadprivate and not known to the frame. -/
theorem untouched_of_infer (h : infer o decls stack f directive var d ≠ .nothing) :
    d.threadprivate = false ∧ f.entryOf? var = none ∧ f.isRejected var = false := by
  unfold infer at h
  split at h
  · exact absurd rfl h
  · rename_i untouched
    simp only [SortedMap.contains, Bool.or_eq_true, not_or, Bool.not_eq_true,
      Option.isSome_eq_false_iff, Option.isNone_iff_eq_none] at untouched
    exact ⟨untouched.1.1, untouched.1.2, untouched.2⟩

/-- A variable that is unresolved under `default(none)` is left so, unless there is nothing to infer. -/
theorem infer_of_unresolved (notThreadprivate : d.threadprivate = false)
    (noEntry : f.entryOf? var = none) (notRejected : f.isRejected var = false)
    (unresolved : resolve o decls stack.visible var = .unresolved) (none : f.defaultMode = .none) :
    infer o decls stack f directive var d = .unresolved .defaultNone := by
  have absent : f.entries.contains var = false := congrArg Option.isSome noEntry
  rw [infer, notThreadprivate, absent, notRejected, unresolved, none]
  rfl

theorem Inference.var?_of_report? {i : Inference} (h : i.report? f directive occ = some e) :
    e.var? = some occ.1 := by
  unfold report? at h
  split at h
  all_goals
    cases h
    try rfl

theorem inferenceReport?_eq_some (h : inferenceReport? o decls directive stack f occ = some e) :
    e.var? = some occ.1 ∧ ∃ d, decls.get? occ.1 = some d ∧ d.threadprivate = false ∧
      f.entryOf? occ.1 = none ∧ f.isRejected occ.1 = false := by
  obtain ⟨d, declared, report⟩ := Option.bind_eq_some_iff.mp h
  have inferred : infer o decls stack f directive occ.1 d ≠ .nothing := by
    intro nothing
    rw [nothing] at report
    cases report
  exact ⟨Inference.var?_of_report? report, d, declared, untouched_of_infer inferred⟩

end

/-- Of what is reported on distinct variables, one report concerns a variable that is among them. -/
theorem filter_var?_filterMap {report? : Occurrence → Option Diagnostic} {occs : List Occurrence}
    (about : ∀ occ e, report? occ = some e → e.var? = some occ.1)
    (distinct : (occs.map (·.1)).Nodup) {v : DeclId} {location : Location} {e : Diagnostic}
    (mem : (v, location) ∈ occs) (due : report? (v, location) = some e) :
    (occs.filterMap report?).filter (·.var? = some v) = [e] := by
  have others {rest : List Occurrence} (absent : v ∉ rest.map (·.1)) :
      (rest.filterMap report?).filter (·.var? = some v) = [] := by
    rw [List.filter_eq_nil_iff]
    intro e' he' is
    obtain ⟨occ, hocc, report⟩ := List.mem_filterMap.mp he'
    rw [about occ e' report] at is
    exact absent (List.mem_map.mpr ⟨occ, hocc, by simpa using is⟩)
  induction occs with
  | nil => cases mem
  | cons occ rest ih =>
    rw [List.map_cons, List.nodup_cons] at distinct
    obtain rfl | later := List.mem_cons.mp mem
    · rw [List.filterMap_cons_some due, List.filter_cons_of_pos (by simp [about _ e due]),
        others distinct.1]
    · have rest := ih distinct.2 later
      have other : occ.1 ≠ v := fun same => distinct.1 (same ▸ List.mem_map_of_mem later)
      cases report : report? occ with
      | none => rw [List.filterMap_cons_none report, rest]
      | some e' =>
        rw [List.filterMap_cons_some report, List.filter_cons_of_neg (by simp [about _ e' report, other]),
          rest]

/-- What inferring the implicit clauses of a region reports. -/
theorem inferClauses_reports (o : Options) (decls : DeclTable) {s : Scope} {f : Frame}
    (current : s.stack.current? = some f) (r : Region) :
    (inferClauses o decls r s).1.diagnostics =
      s.diagnostics ++ (r.references decls).filterMap (inferenceReport? o decls r.kind s.stack f) := by
  obtain ⟨outer, visible⟩ : ∃ outer, s.stack.visible = f :: outer := List.head?_eq_some_iff.mp current
  have without : (inferClauses o decls r s.exposed).1.diagnostics =
      (inferClauses o decls r s).1.diagnostics :=
    congrArg (·.1.diagnostics) (inferClauses_exposed s r)
  have reports := (inferClauses_frame o decls (s := s.exposed) (FrameStack.inside_exposed visible) r).1
  have same : inferenceReport? o decls r.kind s.exposed.stack f =
      inferenceReport? o decls r.kind s.stack f := by
    funext occ
    unfold inferenceReport?
    simp only [Scope.exposed, infer_exposed]
  rw [same] at reports
  exact without.symm.trans reports

/-- Inference reports on declared variables that are not threadprivate and that the frame does not know,
on each of them at most once. Where the frame has `default(none)`, there is just one report on every such
variable that is unresolved, which says so at the first reference to it that reaches the region. -/
theorem inference_reports_once {o : Options} {decls : DeclTable} {r : Region} {s : Scope} {f : Frame}
    (current : s.stack.current? = some f) :
    ∃ ds, (inferClauses o decls r s).1.diagnostics = s.diagnostics ++ ds ∧
      (∀ e ∈ ds, ∃ v d, e.var? = some v ∧ decls.canonical v = v ∧ decls.get? v = some d ∧
        d.threadprivate = false ∧ f.entryOf? v = none ∧ f.isRejected v = false) ∧
      (ds.map (·.var?)).Nodup ∧
      (f.defaultMode = .none → ∀ body, r.body = some body → ∀ v d location,
        (body.counted decls.canonical []).find? (·.1 = v) = some (v, location) →
        decls.get? v = some d → d.threadprivate = false → f.entryOf? v = none →
        f.isRejected v = false → resolve o decls s.stack.visible v = .unresolved →
        ds.filter (·.var? = some v) = [
          { location
            kind := .unresolvedUnderNoDefault .defaultNone
            args := [.var v, .directive f.kind] }]) := by
  have distinct : ((r.references decls).map (·.1)).Nodup := by
    unfold Region.references
    cases r.body with
    | none => exact .nil
    | some body => exact nodup_referencedVariables decls body
  have canonical : ∀ occ ∈ r.references decls, decls.canonical occ.1 = occ.1 := by
    unfold Region.references
    cases r.body with
    | none => exact fun _ h => absurd h List.not_mem_nil
    | some body => exact fun _ => canonical_of_mem_referencedVariables
  refine ⟨_, inferClauses_reports o decls current r, ?_, ?_, ?_⟩
  · intro e he
    obtain ⟨occ, hocc, report⟩ := List.mem_filterMap.mp he
    obtain ⟨about, d, declared, untouched⟩ := inferenceReport?_eq_some report
    exact ⟨occ.1, d, about, canonical occ hocc, declared, untouched⟩
  · rw [List.Nodup, List.pairwise_map] at distinct ⊢
    refine distinct.filterMap _ fun occ occ' other e report e' report' => ?_
    rw [(inferenceReport?_eq_some report).1, (inferenceReport?_eq_some report').1]
    exact fun same => other (Option.some.inj same)
  · intro none body is v d location first declared notThreadprivate noEntry notRejected unresolved
    have mem : (v, location) ∈ r.references decls := by
      rw [Region.references, is]
      exact (mem_firstOccurrences_iff List.not_mem_nil).mpr first
    refine filter_var?_filterMap (fun _ _ report => (inferenceReport?_eq_some report).1) distinct mem ?_
    rw [inferenceReport?, declared, Option.bind_some,
      infer_of_unresolved notThreadprivate noEntry notRejected unresolved none]
    rfl

/-- In a parallel region with `default(none)` that shares `y`, and with a hidden task inside, there is
one report on `x`, which is referred to twice, and none on `y`. -/
theorem inference_reports_once_repeated :
    let decl (id : Nat) (name : String) : VarDecl :=
      { id := ⟨id⟩, name, ty := .int32, storage := .automatic, scope := .function, location := ⟨1, 1⟩ }
    let decls : DeclTable := ⟨[decl 0 "x", decl 1 "y"]⟩
    let use (var : Nat) (line : Nat) : Stmt := .expr ⟨line, 1⟩ (.ofDecl ⟨var⟩ .int32 ⟨line, 5⟩)
    let body : Stmt := .block ⟨2, 1⟩ [use 1 3, use 0 4, use 1 5, use 0 6]
    let r : Region := { kind := .parallel, body := some body, location := ⟨1, 1⟩ }
    let f : Frame := ({ kind := .parallel, defaultMode := .none } : Frame).setEntry ⟨1⟩
      { kind := .shared, location := ⟨1, 9⟩ }
    let s : Scope := { stack := { frames := [{ kind := .task }, f], hidden := 1 } }
    ∃ ds, (inferClauses {} decls r s).1.diagnostics = s.diagnostics ++ ds ∧
      ds.filter (·.var? = some ⟨0⟩) = [
        { location := ⟨4, 5⟩
          kind := .unresolvedUnderNoDefault .defaultNone
          args := [.var ⟨0⟩, .directive .parallel] }] ∧
      ∀ e ∈ ds, e.var? ≠ some ⟨1⟩ := by
  intro decl decls use body r f s
  obtain ⟨ds, reported, unknown, -, once⟩ := @inference_reports_once {} decls r s f rfl
  refine ⟨ds, reported, ?_, ?_⟩
  · exact once rfl body rfl ⟨0⟩ (decl 0 "x") ⟨4, 5⟩ (by decide) rfl rfl rfl rfl rfl
  · intro e he is
    obtain ⟨v, -, about, -, -, -, noEntry, -⟩ := unknown e he
    cases about.symm.trans is
    cases noEntry

end Directives
