import Directives.Proofs.LocalVariables
import Directives.Proofs.StoppedWalks
/-!
What becomes of a variable that inference leaves without attribute. Inference reports it and marks it as
rejected, although no clause lists it. Resolution, which is asked for the variables of the region later,
finds the mark: the variable is among the rejected ones, and never among the unresolved ones.
-/

namespace Directives

theorem Frame.answer_of_isRejected {o : Options} {f : Frame} {var : DeclId} {d : VarDecl}
    (leavesOpen : f.LeavesOpen o var d) (noEntry : f.entryOf? var = none)
    (rejected : f.isRejected var = true) (i : Nat) : f.answer o var d i = .settled .rejected := by
  simp [answer, leavesOpen.counter, leavesOpen.isLocal, leavesOpen.notConst, noEntry, rejected]

/-- The frame has marked the variable as rejected, and says nothing else about it. -/
structure Frame.Rejects (f : Frame) (var : DeclId) : Prop where
  noEntry : f.entryOf? var = none
  rejected : f.isRejected var = true

theorem Frame.Rejects.congr {f f' : Frame} {var : DeclId} (h : f.Rejects var)
    (agrees : f.AgreesOn var f') : f'.Rejects var where
  noEntry := agrees.entry.trans h.noEntry
  rejected := agrees.rejected.trans h.rejected

theorem Frame.rejects_reject {f : Frame} {var : DeclId} (noEntry : f.entryOf? var = none) :
    (f.reject var).Rejects var := by
  have silent : (f.reject var).entryOf? var = none := (f.entryOf?_reject ..).trans noEntry
  have known : (f.reject var).Knows var := knows_reject.mpr (.inr rfl)
  refine ⟨silent, known.resolve_left ?_⟩
  rw [silent]
  exact Bool.false_ne_true

/-! ## Inference -/

section
variable {o : Options} {decls : DeclTable} {f : Frame} {outer : List Frame} {s : Scope}
  {directive : DirectiveKind} {var : DeclId} {d : VarDecl} {occ : Occurrence} {occs : List Occurrence}
  {context : UnresolvedContext}

/-- Inference does not change what the frame says about variables that it does not go through. -/
theorem foldl_inferOccurrence_agreesOn (inside : s.stack.Inside f outer) (c : ImplicitClauses)
    (other : var ∉ occs.map (·.1)) :
    ∃ f', (occs.foldl (inferOccurrence o decls directive) (s, c)).1.stack.Inside f' outer ∧
      f.AgreesOn var f' := by
  induction occs generalizing s f c with
  | nil => exact ⟨f, inside, .refl var f⟩
  | cons first rest ih =>
    rw [List.map_cons, List.mem_cons, not_or] at other
    obtain ⟨f₁, works, step⟩ : ∃ f₁,
        s.stack.Works f outer (inferOccurrence o decls directive (s, c) first).1.stack f₁ ∧
          InferenceStep o decls s.stack directive first.1 f c f₁ _ := inferOccurrence_works inside first
    obtain ⟨f₂, inside₂, agrees⟩ := ih works.inside _ other.2
    exact ⟨f₂, inside₂, (step.agreesOn (Ne.symm other.1)).trans agrees⟩

theorem inferOccurrence_unresolved (inside : s.stack.Inside f outer) (c : ImplicitClauses)
    (hd : decls.get? occ.1 = some d)
    (inferred : infer o decls s.stack f directive occ.1 d = .unresolved context) :
    (inferOccurrence o decls directive (s, c) occ).1.stack.Inside (f.reject occ.1) outer := by
  unfold inferOccurrence
  rw [inside.current?, hd]
  dsimp only
  rw [inferred]
  exact inside.modifyCurrent (·.reject occ.1)

/-- A variable that is found to be without attribute is rejected in the end. -/
theorem foldl_inferOccurrence_rejects (inside : s.stack.Inside f outer) (c : ImplicitClauses)
    (distinct : (occs.map (·.1)).Nodup) (canonical : ∀ o ∈ occs, decls.canonical o.1 = o.1)
    (mem : occ ∈ occs) (hd : decls.get? occ.1 = some d)
    (inferred : infer o decls s.stack f directive occ.1 d = .unresolved context) :
    ∃ f', (occs.foldl (inferOccurrence o decls directive) (s, c)).1.stack.Inside f' outer ∧
      f'.Rejects occ.1 := by
  induction occs generalizing s f c with
  | nil => cases mem
  | cons first rest ih =>
    rw [List.map_cons, List.nodup_cons] at distinct
    rw [List.forall_mem_cons] at canonical
    rw [List.foldl_cons]
    rcases List.mem_cons.mp mem with rfl | mem
    · obtain ⟨-, unknown, -⟩ :=
        untouched_of_infer_unresolved inside canonical.1 hd inferred
      have noEntry : f.entryOf? occ.1 = none := by
        rw [Frame.Knows, not_or] at unknown
        simpa using unknown.1
      -- The variables that follow are others.
      obtain ⟨f', inside', agrees⟩ :=
        foldl_inferOccurrence_agreesOn (inferOccurrence_unresolved inside c hd inferred) _ distinct.1
      exact ⟨f', inside', (Frame.rejects_reject noEntry).congr agrees⟩
    · obtain ⟨f₁, works, step⟩ : ∃ f₁,
          s.stack.Works f outer (inferOccurrence o decls directive (s, c) first).1.stack f₁ ∧
            InferenceStep o decls s.stack directive first.1 f c f₁ _ :=
        inferOccurrence_works inside first
      have other : first.1 ≠ occ.1 := fun same => distinct.1 (same ▸ List.mem_map_of_mem mem)
      refine ih works.inside _ distinct.2 canonical.2 mem ?_
      rw [infer_congr inside works.inside (step.agreesOn other) (canonical.2 occ mem) hd, inferred]

theorem inferClauses_rejects (inside : s.stack.Inside f outer) {r : Region}
    (mem : occ ∈ r.references decls) (hd : decls.get? occ.1 = some d)
    (inferred : infer o decls s.stack f r.kind occ.1 d = .unresolved context) :
    ∃ f', (inferClauses o decls r s).1.stack.Inside f' outer ∧ f'.Rejects occ.1 := by
  unfold Region.references at mem
  unfold inferClauses
  cases hbody : r.body with
  | none =>
    rw [hbody] at mem
    cases mem
  | some body =>
    rw [hbody] at mem
    exact foldl_inferOccurrence_rejects inside _ (nodup_referencedVariables decls body)
      (fun _ => canonical_of_mem_referencedVariables) mem hd inferred

end

/-! ## What the record says -/

section
variable {o : Options} {decls decls' : DeclTable} {v : Visit} {x : RegionReport} {w₂ : Walk}
  {nest : Option LoopNest} {f f' : Frame} {outer : List Frame} {c : DeclId}

/-- A variable that is left unresolved is one that the region refers to; its clauses do not know it, and
resolution finds it rejected. -/
theorem Walk.Entrance.rejected_of_leavesUnresolved
    (entrance : Entrance o v.region v.before w₂ v.after nest f f' outer)
    (asked : ∃ e ∈ v.emitted, e.LeavesUnresolved c) :
    c ∈ regionVariables w₂.decls v.region nest ∧
      resolve o w₂.decls (f' :: outer) c = .rejected ∧
      ∃ d, w₂.decls.get? c = some d ∧ d.threadprivate = false ∧ ¬ f.Knows c := by
  obtain ⟨⟨occ, mem, rfl⟩, d, hd, context, inferred⟩ := entrance.leavesUnresolved_iff.mp asked
  have reached : v.region.IsReached w₂.decls.canonical occ.1 :=
    Region.isReached_iff.mpr ⟨occ, mem, rfl⟩
  have listed : occ.1 ∈ regionVariables w₂.decls v.region nest :=
    mem_regionVariables_iff.mpr (.inr (.inr reached))
  have canonical := canonical_of_mem_regionVariables listed
  obtain ⟨notThreadprivate, unknown, leavesOpen⟩ :=
    untouched_of_infer_unresolved entrance.registered canonical hd inferred
  refine ⟨listed, ?_, d, hd, notThreadprivate, unknown⟩
  obtain ⟨f₁, inside, rejects⟩ := inferClauses_rejects entrance.registered mem hd inferred
  have last : v.after.scope.stack = (inferClauses o w₂.decls v.region w₂.scope).1.stack := by
    rw [entrance.concluded]
    rfl
  have sameFrame : f₁ = f' := by
    rw [← last] at inside
    exact Option.some.inj (inside.current?.symm.trans entrance.inferred.current?)
  subst sameFrame
  have open' := leavesOpen.congr entrance.marks.counters entrance.marks.locals
  rw [resolve_of_canonical canonical hd notThreadprivate, resolveDeclared,
    Frame.answer_of_isRejected open' rejects.noEntry rejects.rejected]

/-- What the clauses of a region list that is analysed was declared before. -/
theorem Visit.Between.items_declared (h : v.Between o decls decls' x) (analyzed : x.status = .analyzed) :
    ∀ item ∈ v.region.items, item.decl.index < v.before.decls.size := by
  obtain ⟨id, entered⟩ := h.exists_entered analyzed
  obtain ⟨s, -, -, clauses, -⟩ := Walk.exists_registered h.hidden entered
  exact lt_of_undeclared?_eq_none (undeclared?_of_registerClauses clauses)

theorem Visit.Between.get?_of_lists (h : v.Between o decls decls' x) (analyzed : x.status = .analyzed)
    (lists : v.region.Lists v.before.decls.canonical c) :
    ∃ d, v.before.decls.get? c = some d := by
  obtain ⟨clause, hclause, -, item, hitem, rfl⟩ := lists
  have declared := h.items_declared analyzed item (List.mem_flatMap.mpr ⟨clause, hclause, hitem⟩)
  have earlier := Nat.lt_of_le_of_lt (v.before.decls.canonical_le item.decl) declared
  exact ⟨_, List.getElem?_eq_getElem earlier⟩

end

/-- The variables that are reported to be without attribute are recorded as rejected, and not as
unresolved. They have no attribute, and no clause of the region lists them for one. -/
theorem diagnosed_variables_rejected {o : Options} {p : Program} {report : Report}
    (ok : (analyze o p).1 = .ok report) :
    List.Forall₂ (fun v x => v.Records x ∧
        (x.status = .analyzed → ∀ c, (∃ e ∈ v.emitted, e.LeavesUnresolved c) →
          c ∈ x.rejected ∧ c ∉ x.unresolved ∧ (∀ a ∈ x.attributes, a.var ≠ c) ∧
            ¬ v.region.Lists p.decls.canonical c))
      (p.visits o) report.regions := by
  refine (forall₂_visits ok).imp fun v x between => ⟨between.records, ?_⟩
  intro analyzed c asked
  obtain ⟨w₂, f, f', outer, entrance, -, sorts⟩ := between.exists_sorting_entrance analyzed
  obtain ⟨listed, rejected, d, hd, notThreadprivate, unknown⟩ :=
    entrance.rejected_of_leavesUnresolved asked
  refine ⟨(sorts.rejected c).mpr ⟨listed, rejected⟩, fun unresolved => ?_, ?_, fun lists => ?_⟩
  · have other := ((sorts.unresolved c).mp unresolved).2
    cases rejected.symm.trans other
  · rintro a ha rfl
    have other := ((sorts.attributes a).mp ha).2
    cases rejected.symm.trans other
  · rw [← between.since.canonical] at lists
    obtain ⟨d', hd'⟩ := between.get?_of_lists analyzed lists
    cases (entrance.extendsTo.get?_eq_some hd').symm.trans hd
    exact unknown ((entrance.knows c d hd' notThreadprivate).mpr lists)

/-- A variable under `default(none)`, one of file scope under `default(private)`, and one that
`defaultmap(none)` keeps from being mapped. -/
theorem diagnosed_variables_rejected_contexts :
    let p := Draft.program do
      let a ← Draft.functionLocal "a" .int32
      let g ← Draft.global "g" .int32
      let inNone ← Draft.useVars [a]
      let inPrivate ← Draft.useVars [a, g]
      let inTarget ← Draft.useVars [a]
      return [
        ← Draft.region .parallel fun r =>
          { r.withMark (.default .none) with body := some inNone },
        ← Draft.region .parallel fun r =>
          { r.withMark (.default .priv) with body := some inPrivate },
        ← Draft.region .target fun r =>
          { r.withMark (.defaultmap .none none) with body := some inTarget }]
    ∃ report, (analyze {} p).1 = .ok report ∧
      report.regions.map (fun x => (x.status, x.attributes.map (·.var), x.unresolved, x.rejected)) =
        [(.analyzed, [], [], [⟨0⟩]), (.analyzed, [⟨0⟩], [], [⟨1⟩]), (.analyzed, [], [], [⟨0⟩])] ∧
      ((p.visits {}).map fun v =>
        [⟨0⟩, ⟨1⟩].filter fun c => ∃ e ∈ v.emitted, e.LeavesUnresolved c) = [[⟨0⟩], [⟨1⟩], [⟨0⟩]] ∧
      List.Forall₂ (fun v x => v.Records x ∧
          (x.status = .analyzed → ∀ c, (∃ e ∈ v.emitted, e.LeavesUnresolved c) →
            c ∈ x.rejected ∧ c ∉ x.unresolved ∧ (∀ a ∈ x.attributes, a.var ≠ c) ∧
              ¬ v.region.Lists p.decls.canonical c))
        (p.visits {}) report.regions := by
  intro p
  obtain ⟨report, ok, sorted⟩ : ∃ report, (analyze {} p).1 = .ok report ∧
      report.regions.map (fun x => (x.status, x.attributes.map (·.var), x.unresolved, x.rejected)) =
        [(.analyzed, [], [], [⟨0⟩]), (.analyzed, [⟨0⟩], [], [⟨1⟩]), (.analyzed, [], [], [⟨0⟩])] :=
    exists_report_of_decide _ (by decide +kernel)
  exact ⟨report, ok, sorted, by decide +kernel, diagnosed_variables_rejected ok⟩

/-- Under `default(none)` a variable that is reported is not among the unresolved ones, but among the
rejected ones. -/
theorem diagnosed_variable_not_unresolved :
    let p := Draft.program do
      let a ← Draft.functionLocal "a" .int32
      let uses ← Draft.useVars [a]
      return [← Draft.region .parallel fun r =>
        { r.withMark (.default .none) with body := some uses }]
    ∃ report, (analyze {} p).1 = .ok report ∧
      ∃ v x, p.visits {} = [v] ∧ report.regions = [x] ∧ x.status = .analyzed ∧
        (∃ e ∈ v.emitted, e.LeavesUnresolved ⟨0⟩) ∧ ⟨0⟩ ∉ x.unresolved ∧ ⟨0⟩ ∈ x.rejected := by
  intro p
  obtain ⟨report, ok, sorted⟩ : ∃ report, (analyze {} p).1 = .ok report ∧
      report.regions.map (fun x => (x.status, x.unresolved, x.rejected)) =
        [(.analyzed, [], [⟨0⟩])] :=
    exists_report_of_decide _ (by decide +kernel)
  have asks : (p.visits {}).map (fun v => decide (∃ e ∈ v.emitted, e.LeavesUnresolved ⟨0⟩)) =
      [true] := by decide +kernel
  obtain ⟨x, recorded⟩ := List.length_eq_one_iff.mp (by simpa using congrArg List.length sorted)
  obtain ⟨v, visited⟩ := List.length_eq_one_iff.mp (by simpa using congrArg List.length asks)
  rw [recorded] at sorted
  rw [visited] at asks
  obtain ⟨analyzed, unresolved, rejected⟩ :
      x.status = .analyzed ∧ x.unresolved = [] ∧ x.rejected = [⟨0⟩] := by
    simpa using sorted
  refine ⟨report, ok, v, x, visited, recorded, analyzed, ?_, ?_, ?_⟩
  · exact of_decide_eq_true (List.head_eq_of_cons_eq asks)
  · rw [unresolved]
    exact List.not_mem_nil
  · rw [rejected]
    exact List.mem_singleton_self _

end Directives
