import Directives.Proofs.RectangularNest
/-!
The conditions that are tested again. They are tested at the point itself, while a loop tests its
condition on the way as well. An order that holds at the end held on the way; but a loop that runs
until its counter equals the bound has stopped at the bound, and values behind it pass the test.
-/

namespace Directives

namespace LoopLevel

/-- A loop with a condition that is tested again and is no order comparison meets its bound before
it comes to the counter. -/
def MeetsBound (l : LoopLevel) (env : Bindings) : Prop :=
  ∃ c v lower upper step, ∃ j : Nat, l.finalCondition = some c ∧ c.isOrdering = false ∧
    env l.counter = some v ∧ l.lower.value env = some lower ∧ l.upper.value env = some upper ∧
      l.stepValue = some step ∧ stepped l.ascending lower step j = upper ∧
        j * step < ((v - lower).natAbs : Int)

/-- The loop meets its bound before the iteration. -/
def MeetsBoundBefore (f : ForHeader) (l : LoopLevel) (env : Bindings) (k : Nat) : Prop :=
  l.isNonRectangular = true ∧ f.cond.isOrdering = false ∧
    ∃ j < k, l.ownValue env j = l.ownUpper env

end LoopLevel

namespace LoopLevel.Known

variable {outer : List LoopLevel} {l : LoopLevel} {f : ForHeader} {r : Relation}
  {ll lg ul ug step : Int} {count : Nat} {env env' : Bindings} {k : Nat}

theorem meetsBound_iff (known : l.Known outer ll lg ul ug step count)
    (built : l.BuiltFrom f r outer) (knows : env.Knows outer)
    (agree : env.AgreeOn (· ∈ countersOf outer) env')
    (hv : env' l.counter = some (l.ownValue env k)) :
    l.MeetsBound env' ↔ l.MeetsBoundBefore f env k := by
  have hpos := known.spans.step_pos
  have hlower := known.lower_value knows agree
  have hupper := known.upper_value knows agree
  constructor
  · rintro ⟨c, v, lower, upper, step', j, hc, unordered, hv', hl, hu, hstep, meets, before⟩
    cases hv.symm.trans hv'
    cases hlower.symm.trans hl
    cases hupper.symm.trans hu
    cases known.spans.stepValue.symm.trans hstep
    rw [known.natAbs_ownValue] at before
    rw [built.finalCondition] at hc
    split at hc
    · rename_i nonRectangular
      cases hc
      refine ⟨nonRectangular, unordered, j, ?_, by rw [ownValue, known.stride, meets]⟩
      exact Int.ofNat_lt.mp (Int.lt_of_mul_lt_mul_right before (Int.le_of_lt hpos))
    · cases hc
  · rintro ⟨nonRectangular, unordered, j, hj, meets⟩
    refine ⟨f.cond, _, _, _, step, j, ?_, unordered, hv, hlower, hupper, known.spans.stepValue, ?_,
      ?_⟩
    · rw [built.finalCondition, if_pos nonRectangular]
    · rw [← known.stride]
      exact meets
    · rw [known.natAbs_ownValue]
      exact Int.mul_lt_mul_of_pos_right (Int.ofNat_lt.mpr hj) hpos

/-- An iteration of the covering range that is accepted by an order is one of the loop's own. -/
theorem lt_ownIterations_of_accepted (known : l.Known outer ll lg ul ug step count)
    (built : l.BuiltFrom f r outer) (knows : env.Knows outer) (hr : r ≠ .notEqual)
    (within : l.Within f env k) (accepted : l.Accepted f env k) : k < l.ownIterations env := by
  cases rectangular : l.isNonRectangular with
  | true =>
    have last := (accepted rectangular).2
    rw [(known.counts built knows .refl).test, Option.some.injEq, built.read.order hr] at last
    exact (holds_stepped_iff (known.stride ▸ known.spans.step_pos) k).mp last
  | false => exact known.lt_ownIterations rectangular within

/-- Where an iteration of the covering range is accepted, the loop has kept its condition up to it
exactly if it has not met its bound before. -/
theorem kept_iff (known : l.Known outer ll lg ul ug step count) (built : l.BuiltFrom f r outer)
    (knows : env.Knows outer) (within : l.Within f env k) (accepted : l.Accepted f env k) :
    (∀ i ≤ k, f.holds (env.set l.counter (l.ownValue env i)) = some true) ↔
      ¬ l.MeetsBoundBefore f env k := by
  have hpos : 0 < l.stride := known.stride ▸ known.spans.step_pos
  have test (i : Nat) : f.holds (env.set l.counter (l.ownValue env i)) = some true ↔
      r.holds (l.ownValue env i) (l.ownUpper env) = true := by
    rw [(known.counts built knows .refl).test, Option.some.injEq]
  simp only [test]
  by_cases hr : r = .notEqual
  · subst hr
    have strict : l.strict = true := built.read.strict_of_notEqual
    have unordered : f.cond.isOrdering = false := by
      rw [Bool.eq_false_iff]
      exact fun h => built.read.isOrdering.mp h rfl
    constructor
    · rintro holds ⟨-, -, j, hj, meets⟩
      have := holds j (Nat.le_of_lt hj)
      rw [meets] at this
      simp [Relation.holds] at this
    · intro missed i hi
      cases rectangular : l.isNonRectangular with
      | true =>
        rcases Nat.eq_or_lt_of_le hi with rfl | hlt
        · exact (test i).mp (accepted rectangular).2
        · refine decide_eq_true fun meets => missed ⟨rectangular, unordered, i, hlt, meets⟩
      | false =>
        have own := Nat.lt_of_le_of_lt hi (known.lt_ownIterations rectangular within)
        rw [ownIterations, strict] at own
        exact notEqual_of_lt_iterations hpos own
  · have ordered : f.cond.isOrdering = true := built.read.isOrdering.mpr hr
    have own := known.lt_ownIterations_of_accepted built knows hr within accepted
    refine iff_of_true (fun i hi => ?_) fun meets => ?_
    · rw [built.read.order hr]
      exact (holds_stepped_iff hpos i).mpr (Nat.lt_of_le_of_lt hi own)
    · rw [meets.2.1] at ordered
      cases ordered

end LoopLevel.Known

/-- The source reaches an accepted point exactly if no loop has met its bound before. -/
theorem LoopNest.Flattens.reaches_accepted_iff {n : LoopNest} {s : Stmt} {depth : Nat}
    {fs : List ForHeader} {counts : List Nat} (flat : n.Flattens s depth fs counts) {iv : Nat}
    {p : List Int} (point : n.point? iv = some p) (accepted : n.accepts? p = some true)
    (env : Bindings) :
    s.Reaches depth (countersOf n.levels) env p ↔
      ∀ l ∈ n.levels, ¬ l.MeetsBound (n.bindings p) := by
  obtain ⟨hiv, rfl, -⟩ := flat.point?_eq_some.mp point
  have within : Along LoopLevel.Within fs n.levels env (decode counts iv) :=
    flat.within_iff.mpr (isDigits_decode hiv)
  have same : ownPoint n.levels .none = ownPoint n.levels env :=
    (flat.nest.congr (Bindings.knows_nil env) (Bindings.agreeOn_nil _ _)).2
  rw [same] at accepted ⊢
  have accepted := (flat.accepts?_eq_some_true within).mp accepted
  have both := flat.nest.along_and within accepted
  have missed := flat.forall_iff (P := fun f l env k => ¬ l.MeetsBoundBefore f env k)
    (fun built known knows agree hv => not_congr (known.meetsBound_iff built knows agree hv)) within
  rw [flat.reaches_iff, missed]
  constructor
  · rintro ⟨ks, hks, kept⟩
    cases flat.nest.ownPoint_injective within kept hks
    exact flat.nest.along_imp (Bindings.knows_nil env) (fun _ _ built known knows h =>
      (known.kept_iff built knows h.1.1 h.1.2).mp h.2) (flat.nest.along_and both kept)
  · intro missed
    exact ⟨_, rfl, flat.nest.along_imp (Bindings.knows_nil env) (fun _ _ built known knows h =>
      (known.kept_iff built knows h.1.1 h.1.2).mpr h.2) (flat.nest.along_and both missed)⟩

/-- A point that a flattened iteration leads to and that is accepted is one that the source reaches
exactly if no loop that runs until its counter equals the bound has met its bound before. Where the
conditions that are tested again are order comparisons, nothing else passes. -/
theorem accepted_point_reached_iff {o : Options} {s : Stmt} {depth : Nat} {decls : DeclTable}
    {n : LoopNest} {count : Nat} (canonical : (canonicalizeLoops o s depth decls).1 = .nest n)
    (distinct : (countersOf n.levels).Nodup) (total : n.total.value = some count) {iv : Nat}
    {p : List Int} (point : n.point? iv = some p) (accepted : n.accepts? p = some true)
    (env : Bindings) :
    (s.Reaches depth (countersOf n.levels) env p ↔
      ∀ l ∈ n.levels, ¬ l.MeetsBound (n.bindings p)) ∧
    ((∀ l ∈ n.levels, ∀ c, l.finalCondition = some c → c.isOrdering = true) →
      s.Reaches depth (countersOf n.levels) env p) := by
  obtain ⟨fs, counts, flat, -⟩ := canonicalizeLoops_flattens canonical distinct total
  have reached := flat.reaches_accepted_iff point accepted env
  refine ⟨reached, fun ordered => reached.mpr ?_⟩
  rintro l hl ⟨c, _, _, _, _, _, hc, unordered, -⟩
  rw [ordered l hl c hc] at unordered
  cases unordered

/-- A loop that starts at the outer counter and runs until it meets a bound beyond. -/
theorem accepted_point_reached_iff_notEqual :
    ∃ (s : Stmt) (n : LoopNest),
      (canonicalizeLoops {} s 2 (.integers ["i", "j"])).1 = .nest n ∧
        n.point? 4 = some [1, 2] ∧ n.accepts? [1, 2] = some true ∧
          s.Reaches 2 (countersOf n.levels) .none [1, 2] := by
  let s := Stmt.countingLoop ⟨0⟩ (.ofInt 0 .int32 {}) .lt (.ofInt 3 .int32 {}) 1
    (.countingLoop ⟨1⟩ (.ofDecl ⟨0⟩ .int32 {}) .ne (.ofInt 3 .int32 {}) 1 (.null {}))
  obtain ⟨n, canonical, distinct, total, point, accepted, bounds⟩ :
      ∃ n, (canonicalizeLoops {} s 2 (.integers ["i", "j"])).1 = .nest n ∧
        (countersOf n.levels).Nodup ∧ n.total.value = some 9 ∧ n.point? 4 = some [1, 2] ∧
          n.accepts? [1, 2] = some true ∧ ∀ l ∈ n.levels, l.finalCondition.isNone = true ∨
            n.bindings [1, 2] l.counter = some 2 ∧ l.lower.value (n.bindings [1, 2]) = some 1 ∧
              l.upper.value (n.bindings [1, 2]) = some 3 ∧ l.ascending = true ∧
                l.stepValue = some 1 :=
    NestOutcome.exists_of_decide _ (by decide +kernel)
  refine ⟨s, n, canonical, point, accepted,
    (accepted_point_reached_iff canonical distinct total point accepted .none).1.mpr ?_⟩
  rintro l hl ⟨c, v, lower, upper, step, j, hc, -, hv, hlower, hupper, hstep, meets, before⟩
  rcases bounds l hl with absent | ⟨hv', hlower', hupper', ascending, hstep'⟩
  · rw [hc] at absent
    cases absent
  · cases hv'.symm.trans hv
    cases hlower'.symm.trans hlower
    cases hupper'.symm.trans hupper
    cases hstep'.symm.trans hstep
    rw [ascending, stepped, if_pos rfl] at meets
    omega

/-- The loops `for (i = 0; i < 3; i++) for (j = 0; j != i; j++)`. Where `i` is 0 the inner loop does
not run, but the point of the second flattened iteration, with `j` behind the bound, is accepted. -/
theorem accepts_point_not_reached :
    ∃ (s : Stmt) (n : LoopNest),
      (canonicalizeLoops {} s 2 (.integers ["i", "j"])).1 = .nest n ∧
        (countersOf n.levels).Nodup ∧ n.total.value = some 6 ∧ n.point? 1 = some [0, 1] ∧
          n.accepts? [0, 1] = some true ∧
            ∀ env, ¬ s.Reaches 2 (countersOf n.levels) env [0, 1] := by
  let s := Stmt.countingLoop ⟨0⟩ (.ofInt 0 .int32 {}) .lt (.ofInt 3 .int32 {}) 1
    (.countingLoop ⟨1⟩ (.ofInt 0 .int32 {}) .ne (.ofDecl ⟨0⟩ .int32 {}) 1 (.null {}))
  obtain ⟨n, canonical, distinct, total, point, accepted, l, hl, unordered, hv, hlower, hupper,
      hstep⟩ :
      ∃ n, (canonicalizeLoops {} s 2 (.integers ["i", "j"])).1 = .nest n ∧
        (countersOf n.levels).Nodup ∧ n.total.value = some 6 ∧ n.point? 1 = some [0, 1] ∧
          n.accepts? [0, 1] = some true ∧ ∃ l ∈ n.levels,
            (l.finalCondition.any fun c => !c.isOrdering) = true ∧
              n.bindings [0, 1] l.counter = some 1 ∧ l.lower.value (n.bindings [0, 1]) = some 0 ∧
                l.upper.value (n.bindings [0, 1]) = some 0 ∧ l.stepValue = some 1 :=
    NestOutcome.exists_of_decide _ (by decide +kernel)
  obtain ⟨fs, counts, flat, -⟩ := canonicalizeLoops_flattens canonical distinct total
  refine ⟨s, n, canonical, distinct, total, point, accepted, fun env reached => ?_⟩
  obtain ⟨c, hc, unordered⟩ := (Option.any_eq_true _ _).mp unordered
  exact (flat.reaches_accepted_iff point accepted env).mp reached l hl
    ⟨c, 1, 0, 0, 1, 0, hc, by simpa using unordered, hv, hlower, hupper, hstep, by simp, by decide⟩

end Directives
