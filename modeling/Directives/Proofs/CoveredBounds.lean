import Directives.Proofs.CountOperands
import Directives.Proofs.NonRectangularNest
/-!
Covering ranges of bounds with values that are known only at run time. Whatever values the variables
have with which a loop runs, the covering range of a bound that is affine in its counter reaches from
the least to the greatest value that the bound has in an iteration of the loop.
-/

namespace Directives

/-- The counter of an iteration lies between those of the first and of a later iteration. -/
theorem between_stepped {step : Int} (hs : 0 < step) (ascending : Bool) (first : Int) {k n : Nat}
    (hk : k ≤ n) :
    Between first (stepped ascending first step n) (stepped ascending first step k) := by
  have far : (k : Int) * step ≤ n * step :=
    Int.mul_le_mul_of_nonneg_right (Int.ofNat_le.mpr hk) (Int.le_of_lt hs)
  have near : 0 ≤ (k : Int) * step := Int.mul_nonneg (Int.natCast_nonneg k) (Int.le_of_lt hs)
  cases ascending with
  | true => exact .inl (by simp only [stepped, if_true]; omega)
  | false => exact .inr (by simp only [stepped, if_false, Bool.false_eq_true]; omega)

/-- The range encloses what has a value in each of the iterations, and its ends are among these
values. -/
structure Covering.Encloses (c : Covering) (env : Bindings) (count : Nat) (values : Nat → Option Int)
    (least greatest : Int) : Prop where
  min : c.min.eval env = some least
  max : c.max.eval env = some greatest
  ordered : least ≤ greatest
  between : ∀ k < count, ∃ v, values k = some v ∧ least ≤ v ∧ v ≤ greatest
  reachesLeast : ∃ k < count, values k = some least
  reachesGreatest : ∃ k < count, values k = some greatest
  minValue : ∀ v, c.minValue = some v → v = least
  maxValue : ∀ v, c.maxValue = some v → v = greatest

theorem Expr.eq_of_constant {env : Bindings} {e : Expr} {v w : Int} (hc : e.constant? = some v)
    (he : e.eval env = some w) : v = w :=
  Option.some.inj ((eval_of_constant hc env).symm.trans he)

/-- A choice between two expressions takes the first if they compare. -/
theorem Expr.eval_pick {env : Bindings} {op : BinaryOp} {a b : Expr} {x y : Int}
    (ha : a.eval env = some x) (hb : b.eval env = some y) (holds : Bool)
    (compares : op.apply x y = some (ofTruth holds)) :
    (mkConditional (mkBinary op a b) a b).eval env = some (if holds then x else y) := by
  rw [eval_mkConditional ((eval_mkBinary ha hb op).trans compares)]
  cases holds
  · exact hb
  · exact ha

namespace LoopLevel

variable {l : LoopLevel} {env : Bindings} {first bound stride : Int} {count width : Nat}

/-- With the values of the variables the level counts: bounds and step have values, the step is a
positive one in the direction of the loop, and the trip count is in range. -/
structure RunsOver (l : LoopLevel) (env : Bindings) (first bound stride : Int) (count : Nat) :
    Prop where
  lower : l.lower.eval env = some first
  upper : l.upper.eval env = some bound
  step : l.step.eval env = some stride
  direction : (!l.subtract) = l.ascending
  trip : constantTripCount first bound stride l.ascending l.strict = some count

/-- A bound that depends on no outer counter is its own covering range. -/
theorem BuiltFrom.effective {f : ForHeader} {r : Relation} {outer : List LoopLevel}
    (built : l.BuiltFrom f r outer) (rectangular : l.isNonRectangular = false) :
    l.effectiveLower = l.lower ∧ l.effectiveUpper = l.upper := by
  have none : l.lowerDependency = none ∧ l.upperDependency = none := by
    simpa [isNonRectangular] using rectangular
  rw [built.effectiveLower, built.effectiveUpper, none.1, none.2]
  exact ⟨rfl, rfl⟩

/-- The ends of a covering range are the lesser and the greater of the values that the bound has at
the first and at the last value of the counter. -/
theorem eval_covering {e : Expr} {x y : Int}
    (atFirst : (e.substitute l.counter l.effectiveLower).eval env = some x)
    (atLast : (e.substitute l.counter (l.last e.location)).eval env = some y) :
    (l.covering e).min.eval env = some (min x y) ∧ (l.covering e).max.eval env = some (max x y) ∧
      (∀ v, (l.covering e).minValue = some v → v = min x y) ∧
      ∀ v, (l.covering e).maxValue = some v → v = max x y := by
  unfold covering
  dsimp only
  split
  · rename_i a b ha hb
    cases Expr.eq_of_constant ha atFirst
    cases Expr.eq_of_constant hb atLast
    split
    · refine ⟨atFirst.trans ?_, atLast.trans ?_, ?_, ?_⟩ <;> simp <;> omega
    · refine ⟨atLast.trans ?_, atFirst.trans ?_, ?_, ?_⟩ <;> simp <;> omega
  · refine ⟨(Expr.eval_pick atFirst atLast (x ≤ y) rfl).trans ?_,
      (Expr.eval_pick atFirst atLast (y ≤ x) rfl).trans ?_, fun v hv => ?_, fun v hv => ?_⟩
    · rw [Int.min_def]
      simp only [decide_eq_true_eq]
    · rw [Int.max_comm, Int.max_def]
      simp only [decide_eq_true_eq]
    · cases hv
    · cases hv

namespace RunsOver

theorem inRange_last (runs : l.RunsOver env first bound stride count) (inRange : env.InRange)
    (pos : 0 < count) : Wide.InRange (stepped l.ascending first stride (count - 1)) := by
  obtain ⟨positive, iterated, -⟩ := constantTripCount_eq_some runs.trip
  have within : count - 1 < iterations first bound stride l.ascending l.strict := by omega
  exact inRange_stepped positive (Expr.eval_inRange inRange runs.lower)
    (Expr.eval_inRange inRange runs.upper) within

/-- A last value that is known is that of the last iteration. -/
theorem lastValue?_eq (runs : l.RunsOver env first bound stride count) {f : ForHeader} {r : Relation}
    {outer : List LoopLevel} (built : l.BuiltFrom f r outer) (rectangular : l.isNonRectangular = false)
    {v : Int} (known : l.lastValue? = some v) : v = stepped l.ascending first stride (count - 1) := by
  obtain ⟨lower, upper⟩ := built.effective rectangular
  have counts := known
  simp only [lastValue?, Option.bind_eq_bind, Option.bind_eq_some_iff] at counts
  obtain ⟨_, -, c, tripCount, -⟩ := counts
  obtain ⟨first', bound', stride', spans⟩ := built.spans tripCount
  cases Expr.eq_of_constant (lower ▸ spans.effectiveLower) runs.lower
  cases Expr.eq_of_constant (upper ▸ spans.effectiveUpper) runs.upper
  cases Expr.eq_of_constant spans.constantStep runs.step
  cases spans.trip.symm.trans runs.trip
  exact Option.some.inj (known.symm.trans spans.lastValue?)

/-- The expression for the last value goes the way of all iterations but one. -/
theorem eval_lastExpr (runs : l.RunsOver env first bound stride count) (inRange : env.InRange)
    (lower : l.effectiveLower = l.lower) (trip : l.tripCount.expr.eval env = some (count : Int))
    (pos : 0 < count) (location : Location) :
    (l.lastExpr location).eval env = some (stepped l.ascending first stride (count - 1)) := by
  have before : (count : Int) - 1 = (count - 1 : Nat) := by omega
  have index (ty : Ty) : (Expr.arith .sub (l.tripCount.expr.castTo ty) (.ofInt 1 ty location) ty).eval
      env = some ((count - 1 : Nat) : Int) := by
    have one : (Expr.ofInt 1 ty location).eval env = some 1 :=
      Expr.eval_ofInt ⟨by decide, by decide⟩ ..
    rw [Expr.eval_arith ((Expr.evalIn_castTo ..).trans trip) one, ← before]
    exact Wide.check_of_inRange (before ▸ inRange_index runs.trip (Nat.sub_le ..))
  have offset (ty : Ty) : (Expr.arith .mul (.arith .sub (l.tripCount.expr.castTo ty)
      (.ofInt 1 ty location) ty) l.step ty).eval env = some ((count - 1 : Nat) * stride) := by
    rw [Expr.eval_arith (index ty) runs.step]
    exact Wide.check_of_inRange (inRange_offset runs.trip (Nat.sub_le ..))
  rw [lastExpr, Expr.eval_binary, lower, runs.lower, Option.bind_some, offset, Option.bind_some,
    stepOp_apply runs.direction]
  exact Wide.check_of_inRange (runs.inRange_last inRange pos)

/-- The last value of the counter, as it is calculated, is that of the last iteration. -/
theorem eval_last (runs : l.RunsOver env first bound stride count) (inRange : env.InRange)
    {f : ForHeader} {r : Relation} {outer : List LoopLevel} (built : l.BuiltFrom f r outer)
    (rectangular : l.isNonRectangular = false) (counted : l.counted width = l) (pos : 0 < count)
    (location : Location) :
    (l.last location).eval env = some (stepped l.ascending first stride (count - 1)) := by
  obtain ⟨lower, upper⟩ := built.effective rectangular
  unfold LoopLevel.last
  split
  · rename_i v known
    cases runs.lastValue?_eq built rectangular known
    exact Expr.eval_ofInt (runs.inRange_last inRange pos) ..
  · have trip : l.tripCount.expr.eval env = some (count : Int) := by
      rw [← counted]
      exact LoopBounds.eval_tripCount (b := l.bounds) ((congrArg _ lower).trans runs.lower)
        ((congrArg _ upper).trans runs.upper) runs.step runs.trip width
    exact runs.eval_lastExpr inRange lower trip pos location

end RunsOver

end LoopLevel

/-- The covering range of a bound, over a level of a nest whose own bounds depend on no outer counter.
Let the loop of the level run, and let the bound be affine in its counter and have values in its first
and in its last iteration. Then it has values in all iterations, and the range reaches from the least
to the greatest of them, whether its ends are constant or chosen at run time. -/
theorem covering_encloses_bound {o : Options} {s : Stmt} {depth : Nat} {decls : DeclTable}
    {n : LoopNest} {l : LoopLevel} {env : Bindings} {e : Expr} {first bound stride x y : Int}
    {count : Nat} (canonical : (canonicalizeLoops o s depth decls).1 = .nest n) (hl : l ∈ n.levels)
    (rectangular : l.isNonRectangular = false) (affine : e.isAffineIn l.counter = true)
    (inRange : env.InRange) (runs : l.RunsOver env first bound stride count) (pos : 0 < count)
    (atFirst : e.eval (env.set l.counter first) = some x)
    (atLast : e.eval (env.set l.counter (stepped l.ascending first stride (count - 1))) = some y) :
    (l.covering e).Encloses env count
      (fun k => e.eval (env.set l.counter (stepped l.ascending first stride k))) (min x y) (max x y) := by
  obtain ⟨k, level⟩ := List.getElem?_of_mem hl
  obtain ⟨f, r, built⟩ := builtFrom_of_canonicalizeLoops canonical level
  have counted := counted_of_canonicalizeLoops canonical l hl
  have positive := (constantTripCount_eq_some runs.trip).1
  have lower : l.effectiveLower.eval env = some first := (built.effective rectangular).1 ▸ runs.lower
  have last := runs.eval_last inRange built rectangular counted pos e.location
  obtain ⟨least, greatest, minValue, maxValue⟩ := LoopLevel.eval_covering
    ((Expr.eval_substitute lower).trans atFirst) ((Expr.eval_substitute last).trans atLast)
  obtain ⟨a, c, -, values⟩ := Expr.eval_between affine atFirst atLast
  have reached {v : Int} (h : v = x ∨ v = y) :
      ∃ k < count, e.eval (env.set l.counter (stepped l.ascending first stride k)) = some v := by
    rcases h with rfl | rfl
    · exact ⟨0, pos, by rw [stepped_zero]; exact atFirst⟩
    · exact ⟨count - 1, Nat.sub_one_lt_of_lt pos, atLast⟩
  cases atFirst.symm.trans (values first (.left ..))
  cases atLast.symm.trans (values _ (.right ..))
  refine ⟨least, greatest, by omega, fun k hk => ?_, ?_, ?_, minValue, maxValue⟩
  · have between := between_stepped positive l.ascending first (Nat.le_sub_one_of_lt hk)
    refine ⟨_, values _ between, ?_⟩
    have := between.affine a c
    unfold Between at this
    omega
  · exact reached (by omega)
  · exact reached (by omega)

/-- The loop `for (i = first; i > last; i += -2)` from 7 down to what is greater than 1, and the bound
`2 * i + m` where `m` is 3. The range chooses its ends at run time, and they are 9 and 17. -/
theorem covering_encloses_bound_descending :
    ∃ (s : Stmt) (n : LoopNest) (l : LoopLevel) (e : Expr) (env : Bindings),
      (canonicalizeLoops {} s 1 (.integers ["i", "first", "last", "m"])).1 = .nest n ∧ l ∈ n.levels ∧
        l.lastValue? = none ∧ (l.covering e).minValue = none ∧
          (l.covering e).Encloses env 3
            (fun k => e.eval (env.set l.counter (stepped l.ascending 7 2 k))) 9 17 := by
  let s := Stmt.countingLoop ⟨0⟩ (.ofDecl ⟨1⟩ .int32 {}) .gt (.ofDecl ⟨2⟩ .int32 {}) (-2) (.null {})
  let e : Expr := .mkBinary .add (.mkBinary .mul (.ofInt 2 .int32 {}) (.ofDecl ⟨0⟩ .int32 {}))
    (.ofDecl ⟨3⟩ .int32 {})
  let env := ((Bindings.none.set ⟨1⟩ 7).set ⟨2⟩ 1).set ⟨3⟩ 3
  obtain ⟨n, canonical, l, hl, counter, rectangular, direction, last, minValue, lower, upper, step⟩ :
      ∃ n, (canonicalizeLoops {} s 1 (.integers ["i", "first", "last", "m"])).1 = .nest n ∧
        ∃ l ∈ n.levels, l.counter = ⟨0⟩ ∧ l.isNonRectangular = false ∧
          (l.subtract = true ∧ l.ascending = false ∧ l.strict = true) ∧ l.lastValue? = none ∧
            (l.covering e).minValue = none ∧ l.lower.eval env = some 7 ∧ l.upper.eval env = some 1 ∧
              l.step.eval env = some 2 :=
    NestOutcome.exists_of_decide _ (by decide +kernel)
  obtain ⟨subtract, ascending, strict⟩ := direction
  have inRange : env.InRange := by
    have none : Bindings.none.InRange := by
      intro d v hv
      cases hv
    have small {v : Int} (hv : 0 ≤ v ∧ v ≤ 7) : Wide.InRange v :=
      ⟨Int.le_trans (by decide) hv.1, Int.le_trans hv.2 (by decide)⟩
    exact ((none.set _ (small (by decide))).set _ (small (by decide))).set _ (small (by decide))
  have runs : l.RunsOver env 7 1 2 3 :=
    ⟨lower, upper, step, by rw [subtract, ascending]; rfl, by rw [ascending, strict]; rfl⟩
  have encloses := covering_encloses_bound (e := e) (x := 17) (y := 9) canonical hl rectangular
    (by rw [counter]; decide) inRange runs (by decide) (by rw [counter]; decide)
    (by rw [counter, ascending]; decide)
  exact ⟨s, n, l, e, env, canonical, hl, last, minValue, encloses⟩

end Directives
