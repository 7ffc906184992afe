import Directives.Proofs.NestPoint
/-!
Rectangular nests. Where no bound depends on an outer counter, every level runs as often as its
covering range says, and the flattened iterations are the iterations of the source, in their order.
-/

namespace Directives

section
variable {outer : List LoopLevel} {l : LoopLevel} {ll lg ul ug step : Int} {count : Nat}

/-- The bounds of a level without dependencies are constants. -/
theorem LoopLevel.Known.constants (known : l.Known outer ll lg ul ug step count)
    (rectangular : l.isNonRectangular = false) :
    (l.lower.constant? = some ll ∧ ll = lg) ∧ l.upper.constant? = some ul ∧ ul = ug := by
  have constant {e : Expr} {dependency : Option Nat} {x y : Int}
      (h : Bound outer e dependency x y) (none : dependency.isSome = false) :
      e.constant? = some x ∧ x = y := by
    cases h with
    | constant value => exact ⟨value, rfl⟩
    | affine => cases none
  obtain ⟨hlower, hupper⟩ := Bool.or_eq_false_iff.mp rectangular
  exact ⟨constant known.lower hlower, constant known.upper hupper⟩

theorem LoopLevel.Known.ownIterations_eq (known : l.Known outer ll lg ul ug step count)
    (rectangular : l.isNonRectangular = false) (env : Bindings) : l.ownIterations env = count := by
  obtain ⟨⟨hlower, rfl⟩, hupper, rfl⟩ := known.constants rectangular
  rw [ownIterations, ownLower, ownUpper, Expr.value_of_constant hlower,
    Expr.value_of_constant hupper, known.stride, Option.getD_some, Option.getD_some,
    known.spans.count_eq, ite_self, ite_self]

/-- Where no bound depends on an outer counter, the covering range is the loop's own. -/
theorem LoopLevel.Known.lt_ownIterations (known : l.Known outer ll lg ul ug step count)
    (rectangular : l.isNonRectangular = false) {f : ForHeader} {env : Bindings} {k : Nat}
    (within : l.Within f env k) : k < l.ownIterations env := by
  obtain ⟨count', hcount, hk⟩ := within
  cases known.spans.tripCount.symm.trans hcount
  rwa [known.ownIterations_eq rectangular]

theorem LoopLevel.Known.computable (known : l.Known outer ll lg ul ug step count)
    (rectangular : l.isNonRectangular = false) {f : ForHeader} {env : Bindings} {k : Nat}
    (within : l.Within f env k) : l.Computable f env k := by
  have hk := known.lt_ownIterations rectangular within
  obtain ⟨⟨hlower, rfl⟩, hupper, rfl⟩ := known.constants rectangular
  have inRange {e : Expr} {v : Int} (h : e.constant? = some v) : Wide.InRange v :=
    Expr.eval_inRange (by intro d v hv; cases hv) h
  refine ⟨by rw [Expr.eval_of_constant hlower]; rfl, ?_⟩
  exact known.inRange_ownValue (Expr.eval_of_constant hlower env)
    (Expr.eval_of_constant hupper env) (inRange hlower) (inRange hupper) hk

end

/-- The iterations of a rectangular nest are the digits of all flattened iterations. -/
theorem KnownNest.ownCells_eq {outer : List LoopLevel} {fs : List ForHeader} {ls : List LoopLevel}
    (nest : KnownNest outer fs ls) (rectangular : ∀ l ∈ ls, l.isNonRectangular = false)
    {counts : List Nat} (hcounts : ls.map (·.tripCount.value) = counts.map some)
    (env : Bindings) : ownCells ls env = (List.range (flatSize counts)).map (decode counts) := by
  induction nest generalizing counts env with
  | nil =>
    cases counts with
    | nil => rfl
    | cons => cases hcounts
  | @cons outer f r fs l ls ll lg ul ug step count level known fresh inner ih =>
    cases counts with
    | nil => cases hcounts
    | cons c counts =>
      obtain ⟨hc, hrest⟩ := List.cons.inj hcounts
      cases known.spans.tripCount.symm.trans hc
      obtain ⟨hl, hls⟩ := List.forall_mem_cons.mp rectangular
      simp only [ownCells, known.ownIterations_eq hl, ih hls hrest, map_decode_range_cons]

/-- A rectangular nest of loops that keep an order enumerates the iterations of the source: there
are as many as the total trip count says, and the flattened iterations lead to their counters one
after the other and to nothing else. -/
theorem rectangular_nest_enumerates {o : Options} {s : Stmt} {depth : Nat} {decls : DeclTable}
    {n : LoopNest} {count : Nat} (canonical : (canonicalizeLoops o s depth decls).1 = .nest n)
    (rectangular : ∀ l ∈ n.levels, l.isNonRectangular = false) (ordered : s.OrderedLoops depth)
    (distinct : (countersOf n.levels).Nodup) (total : n.total.value = some count)
    (env : Bindings) :
    ∃ points : List (List Int),
      (∀ q, s.Runs depth (countersOf n.levels) env q ↔ q = points) ∧
        points.length = count ∧ ∀ iv, n.point? iv = points[iv]? := by
  obtain ⟨fs, counts, flat, rfl⟩ := canonicalizeLoops_flattens canonical distinct total
  have points : (ownCells n.levels .none).map (ownPoint n.levels .none) =
      (List.range (flatSize counts)).map fun iv => ownPoint n.levels .none (decode counts iv) := by
    rw [flat.nest.ownCells_eq rectangular flat.tripCounts, List.map_map]
    rfl
  refine ⟨_, fun q => points ▸ flat.runs_iff ordered, by simp, fun iv => ?_⟩
  by_cases hiv : iv < flatSize counts
  · have within : Along LoopLevel.Within fs n.levels .none (decode counts iv) :=
      flat.within_iff.mpr (isDigits_decode hiv)
    have computable := flat.nest.along_imp (Bindings.knows_nil .none)
      (fun _ hl _ known _ within => known.computable (rectangular _ hl) within) within
    rw [flat.point?_eq_some.mpr ⟨hiv, rfl, computable⟩]
    simp [hiv]
  · have outside : n.point? iv = none := by
      rw [Option.eq_none_iff_forall_ne_some]
      exact fun p hp => hiv (flat.point?_eq_some.mp hp).1
    rw [outside]
    simp [Nat.le_of_not_lt hiv]

/-- Two loops, of which the outer one descends: the third iteration of the source has the counters
`1, 0`. -/
theorem rectangular_nest_enumerates_descending :
    ∃ (s : Stmt) (n : LoopNest) (points : List (List Int)),
      (canonicalizeLoops {} s 2 (.integers ["i", "j"])).1 = .nest n ∧
        s.Runs 2 (countersOf n.levels) .none points ∧ points.length = 4 ∧
          points[2]? = some [1, 0] := by
  let s := Stmt.countingLoop ⟨0⟩ (.ofInt 3 .int32 {}) .gt (.ofInt 0 .int32 {}) (-2)
    (.countingLoop ⟨1⟩ (.ofInt 0 .int32 {}) .le (.ofInt 1 .int32 {}) 1 (.null {}))
  obtain ⟨n, canonical, rectangular, distinct, total, third⟩ :
      ∃ n, (canonicalizeLoops {} s 2 (.integers ["i", "j"])).1 = .nest n ∧
        (∀ l ∈ n.levels, l.isNonRectangular = false) ∧ (countersOf n.levels).Nodup ∧
          n.total.value = some 4 ∧ n.point? 2 = some [1, 0] :=
    NestOutcome.exists_of_decide _ (by decide +kernel)
  have ordered : s.OrderedLoops 2 := .of_all rfl rfl
  obtain ⟨points, runs, length, visits⟩ :=
    rectangular_nest_enumerates canonical rectangular ordered distinct total .none
  exact ⟨s, n, points, canonical, (runs points).mpr rfl, length, (visits 2).symm.trans third⟩

end Directives
