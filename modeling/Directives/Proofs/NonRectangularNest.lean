import Directives.Proofs.RectangularNest
/-!
Nests with bounds that depend on outer counters. The flattened iterations find every iteration of
the source exactly if the covering ranges cover it. They do so where every level that others depend
on has a lower bound of its own or steps by one; where it steps further from a lower bound that
moves, its last value can lie beyond that of its covering range.
-/

namespace Directives

namespace LoopLevel

/-- The covering range of the level has the counter: it is less than the steps of the range away
from the lower bound, and both bounds have values of 128 bits. -/
def Covers (l : LoopLevel) (env : Bindings) : Prop :=
  ∃ v lower step count, env l.counter = some v ∧ l.lower.eval env = some lower ∧
    (l.upper.eval env).isSome = true ∧ l.stepValue = some step ∧ l.tripCount.value = some count ∧
      ((v - lower).natAbs : Int) < count * step

/-- Other levels can depend on the level: its values are among those of its covering range. -/
def IsSteady (l : LoopLevel) : Prop := l.lowerDependency = none ∨ l.stepValue = some 1

/-- A bound of the level depends on the outer level with the index. -/
def DependsOn (l : LoopLevel) (i : Nat) : Prop :=
  l.lowerDependency = some i ∨ l.upperDependency = some i

/-- The level covers its counter in the iteration. -/
def CoversAt (f : ForHeader) (l : LoopLevel) (env : Bindings) (k : Nat) : Prop :=
  l.Within f env k ∧ (l.lower.eval env).isSome = true ∧ (l.upper.eval env).isSome = true

end LoopLevel

section
variable {outer : List LoopLevel} {l : LoopLevel} {f : ForHeader} {ll lg ul ug step : Int}
  {count : Nat} {env env' : Bindings} {k : Nat}

theorem LoopLevel.Known.covers_iff (known : l.Known outer ll lg ul ug step count)
    (agree : env.AgreeOn (· ∈ countersOf outer) env')
    (hv : env' l.counter = some (l.ownValue env k)) : l.Covers env' ↔ l.CoversAt f env k := by
  have hpos := known.spans.step_pos
  have hlower : l.lower.eval env' = l.lower.eval env := known.lower.determined agree
  have hupper : l.upper.eval env' = l.upper.eval env := known.upper.determined agree
  constructor
  · rintro ⟨v, lower, step', count', hv', hl, hu, hstep, hcount, hlt⟩
    rw [hv] at hv'
    cases hv'
    rw [known.spans.stepValue] at hstep
    cases hstep
    have hown : l.ownLower env = lower := by
      rw [ownLower, Expr.value_of_eval (hlower ▸ hl), Option.getD_some]
    rw [← hown, known.natAbs_ownValue] at hlt
    refine ⟨⟨count', hcount, ?_⟩, by rw [← hlower, hl]; rfl, hupper ▸ hu⟩
    exact Int.ofNat_lt.mp (Int.lt_of_mul_lt_mul_right hlt (Int.le_of_lt hpos))
  · rintro ⟨⟨count', hcount, hk⟩, hl, hu⟩
    obtain ⟨lower, hl⟩ := Option.isSome_iff_exists.mp hl
    have hown : l.ownLower env = lower := by
      rw [ownLower, Expr.value_of_eval hl, Option.getD_some]
    refine ⟨_, lower, step, count', hv, hlower.trans hl, hupper ▸ hu, known.spans.stepValue, hcount,
      ?_⟩
    rw [← hown, known.natAbs_ownValue]
    exact Int.mul_lt_mul_of_pos_right (Int.ofNat_lt.mpr hk) hpos

/-- Where an iteration is accepted, the upper bound has a value of 128 bits. -/
theorem LoopLevel.Known.upper_isSome (known : l.Known outer ll lg ul ug step count)
    (accepted : l.Accepted f env k) : (l.upper.eval env).isSome = true := by
  cases rectangular : l.isNonRectangular with
  | true => exact (accepted rectangular).1
  | false =>
    rw [Expr.eval_of_constant (known.constants rectangular).2.1 env]
    rfl

/-- A loop that keeps an order accepts its own iterations. -/
theorem LoopLevel.Known.accepted {r : Relation} (known : l.Known outer ll lg ul ug step count)
    (built : l.BuiltFrom f r outer) (knows : env.Knows outer) (ordered : f.cond.isOrdering = true)
    (hk : k < l.ownIterations env) (hu : (l.upper.eval env).isSome = true) :
    l.Accepted f env k := by
  intro _
  refine ⟨hu, ((known.counts built knows .refl).test _).trans (congrArg some ?_)⟩
  rw [built.read.order (built.read.isOrdering.mp ordered)]
  exact (holds_stepped_iff (known.stride ▸ known.spans.step_pos) k).mpr hk

end

/-- The values of all variables are in range. -/
def Bindings.InRange (env : Bindings) : Prop := ∀ d v, env d = some v → Wide.InRange v

theorem Bindings.InRange.set {env : Bindings} (h : env.InRange) (d : DeclId) {v : Int}
    (hv : Wide.InRange v) : (env.set d v).InRange := by
  intro x w hw
  by_cases hx : x = d
  · rw [hx, set_self] at hw
    cases hw
    exact hv
  · rw [set_of_ne _ _ hx] at hw
    exact h x w hw

section
variable {outer : List LoopLevel} {fs : List ForHeader} {ls : List LoopLevel} {env : Bindings}
  {ks : List Nat}

/-- Iterations that are covered have counters of 128 bits. -/
theorem KnownNest.computable_of_covers (nest : KnownNest outer fs ls) (inRange : env.InRange)
    (own : Along (fun _ l env k => k < l.ownIterations env) fs ls env ks)
    (covers : Along LoopLevel.CoversAt fs ls env ks) : Along LoopLevel.Computable fs ls env ks := by
  induction nest generalizing env ks with
  | nil => exact along_nil_iff.mpr (along_nil_iff.mp own)
  | @cons outer f r fs l ls ll lg ul ug step count level known fresh inner ih =>
    obtain ⟨k, ks, rfl, hk, own⟩ := along_cons_iff.mp own
    obtain ⟨⟨-, hlower, hupper⟩, covers⟩ := covers
    obtain ⟨lower, hl⟩ := Option.isSome_iff_exists.mp hlower
    obtain ⟨upper, hu⟩ := Option.isSome_iff_exists.mp hupper
    have hvalue := known.inRange_ownValue hl hu (Expr.eval_inRange inRange hl)
      (Expr.eval_inRange inRange hu) hk
    exact ⟨⟨hlower, hvalue⟩, ih (inRange.set l.counter hvalue) own covers⟩

/-- The counters on which a level can depend are in their hulls. -/
def Bindings.Steady (env : Bindings) (outer : List LoopLevel) : Prop :=
  ∀ m ∈ outer, m.IsSteady → ∃ v, env m.counter = some v ∧ m.Hull v

end

namespace LoopLevel.Known

variable {outer : List LoopLevel} {l : LoopLevel} {f : ForHeader} {ll lg ul ug step : Int}
  {count : Nat} {env : Bindings} {k : Nat}

/-- A bound that depends on steady levels only lies between its covering values. -/
theorem bounds_of_steady (known : l.Known outer ll lg ul ug step count) (steady : env.Steady outer)
    (depends : ∀ i m, l.DependsOn i → outer[i]? = some m → m.IsSteady) :
    (∃ v, l.lower.eval env = some v ∧ ll ≤ v ∧ v ≤ lg) ∧
      ∃ v, l.upper.eval env = some v ∧ ul ≤ v ∧ v ≤ ug := by
  constructor
  · exact known.lower.eval_of_hull fun i m hi hm =>
      steady m (List.mem_of_getElem? hm) (depends i m (.inl hi) hm)
  · exact known.upper.eval_of_hull fun i m hi hm =>
      steady m (List.mem_of_getElem? hm) (depends i m (.inr hi) hm)

/-- A loop with bounds between their covering values runs no more often than its covering range
says. -/
theorem lt_count_of_steady (known : l.Known outer ll lg ul ug step count)
    (steady : env.Steady outer) (depends : ∀ i m, l.DependsOn i → outer[i]? = some m → m.IsSteady)
    (hk : k < l.ownIterations env) : k < count := by
  obtain ⟨⟨lower, hl, hll, hlg⟩, upper, hu, hul, hug⟩ := known.bounds_of_steady steady depends
  rw [ownIterations, ownLower, ownUpper, Expr.value_of_eval hl, Expr.value_of_eval hu, known.stride,
    Option.getD_some, Option.getD_some] at hk
  rw [known.spans.count_eq]
  refine Nat.lt_of_lt_of_le hk (iterations_le known.spans.step_pos ?_ ?_)
  · split <;> assumption
  · split <;> assumption

theorem coversAt_of_steady (known : l.Known outer ll lg ul ug step count)
    (steady : env.Steady outer) (depends : ∀ i m, l.DependsOn i → outer[i]? = some m → m.IsSteady)
    (hk : k < l.ownIterations env) : l.CoversAt f env k := by
  obtain ⟨⟨lower, hl, -⟩, upper, hu, -⟩ := known.bounds_of_steady steady depends
  exact ⟨⟨count, known.spans.tripCount, known.lt_count_of_steady steady depends hk⟩,
    by rw [hl]; rfl, by rw [hu]; rfl⟩

/-- The values of a steady level are values of its covering range. -/
theorem stepped_of_steady (known : l.Known outer ll lg ul ug step count)
    (steady : env.Steady outer) (depends : ∀ i m, l.DependsOn i → outer[i]? = some m → m.IsSteady)
    (isSteady : l.IsSteady) (hk : k < l.ownIterations env) :
    ∃ j < count, l.ownValue env k =
      stepped l.ascending (if l.ascending then ll else lg) step j := by
  obtain ⟨⟨lower, hl, hll, hlg⟩, upper, hu, hul, hug⟩ := known.bounds_of_steady steady depends
  have hvalue : l.ownValue env k = stepped l.ascending lower step k := by
    rw [ownValue, ownLower, Expr.value_of_eval hl, Option.getD_some, known.stride]
  rcases isSteady with independent | one
  · have hends : ll = lg := by
      have hbound := known.lower
      rw [independent] at hbound
      cases hbound
      rfl
    refine ⟨k, known.lt_count_of_steady steady depends hk, hvalue.trans ?_⟩
    rw [← hends, ite_self, show lower = ll by omega]
  -- in steps of one, the way from the covering range's first value is one of whole steps
  · cases known.spans.stepValue.symm.trans one
    have hk' : k < iterations lower upper 1 l.ascending l.strict := by
      rw [ownIterations, ownLower, ownUpper, Expr.value_of_eval hl, Expr.value_of_eval hu,
        known.stride, Option.getD_some, Option.getD_some] at hk
      exact hk
    rw [lt_iterations_iff Int.zero_lt_one] at hk'
    have towards : 0 ≤ if l.ascending then lower - ll else lg - lower := by
      split <;> omega
    obtain ⟨j, distance⟩ := Int.eq_ofNat_of_zero_le towards
    have start : stepped l.ascending (if l.ascending then ll else lg) 1 j = lower := by
      rw [stepped, ← distance]
      cases l.ascending <;> simp only [Bool.false_eq_true, ↓reduceIte] <;> omega
    refine ⟨j + k, ?_, ?_⟩
    · rw [known.spans.count_eq, lt_iterations_iff Int.zero_lt_one, Int.natCast_add, ← distance]
      cases ha : l.ascending <;> simp only [ha] at hk' ⊢ <;> simp at hk' ⊢ <;> omega
    · rw [hvalue, ← stepped_add, start]

/-- The values of a steady level are in its hull. -/
theorem hull_of_steady (known : l.Known outer ll lg ul ug step count) (steady : env.Steady outer)
    (depends : ∀ i m, l.DependsOn i → outer[i]? = some m → m.IsSteady)
    (isSteady : l.IsSteady) (hk : k < l.ownIterations env) : l.Hull (l.ownValue env k) := by
  obtain ⟨j, hj, hvalue⟩ := known.stepped_of_steady steady depends isSteady hk
  refine ⟨_, _, known.spans.effectiveLower, known.spans.lastValue?, ?_⟩
  have hpos := known.spans.step_pos
  have hmono : (j : Int) * step ≤ (count - 1 : Nat) * step :=
    Int.mul_le_mul_of_nonneg_right (by omega) (Int.le_of_lt hpos)
  have hnonneg : 0 ≤ (j : Int) * step := Int.mul_nonneg (Int.natCast_nonneg j) (Int.le_of_lt hpos)
  rw [hvalue]
  unfold Between stepped
  cases l.ascending <;> simp <;> omega

end LoopLevel.Known

/-- What a level depends on is steady. -/
def LoopNest.IsSteady (n : LoopNest) : Prop :=
  ∀ l ∈ n.levels, ∀ i m, l.DependsOn i → n.levels[i]? = some m → m.IsSteady

/-- In a steady nest the levels cover all iterations of their own. -/
theorem KnownNest.covers_of_steady {outer : List LoopLevel} {fs : List ForHeader}
    {ls : List LoopLevel} {env : Bindings} {ks : List Nat} (nest : KnownNest outer fs ls)
    (depends : ∀ l ∈ ls, ∀ i m, l.DependsOn i → (outer ++ ls)[i]? = some m → m.IsSteady)
    (steady : env.Steady outer)
    (own : Along (fun _ l env k => k < l.ownIterations env) fs ls env ks) :
    Along LoopLevel.CoversAt fs ls env ks := by
  induction nest generalizing env ks with
  | nil => exact along_nil_iff.mpr (along_nil_iff.mp own)
  | @cons outer f r fs l ls ll lg ul ug step count level known fresh inner ih =>
    obtain ⟨k, ks, rfl, hk, own⟩ := along_cons_iff.mp own
    have here (i : Nat) (m : LoopLevel) (hi : l.DependsOn i) (hm : outer[i]? = some m) :
        m.IsSteady :=
      depends l List.mem_cons_self i m hi (List.getElem?_append_left
        (List.getElem?_eq_some_iff.mp hm).1 ▸ hm)
    refine ⟨known.coversAt_of_steady steady here hk, ih ?_ ?_ own⟩
    · rw [List.append_assoc]
      exact fun m hm => depends m (List.mem_cons_of_mem _ hm)
    · intro m hm isSteady
      rcases List.mem_append.mp hm with hm | hm
      · obtain ⟨v, hv, hull⟩ := steady m hm isSteady
        refine ⟨v, ?_, hull⟩
        rw [Bindings.set_of_ne, hv]
        exact fun same => fresh (same ▸ List.mem_map_of_mem hm)
      · cases List.mem_singleton.mp hm
        exact ⟨_, Bindings.set_self .., known.hull_of_steady steady here isSteady hk⟩

/-- The flattened iterations come to all of the points, in their order, and the conditions that are
tested again accept them. -/
def LoopNest.Enumerates (n : LoopNest) (points : List (List Int)) : Prop :=
  ∃ ivs : List Nat, ivs.Pairwise (· < ·) ∧ (∀ iv ∈ ivs, n.total.value.any (iv < ·)) ∧
    ivs.map n.point? = points.map some ∧ ∀ p ∈ points, n.accepts? p = some true

namespace LoopNest.Flattens

variable {n : LoopNest} {s : Stmt} {depth : Nat} {fs : List ForHeader} {counts : List Nat}

/-- The levels cover their counters in a point if they cover them along the iterations. -/
theorem covers_iff (flat : n.Flattens s depth fs counts) {env : Bindings}
    {P : ForHeader → LoopLevel → Bindings → Nat → Prop} {ks : List Nat}
    (along : Along P fs n.levels env ks) :
    (∀ l ∈ n.levels, l.Covers (n.bindings (ownPoint n.levels env ks))) ↔
      Along LoopLevel.CoversAt fs n.levels env ks :=
  flat.forall_iff (fun _ known _ agree hv => known.covers_iff agree hv) along

/-- An iteration of the source that is covered is found by its number, and accepted. -/
theorem found_of_covers (flat : n.Flattens s depth fs counts) (ordered : s.OrderedLoops depth)
    {ks : List Nat} (own : ks ∈ ownCells n.levels .none)
    (covers : Along LoopLevel.CoversAt fs n.levels .none ks) :
    IsDigits counts ks ∧ n.point? (encode counts ks) = some (ownPoint n.levels .none ks) ∧
      n.accepts? (ownPoint n.levels .none ks) = some true := by
  have own := flat.nest.mem_ownCells.mp own
  have inRange : Bindings.none.InRange := by intro d v hv; cases hv
  have within : Along LoopLevel.Within fs n.levels .none ks :=
    flat.nest.along_imp (Bindings.knows_nil _) (fun _ _ _ _ _ h => h.1) covers
  have digits := flat.within_iff.mp within
  refine ⟨digits, ?_, (flat.accepts?_eq_some_true covers).mpr ?_⟩
  · refine flat.point?_eq_some.mpr ⟨encode_lt digits, ?_⟩
    rw [decode_encode digits]
    exact ⟨rfl, flat.nest.computable_of_covers inRange own covers⟩
  · exact flat.nest.along_imp (Bindings.knows_nil _) (fun hf _ built known knows h =>
      known.accepted built knows (ordered fs flat.loops _ hf) h.1 h.2.2.2)
      (flat.nest.along_and own covers)

/-- An iteration of the source that is found and accepted is covered. -/
theorem covers_of_found (flat : n.Flattens s depth fs counts) {ks : List Nat}
    (own : ks ∈ ownCells n.levels .none) {iv : Nat}
    (point : n.point? iv = some (ownPoint n.levels .none ks))
    (accepted : n.accepts? (ownPoint n.levels .none ks) = some true) :
    Along LoopLevel.CoversAt fs n.levels .none ks := by
  have own := flat.nest.mem_ownCells.mp own
  obtain ⟨hiv, same, computable⟩ := flat.point?_eq_some.mp point
  have hks := flat.nest.ownPoint_injective own computable same
  subst hks
  have within : Along LoopLevel.Within fs n.levels .none (decode counts iv) :=
    flat.within_iff.mpr (isDigits_decode hiv)
  have accepted := (flat.accepts?_eq_some_true own).mp accepted
  exact flat.nest.along_imp (Bindings.knows_nil _) (fun _ _ _ known _ h =>
    ⟨h.1.1, h.1.2.1, known.upper_isSome h.2⟩)
    (flat.nest.along_and (flat.nest.along_and within computable) accepted)

end LoopNest.Flattens

/-- A nest of loops that keep an order loses no iteration of the source, and keeps their order,
exactly if its levels cover the counters of every iteration. Steady nests do. -/
theorem nest_enumerates_iff {o : Options} {s : Stmt} {depth : Nat} {decls : DeclTable}
    {n : LoopNest} {count : Nat} (canonical : (canonicalizeLoops o s depth decls).1 = .nest n)
    (ordered : s.OrderedLoops depth) (distinct : (countersOf n.levels).Nodup)
    (total : n.total.value = some count) (env : Bindings) :
    ∃ points : List (List Int),
      (∀ q, s.Runs depth (countersOf n.levels) env q ↔ q = points) ∧
        (n.Enumerates points ↔ ∀ p ∈ points, ∀ l ∈ n.levels, l.Covers (n.bindings p)) ∧
          (n.IsSteady → n.Enumerates points) := by
  obtain ⟨fs, counts, flat, rfl⟩ := canonicalizeLoops_flattens canonical distinct total
  have cell {ks : List Nat} (own : ks ∈ ownCells n.levels .none) := flat.nest.mem_ownCells.mp own
  have enumerates (covers : ∀ ks ∈ ownCells n.levels .none,
      Along LoopLevel.CoversAt fs n.levels .none ks) :
      n.Enumerates ((ownCells n.levels .none).map (ownPoint n.levels .none)) := by
    have found {ks} (own : ks ∈ ownCells n.levels .none) :=
      flat.found_of_covers ordered own (covers ks own)
    refine ⟨(ownCells n.levels .none).map (encode counts), ?_, ?_, ?_, ?_⟩
    · rw [List.pairwise_map]
      refine (KnownNest.pairwise_ownCells n.levels .none).imp_of_mem fun hks hjs h => ?_
      exact encode_lt_encode (found hks).1 (found hjs).1 h
    · rw [List.forall_mem_map, flat.total]
      exact fun ks own => decide_eq_true (encode_lt (found own).1)
    · rw [List.map_map, List.map_map]
      exact List.map_congr_left fun ks own => (found own).2.1
    · rw [List.forall_mem_map]
      exact fun ks own => (found own).2.2
  refine ⟨_, fun q => flat.runs_iff ordered, ⟨?_, ?_⟩, ?_⟩
  · rintro ⟨ivs, -, -, points, accepted⟩
    rw [List.forall_mem_map] at accepted ⊢
    intro ks own
    have hmem : some (ownPoint n.levels .none ks) ∈ ivs.map n.point? := by
      rw [points]
      exact List.mem_map_of_mem (List.mem_map_of_mem own)
    obtain ⟨iv, -, point⟩ := List.mem_map.mp hmem
    exact (flat.covers_iff (cell own)).mpr (flat.covers_of_found own point (accepted ks own))
  · rw [List.forall_mem_map]
    exact fun covers => enumerates fun ks own => (flat.covers_iff (cell own)).mp (covers ks own)
  · intro steady
    refine enumerates fun ks own => flat.nest.covers_of_steady steady ?_ (cell own)
    intro m hm
    cases hm

/-- A triangle, in which the inner loop starts at the outer counter. -/
theorem nest_enumerates_iff_triangle :
    ∃ (s : Stmt) (n : LoopNest) (points : List (List Int)),
      (canonicalizeLoops {} s 2 (.integers ["i", "j"])).1 = .nest n ∧
        s.Runs 2 (countersOf n.levels) .none points ∧ n.Enumerates points := by
  let s := Stmt.countingLoop ⟨0⟩ (.ofInt 0 .int32 {}) .lt (.ofInt 3 .int32 {}) 1
    (.countingLoop ⟨1⟩ (.ofDecl ⟨0⟩ .int32 {}) .lt (.ofInt 3 .int32 {}) 1 (.null {}))
  obtain ⟨n, canonical, distinct, total, steps⟩ :
      ∃ n, (canonicalizeLoops {} s 2 (.integers ["i", "j"])).1 = .nest n ∧
        (countersOf n.levels).Nodup ∧ n.total.value = some 9 ∧
          ∀ l ∈ n.levels, l.stepValue = some 1 :=
    NestOutcome.exists_of_decide _ (by decide +kernel)
  have ordered : s.OrderedLoops 2 := .of_all rfl rfl
  obtain ⟨points, runs, -, steady⟩ := nest_enumerates_iff canonical ordered distinct total .none
  refine ⟨s, n, points, canonical, (runs points).mpr rfl, steady ?_⟩
  exact fun l _ i m _ hm => .inr (steps m (List.mem_of_getElem? hm))

/-- The loops `for (i = 0; i < 2; i++) for (j = i; j < 4; j += 2) for (k = 0; k < j; k++)`. The
covering range of `j` is 0 and 2, so that `k` has two iterations in it; but `j` comes to 3. -/
theorem nest_loses_iteration :
    ∃ (s : Stmt) (n : LoopNest) (points : List (List Int)),
      (canonicalizeLoops {} s 3 (.integers ["i", "j", "k"])).1 = .nest n ∧ s.OrderedLoops 3 ∧
        (countersOf n.levels).Nodup ∧ n.total.value = some 8 ∧
          s.Runs 3 (countersOf n.levels) .none points ∧ [1, 3, 2] ∈ points ∧
            ∀ iv, n.point? iv ≠ some [1, 3, 2] := by
  let s := Stmt.countingLoop ⟨0⟩ (.ofInt 0 .int32 {}) .lt (.ofInt 2 .int32 {}) 1
    (.countingLoop ⟨1⟩ (.ofDecl ⟨0⟩ .int32 {}) .lt (.ofInt 4 .int32 {}) 2
      (.countingLoop ⟨2⟩ (.ofInt 0 .int32 {}) .lt (.ofDecl ⟨1⟩ .int32 {}) 1 (.null {})))
  obtain ⟨n, canonical, distinct, total, own, missing⟩ :
      ∃ n, (canonicalizeLoops {} s 3 (.integers ["i", "j", "k"])).1 = .nest n ∧
        (countersOf n.levels).Nodup ∧ n.total.value = some 8 ∧
          [1, 3, 2] ∈ (ownCells n.levels .none).map (ownPoint n.levels .none) ∧
            some [1, 3, 2] ∉ (List.range 8).map n.point? :=
    NestOutcome.exists_of_decide _ (by decide +kernel)
  have ordered : s.OrderedLoops 3 := .of_all rfl rfl
  obtain ⟨fs, counts, flat, hcount⟩ := canonicalizeLoops_flattens canonical distinct total
  refine ⟨s, n, _, canonical, ordered, distinct, total, (flat.runs_iff ordered).mpr rfl, own,
    fun iv point => missing (point ▸ List.mem_map_of_mem (List.mem_range.mpr ?_))⟩
  rw [hcount]
  exact (flat.point?_eq_some.mp point).1

end Directives
