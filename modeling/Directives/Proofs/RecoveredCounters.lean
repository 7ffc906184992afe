import Directives.Proofs.CountOperands
import Directives.Proofs.IterationNumbers
import Directives.Proofs.NormalForm
/-!
The expressions from which the counters of a nest are recovered. From the induction variable and the
counters outside, the expression of a level computes the counter that the flattened iteration has there.
The way down the levels leaves an expression for what is left of the iteration; it and every divisor
have the values that are calculated with numbers, as no product of inner trip counts is greater than
the total.
-/

namespace Directives

/-! ## Calculation with numbers in range -/

namespace Wide

theorem inRange_natCast {n : Nat} (h : (n : Int) ≤ greatest) : InRange n :=
  ⟨Int.le_trans (by decide) (Int.natCast_nonneg n), h⟩

variable {a b : Nat}

theorem div_natCast (hb : 0 < b) (ha : (a : Int) ≤ greatest) :
    div a b = some ((a / b : Nat) : Int) := by
  have quotient : ((a / b : Nat) : Int) ≤ greatest :=
    Int.le_trans (Int.ofNat_le.mpr (Nat.div_le_self a b)) ha
  rw [div, if_neg (by omega)]
  exact check_of_inRange (inRange_natCast quotient)

theorem rem_natCast (hb : 0 < b) (ha : (a : Int) ≤ greatest) :
    rem a b = some ((a % b : Nat) : Int) := by
  rw [rem, div_natCast hb ha]
  rfl

theorem mul_natCast (h : ((a * b : Nat) : Int) ≤ greatest) : mul a b = some ((a * b : Nat) : Int) :=
  check_of_inRange (inRange_natCast h)

end Wide

/-! ## Divisors -/

/-- A product of trip counts has the product of their values, where this is in range. -/
theorem TripCount.constant?_product {trips : List TripCount} {counts : List Nat}
    (known : List.Forall₂ (fun t c => t.expr.constant? = some ((c : Nat) : Int)) trips counts)
    (pos : 0 < flatSize counts) (small : (flatSize counts : Int) ≤ Wide.greatest) (width : Nat) :
    (product trips width).expr.constant? = some (flatSize counts : Int) := by
  -- A product on the way is not greater than the last, because the factors to come are positive.
  have go {trips : List TripCount} {counts : List Nat} (ty : Ty)
      (known : List.Forall₂ (fun t c => t.expr.constant? = some ((c : Nat) : Int)) trips counts)
      (pos : 0 < flatSize counts) : ∀ {e : Expr} {a : Nat}, e.constant? = some (a : Int) →
        ((a * flatSize counts : Nat) : Int) ≤ Wide.greatest →
        (trips.foldl (fun acc t => .arith .mul acc t.expr ty) e).constant? =
          some ((a * flatSize counts : Nat) : Int) := by
    induction known with
    | nil =>
      intro e a he _
      rw [List.foldl_nil, he, flatSize, Nat.mul_one]
    | @cons t c trips counts ht _ ih =>
      intro e a he hle
      rw [flatSize] at pos hle ⊢
      rw [← Nat.mul_assoc] at hle ⊢
      have hpos := Nat.pos_of_mul_pos_left pos
      have first : ((a * c : Nat) : Int) ≤ Wide.greatest :=
        Int.le_trans (Int.ofNat_le.mpr (Nat.le_mul_of_pos_right _ hpos)) hle
      exact ih hpos ((Expr.eval_arith he ht .mul ty).trans (Wide.mul_natCast first)) hle
  cases known with
  | nil => rfl
  | @cons t c trips counts ht rest =>
    have value := go (.ofInt (productType (t :: trips) width)) rest (Nat.pos_of_mul_pos_left pos) ht small
    exact (Expr.evalIn_castTo ..).trans value

namespace LoopLevel

variable {l : LoopLevel} {first bound step : Int} {count width : Nat}

/-- The trip count and the step of the level are constants, as expressions too. -/
structure IsConstant (l : LoopLevel) (count : Nat) : Prop where
  tripCount : l.tripCount.value = some count
  expression : l.tripCount.expr.constant? = some (count : Int)
  step : l.step.constant? = l.stepValue

theorem Spans.isConstant (h : l.Spans first bound step count) (counted : l.counted width = l) :
    l.IsConstant count where
  tripCount := h.tripCount
  expression := by
    rw [← counted]
    change (l.bounds.tripCount width).expr.eval .none = some (count : Int)
    refine LoopBounds.eval_tripCount ?_ ?_ ?_ h.trip width
    · exact h.effectiveLower
    · exact h.effectiveUpper
    · exact h.constantStep
  step := h.constantStep.trans h.stepValue.symm

end LoopLevel

section
variable {ls : List LoopLevel} {counts : List Nat}

theorem values_of_isConstant (constant : List.Forall₂ LoopLevel.IsConstant ls counts) :
    ls.map (·.tripCount.value) = counts.map some := by
  induction constant with
  | nil => rfl
  | cons level _ ih => rw [List.map_cons, List.map_cons, level.tripCount, ih]

/-- The divisor in front of levels, as an expression in the type of the induction variable. -/
theorem constant?_divisor (constant : List.Forall₂ LoopLevel.IsConstant ls counts)
    (pos : 0 < flatSize counts) (small : (flatSize counts : Int) ≤ Wide.greatest) (width : Nat) (ty : Ty)
    (location : Location) :
    (if ls.isEmpty then Expr.ofInt 1 ty location
      else (TripCount.product (ls.map (·.tripCount)) width).expr.castTo ty).constant? =
      some (flatSize counts : Int) := by
  have product := TripCount.constant?_product
    (List.forall₂_map_left_iff.mpr (constant.imp fun _ _ level => level.expression)) pos small width
  cases constant with
  | nil => rfl
  | cons => exact (Expr.evalIn_castTo ..).trans product

end

/-! ## The rows of the recovery -/

/-- The counter has this value where the row is evaluated, and the divisor has the value that is recorded
for it. -/
structure IndexRecovery.Finds (r : IndexRecovery) (env : Bindings) (v : Int) : Prop where
  counter : r.counterValue.eval env = some v
  divisor : ∃ d, r.divisorValue = some d ∧ r.divisor.eval env = some (d : Int)

/-- In further bindings, the lower bound and the steps from it come to the counter in an iteration. -/
theorem LoopLevel.eval_counterValue {l : LoopLevel} {outside env : Bindings} {i : ExprInfo} {ty : Ty}
    {index : Expr} {k : Nat} {v : Int} (step : l.step.constant? = l.stepValue)
    (further : ∀ d w, outside d = some w → env d = some w) (iteration : index.eval env = some (k : Int))
    (value : l.counterValue? outside k = some v) :
    (Expr.binary i l.stepOp l.lower (.arith .mul index l.step ty)).eval env = some v := by
  simp only [counterValue?, Option.bind_eq_bind, Option.bind_eq_some_iff] at value
  obtain ⟨lower, hlower, stride, hstride, _, hk, offset, hoffset, hv⟩ := value
  obtain ⟨rfl, -⟩ := Wide.check_eq_some.mp hk
  have start : l.lower.eval env = some lower := Expr.evalIn_mono (.refl _) further hlower
  have way : (Expr.arith .mul index l.step ty).eval env = some offset :=
    (Expr.eval_arith iteration (Expr.eval_of_constant (step.trans hstride) env) .mul ty).trans hoffset
  change ((l.lower.eval env).bind fun x =>
    ((Expr.arith .mul index l.step ty).eval env).bind fun y => l.stepOp.apply x y) = some v
  rw [start, way]
  exact hv

/-- Below outer levels whose counters have values, each row finds the counter of its level from an
expression for what the outer levels left of the iteration. -/
theorem recoveryFrom_finds {width : Nat} {ty : Ty} {location : Location} {var : DeclId} {whole : Int}
    {ls : List LoopLevel} {counts : List Nat} (constant : List.Forall₂ LoopLevel.IsConstant ls counts)
    (pos : 0 < flatSize counts) (small : (flatSize counts : Int) ≤ Wide.greatest) {level m : Nat}
    {remainder : Expr} {pairs : List (DeclId × Int)} {q : List Int} (below : m < flatSize counts)
    (left : ∀ env, env var = some whole → remainder.eval env = some (m : Int))
    (found : countersFrom pairs (ls.zip (decode counts m)) = some q) :
    ∀ k < ls.length, ∃ r v, (recoveryFrom width ty location level remainder ls)[k]? = some r ∧
      q[k]? = some v ∧ ∀ env, env var = some whole →
        (∀ d w, Bindings.ofList (pairs ++ ((countersOf ls).zip q).take k) d = some w → env d = some w) →
          r.Finds env v := by
  induction constant generalizing level m remainder pairs q with
  | nil =>
    intro k hk
    cases hk
  | @cons l c ls counts here inside ih =>
    rw [flatSize] at pos small below
    have hpos := Nat.pos_of_mul_pos_left pos
    have fewer : (flatSize counts : Int) ≤ Wide.greatest :=
      Int.le_trans (Int.ofNat_le.mpr (Nat.le_mul_of_pos_left _ (Nat.pos_of_mul_pos_right pos))) small
    have inRange : (m : Int) ≤ Wide.greatest :=
      Int.le_trans (Int.ofNat_le.mpr (Nat.le_of_lt below)) small
    have value : TripCount.productValue (ls.map (·.tripCount)) = some (flatSize counts) := by
      refine TripCount.productValue_of_counts ?_ hpos ?_
      · rw [List.map_map]
        exact values_of_isConstant inside
      · exact Int.ofNat_le.mp (Int.le_trans fewer (by decide))
    have divisor := constant?_divisor inside hpos fewer width ty location
    simp only [decode, List.zip_cons_cons, countersFrom, Option.bind_eq_bind, Option.bind_eq_some_iff,
      Option.map_eq_some_iff] at found
    obtain ⟨v, hv, q, hq, rfl⟩ := found
    rw [recoveryFrom]
    generalize (if ls.isEmpty then Expr.ofInt 1 ty location
      else (TripCount.product (ls.map (·.tripCount)) width).expr.castTo ty) = d at divisor ⊢
    have divided (env : Bindings) (is : env var = some whole) (op : BinaryOp) :
        (Expr.arith op remainder d ty).eval env = op.apply m (flatSize counts) :=
      Expr.eval_arith (left env is) (Expr.eval_of_constant divisor env) op ty
    intro k hk
    cases k with
    | zero =>
      refine ⟨_, v, rfl, rfl, fun env is further => ⟨?_, _, value, Expr.eval_of_constant divisor env⟩⟩
      refine LoopLevel.eval_counterValue here.step (fun x w hx => further x w ?_)
        ((divided env is .div).trans (Wide.div_natCast hpos inRange)) hv
      rw [List.take_zero, List.append_nil]
      exact hx
    | succ k =>
      obtain ⟨r, w, hr, hw, finds⟩ := ih hpos fewer (Nat.mod_lt m hpos)
        (fun env is => (divided env is .rem).trans (Wide.rem_natCast hpos inRange)) hq k
        (Nat.lt_of_succ_lt_succ hk)
      refine ⟨r, w, hr, hw, fun env is further => finds env is fun x u hx => further x u ?_⟩
      rw [List.append_assoc, List.singleton_append] at hx
      exact hx

/-! ## Nests -/

namespace LoopNest

/-- The induction variable in a flattened iteration, and the counters of a point that belong to the
levels outside the level `k`. -/
def outside (n : LoopNest) (iv : Nat) (p : List Int) (k : Nat) : Bindings :=
  .ofList ((n.inductionVar, (iv : Int)) :: ((countersOf n.levels).zip p).take k)

end LoopNest

section
variable {o : Options} {s : Stmt} {depth : Nat} {decls : DeclTable} {n : LoopNest}

/-- The induction variable is declared after all counters. -/
theorem inductionVar_notMem_countersOf (canonical : (canonicalizeLoops o s depth decls).1 = .nest n) :
    n.inductionVar ∉ countersOf n.levels := by
  obtain ⟨t, declared, last⟩ := (canonicalizeLoops_ends_canonical depth).exists_of_nest canonical
  have next : n.inductionVar = t.nextId := congrArg (fun r => r.1.inductionVar) last
  intro h
  obtain ⟨l, hl, same⟩ := List.mem_map.mp h
  have earlier := DeclTable.lt_of_typed (declared l hl).declared
  rw [same, next] at earlier
  exact Nat.lt_irrefl _ earlier

theorem isConstant_levels (canonical : (canonicalizeLoops o s depth decls).1 = .nest n)
    {counts : List Nat} (known : n.levels.map (·.tripCount.value) = counts.map some) :
    List.Forall₂ LoopLevel.IsConstant n.levels counts := by
  have counted := counted_of_canonicalizeLoops canonical
  have constant : ∀ l ∈ n.levels, ∀ c, l.tripCount.value = some c → l.IsConstant c := by
    intro l hl c hc
    obtain ⟨k, hk⟩ := List.getElem?_of_mem hl
    obtain ⟨f, r, built⟩ := builtFrom_of_canonicalizeLoops canonical hk
    obtain ⟨_, _, _, spans⟩ := built.spans hc
    exact spans.isConstant (counted l hl)
  have same : List.Forall₂ (fun l c => l.tripCount.value = some c) n.levels counts := by
    rw [← List.forall₂_eq_eq_eq] at known
    exact List.forall₂_map_right_iff.mp (List.forall₂_map_left_iff.mp known)
  exact ((List.forall₂_and_left _ _).mpr ⟨constant, same⟩).imp fun _ _ h => h.1 _ h.2

/-- The expressions of a nest find what is calculated from a flattened iteration: where the induction
variable has the iteration as its value, and the counters outside a level those of the point, the
expression of the level has the counter of the point as its value, and the divisor the value recorded
for it. -/
theorem recovery_finds_point (canonical : (canonicalizeLoops o s depth decls).1 = .nest n) {count : Nat}
    (total : n.total.value = some count) (small : (count : Int) ≤ Wide.greatest) {iv : Nat}
    {p : List Int} (point : n.point? iv = some p) :
    ∀ k < n.depth, ∃ r v, n.recovery[k]? = some r ∧ p[k]? = some v ∧ r.Finds (n.outside iv p k) v := by
  obtain ⟨counts, known, rfl, digits⟩ := canonicalizeLoops_digits canonical total
  obtain ⟨ty, location, rows⟩ := recovery_eq_recoveryFrom canonical
  obtain ⟨ks, hks, found⟩ := Option.bind_eq_some_iff.mp point
  obtain ⟨below, rfl⟩ := (LoopNest.indices?_eq_some total digits).mp hks
  have left (env : Bindings) (is : env n.inductionVar = some (iv : Int)) :
      (Expr.ofDecl n.inductionVar ty location).eval env = some (iv : Int) := is
  have fresh := inductionVar_notMem_countersOf canonical
  intro k hk
  obtain ⟨r, v, hr, hv, finds⟩ := recoveryFrom_finds (isConstant_levels canonical known) (by omega) small
    below left found k hk
  refine ⟨r, v, rows ▸ hr, hv, finds _ ?_ fun d w hd => ?_⟩
  · simp [LoopNest.outside, Bindings.ofList]
  · have other : n.inductionVar ≠ d := by
      rintro rfl
      obtain ⟨e, he, -⟩ := Option.map_eq_some_iff.mp hd
      have same : e.1 = n.inductionVar := by simpa using List.find?_some he
      have mem := (List.of_mem_zip (List.mem_of_mem_take (List.mem_of_find?_eq_some he))).1
      exact fresh (same ▸ mem)
    simpa [LoopNest.outside, Bindings.ofList, other] using hd

/-- The loops `for (i = 5; i > 0; i -= 2) for (j = i; j < 9; j += 3)` have three iterations each over the
covering range. In the fifth of nine, `j` starts from the value that is found for `i`. -/
theorem recovery_finds_point_dependent :
    ∃ (s : Stmt) (n : LoopNest) (r : IndexRecovery),
      (canonicalizeLoops {} s 2 (.integers ["i", "j"])).1 = .nest n ∧ n.point? 4 = some [3, 6] ∧
        n.recovery[1]? = some r ∧ r.counterValue.eval (n.outside 4 [3, 6] 1) = some 6 := by
  let s := Stmt.countingLoop ⟨0⟩ (.ofInt 5 .int32 {}) .gt (.ofInt 0 .int32 {}) (-2)
    (.countingLoop ⟨1⟩ (.ofDecl ⟨0⟩ .int32 {}) .lt (.ofInt 9 .int32 {}) 3 (.null {}))
  obtain ⟨n, canonical, total, point, depth⟩ :
      ∃ n, (canonicalizeLoops {} s 2 (.integers ["i", "j"])).1 = .nest n ∧ n.total.value = some 9 ∧
        n.point? 4 = some [3, 6] ∧ n.depth = 2 :=
    NestOutcome.exists_of_decide _ (by decide +kernel)
  obtain ⟨r, v, row, value, found⟩ :=
    recovery_finds_point canonical total (by decide) point 1 (by rw [depth]; decide)
  cases value
  exact ⟨s, n, r, canonical, point, row, found.counter⟩

end

end Directives
