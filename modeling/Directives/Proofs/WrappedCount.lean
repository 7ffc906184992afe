import Directives.Proofs.IterationType
/-!
Trip counts in the arithmetic of the type in which they are computed. There an operation has the value
of the type that is congruent to the exact result. Differences and sums may leave the type on the way
and come back; a division does not commute with that, so the expression for a trip count has the number
of iterations as its value exactly where what is divided is itself a value of the type.
-/

namespace Directives

/-! ## Arithmetic of integer types -/

/-- The value of the type that is congruent to `v` modulo the capacity of its bits; a signed type has
its values in two's complement. -/
def IntType.wrap (t : IntType) (v : Int) : Int :=
  if t.signed then v.bmod (capacity t.bits) else v % capacity t.bits

/-- What becomes of `v` in the type. Only integer types reduce it. -/
def Ty.wrap (ty : Ty) (v : Int) : Int :=
  match ty.intType? with
  | some t => t.wrap v
  | none => v

/-- The value of an expression whose operations are carried out in the types of their nodes: a
conversion, and an arithmetic operation on the values of its operands, is reduced to the integer type
of its node. Comparisons and logical operations look at the values of their operands. -/
def Expr.wrapped (env : Bindings) : Expr → Option Int
  | .intLit _ v => some v
  | .boolLit _ b => some (ofTruth b)
  | .ref _ d => env d
  | .cast i e => (e.wrapped env).map i.ty.wrap
  | .paren _ e => e.wrapped env
  | .construct _ [e] => e.wrapped env
  | .unary i op e => do
    let v ← op.exact (← e.wrapped env)
    return if op = .not then v else i.ty.wrap v
  | .binary i op a b => do
    let v ← a.wrapped env
    let w ← b.wrapped env
    let x ← op.exact v w
    return if op.isRelational || op.isLogical then x else i.ty.wrap x
  | .conditional _ c a b => do
    if (← c.wrapped env) ≠ 0 then a.wrapped env else b.wrapped env
  | _ => none

/-- A dividend below the divisor has no positive quotient, and none below itself if it is negative. -/
theorem tdiv_of_lt {v step : Int} (hs : 0 < step) (h : v < step) :
    min v 0 ≤ v.tdiv step ∧ v.tdiv step ≤ 0 := by
  rcases Int.le_total 0 v with hv | hv
  · rw [Int.tdiv_eq_zero_of_lt hv h]
    omega
  · have nonpos := Int.tdiv_nonneg (a := -v) (by omega) (Int.le_of_lt hs)
    have size := Int.natAbs_tdiv_le_natAbs v step
    rw [Int.neg_tdiv] at nonpos
    omega

namespace IntType

variable {t : IntType} {v w : Int}

theorem wrap_add_wrap (t : IntType) (v w : Int) : t.wrap (t.wrap v + t.wrap w) = t.wrap (v + w) := by
  cases h : t.signed <;> simp [wrap, h]

theorem wrap_sub_wrap (t : IntType) (v w : Int) : t.wrap (t.wrap v - t.wrap w) = t.wrap (v - w) := by
  cases h : t.signed <;> simp [wrap, h]

theorem wrap_add_capacity (t : IntType) (v : Int) : t.wrap (v + capacity t.bits) = t.wrap v := by
  cases h : t.signed <;> simp [wrap, h]

/-- A value of the type is left as it is. -/
theorem wrap_of_contains (hbits : 0 < t.bits) (h64 : t.bits ≤ 64) (h : t.contains v = true) :
    t.wrap v = v := by
  obtain ⟨least, greatest⟩ := limits hbits h64
  obtain ⟨half, hhalf⟩ : ∃ half, t.bits = half + 1 := ⟨t.bits - 1, by omega⟩
  have double := capacity_succ half
  rw [contains_iff, least, greatest, hhalf, Nat.add_sub_cancel] at h
  rw [wrap, hhalf]
  cases sign : t.signed with
  | false =>
    simp only [sign, Bool.false_eq_true, if_false] at h ⊢
    exact Int.emod_eq_of_lt h.1 (by omega)
  | true =>
    simp only [sign, if_true] at h ⊢
    exact Int.bmod_eq_of_le_mul_two (by omega) (by omega)

/-- Past the greatest value the type begins again from its least. -/
theorem wrap_of_greatest_lt (hbits : 0 < t.bits) (h64 : t.bits ≤ 64) (hv : t.greatest < v)
    (hle : v ≤ t.greatest + capacity t.bits) : t.wrap v = v - capacity t.bits := by
  have size := greatest_eq hbits h64
  have back : t.contains (v - capacity t.bits) = true := contains_iff.mpr ⟨by omega, by omega⟩
  calc t.wrap v = t.wrap (v - capacity t.bits + capacity t.bits) := by rw [Int.sub_add_cancel]
    _ = v - capacity t.bits := by rw [wrap_add_capacity, wrap_of_contains hbits h64 back]

/-- A quotient in the type is the exact one where the dividend is a value of the type. A dividend that
passes the greatest value comes out below the divisor, and the quotient is not positive. -/
theorem wrap_quotient_iff {total step : Int} (hbits : 0 < t.bits) (h64 : t.bits ≤ 64) (hs : 0 < step)
    (hstep : t.contains step = true) (hle : step ≤ total) (hlt : total < capacity t.bits + step) :
    t.wrap ((t.wrap total).tdiv step) = total / step ↔ total ≤ t.greatest := by
  have size := greatest_eq hbits h64
  have zero := least_nonpos hbits h64
  have quotient : 1 ≤ total / step := by rwa [Int.le_ediv_iff_mul_le hs, Int.one_mul]
  have below : total / step ≤ total := Int.ediv_le_self _ (by omega)
  rw [contains_iff] at hstep
  constructor
  · intro same
    refine Int.not_lt.mp fun great => ?_
    -- The dividend passes the greatest value by less than the step: it comes back below the divisor.
    have passed := wrap_of_greatest_lt hbits h64 great (by omega)
    obtain ⟨least, nonpos⟩ := tdiv_of_lt (v := total - capacity t.bits) hs (by omega)
    have holds : t.contains ((total - capacity t.bits).tdiv step) = true :=
      contains_iff.mpr ⟨by omega, by omega⟩
    rw [passed, wrap_of_contains hbits h64 holds] at same
    omega
  · intro fits
    rw [wrap_of_contains hbits h64 (contains_iff.mpr ⟨by omega, fits⟩),
      Int.tdiv_eq_ediv_of_nonneg (by omega)]
    exact wrap_of_contains hbits h64 (contains_iff.mpr ⟨by omega, by omega⟩)

/-- The values of a type of at most 64 bits are values of 128 bits. -/
theorem inRange_of_contains (hbits : 0 < t.bits) (h64 : t.bits ≤ 64) (h : t.contains v = true) :
    Wide.InRange v := by
  obtain ⟨least, greatest⟩ := limits hbits h64
  have whole := capacity_mono h64
  have half : capacity (t.bits - 1) ≤ capacity 64 := capacity_mono (by omega)
  rw [contains_iff, least, greatest] at h
  apply Wide.inRange_of_natAbs_le
  cases sign : t.signed <;> simp only [sign, if_true, if_false, Bool.false_eq_true] at h <;> omega

end IntType

/-! ## The expression for a trip count -/

namespace Expr

variable {env : Bindings} {t : IntType} {v w : Int} {a b e : Expr}

/-- The expression is a literal for a value of an integer type. -/
def IsLiteralOf (t : IntType) (v : Int) (e : Expr) : Prop :=
  ∃ i, e = .intLit i v ∧ i.ty.intType? = some t ∧ t.contains v = true

/-- Converted to the type, the expression has the value that is congruent to `v`. -/
def StandsFor (env : Bindings) (t : IntType) (v : Int) (e : Expr) : Prop :=
  (e.castTo (.ofInt t)).wrapped env = some (t.wrap v)

theorem IsLiteralOf.wrapped (h : e.IsLiteralOf t v) : e.wrapped env = some v := by
  obtain ⟨i, rfl, -⟩ := h
  rfl

theorem IsLiteralOf.constant (h : e.IsLiteralOf t v) (hbits : 0 < t.bits) (h64 : t.bits ≤ 64) :
    e.constant? = some v := by
  obtain ⟨i, rfl, -, fits⟩ := h
  exact Wide.check_of_inRange (IntType.inRange_of_contains hbits h64 fits)

/-- A literal stands for its value in every type. -/
theorem IsLiteralOf.standsFor (h : e.IsLiteralOf t v) (hbits : 0 < t.bits) (h64 : t.bits ≤ 64)
    (env : Bindings) (t' : IntType) : e.StandsFor env t' v := by
  obtain ⟨i, rfl, ht, fits⟩ := h
  unfold StandsFor castTo
  split
  · rename_i same
    change i.ty = _ at same
    rw [same] at ht
    cases ht
    rw [IntType.wrap_of_contains hbits h64 fits]
    rfl
  · rfl

theorem IsLiteralOf.contains (h : e.IsLiteralOf t v) : t.contains v = true := by
  obtain ⟨_, _, _, fits⟩ := h
  exact fits

theorem wrapped_mkBinary (ha : a.wrapped env = some v) (hb : b.wrapped env = some w) {op : BinaryOp}
    (compares : op.isRelational = true) : (mkBinary op a b).wrapped env = op.exact v w := by
  change (a.wrapped env).bind _ = _
  rw [ha, Option.bind_some]
  change (b.wrapped env).bind _ = _
  rw [hb, Option.bind_some]
  change (op.exact v w).bind _ = _
  rw [compares]
  cases op.exact v w <;> rfl

theorem wrapped_mkConditional {c : Expr} {test : Bool} (hc : c.wrapped env = some (ofTruth test)) :
    (mkConditional c a b).wrapped env = if test then a.wrapped env else b.wrapped env := by
  change (c.wrapped env).bind _ = _
  rw [hc]
  cases test <;> rfl

/-- An operation is carried out on the converted operands, and its result reduced. -/
theorem wrapped_arith {x : Int} (ha : (a.castTo (.ofInt t)).wrapped env = some v)
    (hb : (b.castTo (.ofInt t)).wrapped env = some w) {op : BinaryOp}
    (computes : (op.isRelational || op.isLogical) = false) (hx : op.exact v w = some x) :
    (arith op a b (.ofInt t)).wrapped env = some (t.wrap x) := by
  change ((a.castTo _).wrapped env).bind _ = _
  rw [ha, Option.bind_some]
  change ((b.castTo _).wrapped env).bind _ = _
  rw [hb, Option.bind_some]
  change (op.exact v w).bind _ = _
  rw [hx, Option.bind_some, computes]
  rfl

theorem castTo_arith (op : BinaryOp) (a b : Expr) (ty : Ty) :
    (arith op a b ty).castTo ty = arith op a b ty :=
  if_pos rfl

theorem StandsFor.sub (ha : a.StandsFor env t v) (hb : b.StandsFor env t w) :
    (arith .sub a b (.ofInt t)).StandsFor env t (v - w) := by
  rw [StandsFor, castTo_arith, wrapped_arith ha hb rfl rfl, IntType.wrap_sub_wrap]

theorem StandsFor.add (ha : a.StandsFor env t v) (hb : b.StandsFor env t w) :
    (arith .add a b (.ofInt t)).StandsFor env t (v + w) := by
  rw [StandsFor, castTo_arith, wrapped_arith ha hb rfl rfl, IntType.wrap_add_wrap]

theorem StandsFor.wrapped_div (ha : a.StandsFor env t v) (hb : b.StandsFor env t w)
    (hbits : 0 < t.bits) (h64 : t.bits ≤ 64) (hw : t.contains w = true) (hne : w ≠ 0) :
    (arith .div a b (.ofInt t)).wrapped env = some (t.wrap ((t.wrap v).tdiv w)) := by
  rw [StandsFor, IntType.wrap_of_contains hbits h64 hw] at hb
  exact wrapped_arith ha hb rfl (if_neg hne)

end Expr

namespace LoopBounds

variable {b : LoopBounds} {env : Bindings} {lower upper step : Int} {width : Nat}

/-- The operands are literals for values of the type of the counter. -/
structure Literal (b : LoopBounds) (lower upper step : Int) : Prop where
  lower : b.lower.IsLiteralOf b.counter lower
  upper : b.upper.IsLiteralOf b.counter upper
  step : b.step.IsLiteralOf b.counter step

/-- The chosen type is no narrower than that of the counter and has at most 64 bits, and it has the
positive values of the counter. -/
theorem counter_le_ty (hbits : 0 < b.counter.bits) (h64 : b.counter.bits ≤ 64)
    (hwidth : b.counter.bits ≤ width) :
    (b.counter.bits ≤ (b.tripCount width).ty.bits ∧ (b.tripCount width).ty.bits ≤ 64) ∧
      ∀ v, 0 ≤ v → b.counter.contains v = true → (b.tripCount width).ty.contains v = true := by
  change (b.counter.bits ≤ (if b.keepsCounterType then _ else _ : IntType).bits ∧
      (if b.keepsCounterType then _ else _ : IntType).bits ≤ 64) ∧
    ∀ v, 0 ≤ v → _ → (if b.keepsCounterType then _ else _ : IntType).contains v = true
  split
  · exact ⟨⟨Nat.le_refl _, h64⟩, fun _ _ => id⟩
  · have wider := bits_le_iterationType h64 hwidth
    refine ⟨⟨wider, IntType.ofIterations_bits_le ..⟩, fun v hv fits => ?_⟩
    obtain ⟨n, rfl⟩ := Int.eq_ofNat_of_zero_le hv
    refine IntType.contains_ofIterations (Nat.lt_of_lt_of_le ?_ (capacity_mono wider))
    have half : capacity (b.counter.bits - 1) ≤ capacity b.counter.bits := capacity_mono (by omega)
    rw [IntType.contains_iff, (IntType.limits hbits h64).2] at fits
    split at fits <;> omega

namespace Literal

theorem constants (literal : b.Literal lower upper step) (hbits : 0 < b.counter.bits)
    (h64 : b.counter.bits ≤ 64) : b.constants? = some (lower, upper, step) :=
  constants?_eq_some (literal.lower.constant hbits h64) (literal.upper.constant hbits h64)
    (literal.step.constant hbits h64)

theorem standsFor_total (literal : b.Literal lower upper step) (hbits : 0 < b.counter.bits)
    (h64 : b.counter.bits ≤ 64) {t : IntType} (ht : 0 < t.bits) (ht64 : t.bits ≤ 64)
    (hone : t.contains 1 = true) (env : Bindings) :
    (b.total t).StandsFor env t (Span.exact lower upper step b.ascending b.strict).total := by
  have hl := literal.lower.standsFor hbits h64 env t
  have hu := literal.upper.standsFor hbits h64 env t
  have hs := literal.step.standsFor hbits h64 env t
  have one : (Expr.ofInt 1 (.ofInt t) b.lower.location).StandsFor env t 1 :=
    Expr.IsLiteralOf.standsFor ⟨_, rfl, rfl, hone⟩ ht ht64 env t
  unfold total Span.exact
  cases b.ascending <;> cases b.strict <;> simp only [ofTruth, if_true, if_false, Int.sub_zero,
    Bool.false_eq_true]
  · exact (hl.sub hu).add hs
  · exact ((hl.sub hu).sub one).add hs
  · exact (hu.sub hl).add hs
  · exact ((hu.sub hl).sub one).add hs

theorem wrapped_precondition (literal : b.Literal lower upper step) :
    b.precondition.wrapped env =
      some (ofTruth ((Relation.order b.ascending b.strict).holds lower upper)) := by
  have compares : (BinaryOp.comparison b.ascending b.strict).isRelational = true := by
    cases b.ascending <;> cases b.strict <;> rfl
  rw [precondition, Expr.wrapped_mkBinary literal.lower.wrapped literal.upper.wrapped compares]
  cases b.ascending <;> cases b.strict <;> rfl

end Literal

end LoopBounds

/-- For literals of the type of the counter, the expression for a trip count, computed in the type that
is chosen for it, has the number of iterations as its value exactly where the loop does not run, or what
is divided by the step is a value of that type. -/
theorem wrapped_count_iff {b : LoopBounds} {lower upper step : Int}
    (literal : b.Literal lower upper step) (hpos : 0 < step) (hbits : 0 < b.counter.bits)
    (h64 : b.counter.bits ≤ 64) (width : Nat) (hwidth : b.counter.bits ≤ width) (env : Bindings) :
    ∃ n : Nat, (b.tripCount width).value = some n ∧
      ((b.tripCount width).expr.wrapped env = some (n : Int) ↔
        ((Relation.order b.ascending b.strict).holds lower upper = true →
          (Span.exact lower upper step b.ascending b.strict).total ≤
            (b.tripCount width).ty.greatest)) := by
  obtain ⟨⟨narrow, ty64⟩, positive⟩ := LoopBounds.counter_le_ty hbits h64 hwidth
  have ty_bits : 0 < (b.tripCount width).ty.bits := Nat.lt_of_lt_of_le hbits narrow
  have hstep := literal.step.contains
  have hone : (b.tripCount width).ty.contains 1 = true := by
    refine positive 1 (by decide) (IntType.contains_iff.mpr ?_)
    have := IntType.contains_iff.mp hstep
    have := IntType.least_nonpos hbits h64
    omega
  have value : (b.tripCount width).value = some (iterations lower upper step b.ascending b.strict) :=
    (LoopBounds.value?_of_constants (literal.constants hbits h64)).trans
      (IntType.constantTripCount_eq hbits h64 literal.lower.contains literal.upper.contains hstep hpos)
  refine ⟨_, value, ?_⟩
  -- Sums and differences stand for the exact ones; only the division sees what is left of them.
  have quotient := (literal.standsFor_total hbits h64 ty_bits ty64 hone env).wrapped_div
    (literal.step.standsFor hbits h64 env _) ty_bits ty64 (positive step (by omega) hstep) (by omega)
  rw [LoopBounds.tripCount_expr, Expr.wrapped_mkConditional literal.wrapped_precondition, quotient]
  by_cases runs : (Relation.order b.ascending b.strict).holds lower upper = true
  · have distance : (Span.exact lower upper step b.ascending b.strict).distance <
        capacity b.counter.bits :=
      IntType.distance_lt hbits h64 literal.lower.contains literal.upper.contains
    have size := capacity_mono narrow
    have least := Span.step_le_total step runs
    have most := Span.total_le lower upper step b.ascending b.strict
    have same_iff :=
      IntType.wrap_quotient_iff ty_bits ty64 hpos (positive step (by omega) hstep) least (by omega)
    rw [if_pos runs, Option.some.injEq, iterations_eq_total,
      Int.toNat_of_nonneg (Int.ediv_nonneg (by omega) (by omega)), same_iff]
    exact ⟨fun fits _ => fits, fun fits => fits runs⟩
  · have zero : iterations lower upper step b.ascending b.strict = 0 :=
      Nat.eq_zero_of_not_pos (mt (holds_iff_iterations_pos hpos).mpr runs)
    rw [if_neg runs, zero]
    exact ⟨fun _ holds => absurd holds runs, fun _ => rfl⟩

/-- All values of 32 bits in steps of two are 2 ^ 31 iterations, which are counted in 32 bits without
sign; there the 2 ^ 32 to be divided is zero. In steps of one, and without the last value, all is well. -/
theorem wrapped_count_iff_whole_range :
    let b (upper step : Int) : LoopBounds :=
      { lower := .ofInt (-2147483648) .int32 {}, upper := .ofInt upper .int32 {}
        step := .ofInt step .int32 {}, ascending := true, strict := false, counter := .i32 }
    let count (upper step : Int) := (b upper step).tripCount 64
    ((count 2147483647 2).value = some 2147483648 ∧
      (count 2147483647 2).expr.wrapped Bindings.none ≠ some 2147483648) ∧
    ((count 2147483646 1).value = some 4294967295 ∧
      (count 2147483646 1).expr.wrapped Bindings.none = some 4294967295) := by
  intro b count
  have least : IntType.i32.contains (-2147483648) = true := by decide
  have literal {upper step : Int} (hupper : IntType.i32.contains upper = true)
      (hstep : IntType.i32.contains step = true) :
      (b upper step).Literal (-2147483648) upper step :=
    ⟨⟨_, rfl, rfl, least⟩, ⟨_, rfl, rfl, hupper⟩, ⟨_, rfl, rfl, hstep⟩⟩
  constructor
  · have operands : (b 2147483647 2).Literal _ _ _ := literal (by decide) (by decide)
    obtain ⟨n, value, same_iff⟩ := wrapped_count_iff operands (by decide) (by decide) (by decide) 64
      (by decide) Bindings.none
    have whole : (count 2147483647 2).value = some 2147483648 := by decide
    cases value.symm.trans whole
    exact ⟨whole, fun same => absurd (same_iff.mp same (by decide)) (by decide)⟩
  · have operands : (b 2147483646 1).Literal _ _ _ := literal (by decide) (by decide)
    obtain ⟨n, value, same_iff⟩ := wrapped_count_iff operands (by decide) (by decide) (by decide) 64
      (by decide) Bindings.none
    have less : (count 2147483646 1).value = some 4294967295 := by decide
    cases value.symm.trans less
    exact ⟨less, same_iff.mpr fun _ => by decide⟩

/-- A counter of 8 bits from -100 to 100 in steps of two keeps its type, which holds the 100
iterations; but the distance of 200 is -56 there, and the expression comes to -27. -/
theorem count_wraps_in_counter_type :
    let b : LoopBounds :=
      { lower := .ofInt (-100) (.ofInt .i8) {}, upper := .ofInt 100 (.ofInt .i8) {}
        step := .ofInt 2 (.ofInt .i8) {}, ascending := true, strict := true
        counter := .i8 }
    let count := b.tripCount 64
    b.Literal (-100) 100 2 ∧ count.value = some 100 ∧ count.ty = .i8 ∧
      count.ty.contains 100 = true ∧ count.expr.wrapped Bindings.none = some (-27) := by
  intro b count
  exact ⟨⟨⟨_, rfl, rfl, by decide⟩, ⟨_, rfl, rfl, by decide⟩, ⟨_, rfl, rfl, by decide⟩⟩, by decide,
    by decide, by decide, by decide⟩

end Directives
