import Directives.Proofs.CountedLoop
/-!
Trip counts of constant bounds. A trip count is calculated twice, as a number and as an expression.
The two come to the same for all bounds of 128 bits: they are the number of values for which the
condition holds, and undefined exactly where the loop runs and its span is out of range. A loop that
does not run has the count zero, however far apart its bounds are.
-/

namespace Directives

theorem Wide.check_of_greatest_lt {v : Int} (h : greatest < v) : check v = none :=
  if_neg fun inRange => absurd inRange.2 (Int.not_le.mpr h)

/-- A value that is not negative is in range up to the greatest. -/
theorem Wide.check_of_nonneg {v : Int} (hv : 0 ≤ v) (hle : v ≤ greatest) : check v = some v :=
  check_of_inRange ⟨Int.le_trans (by decide) hv, hle⟩

section
variable {lower upper step : Int} {ascending strict : Bool}

theorem Span.between_eq_none_iff {first last : Int} (hs : 0 < step)
    (apart : ofTruth strict ≤ last - first) :
    between first last step strict = none ↔
      Wide.greatest < last - first ∨ Wide.greatest < last - first - ofTruth strict + step := by
  have taken := ofTruth_nonneg strict
  unfold between
  by_cases hd : last - first ≤ Wide.greatest
  · rw [Wide.sub, Wide.check_of_nonneg (by omega) hd]
    change ((Wide.check _).bind fun a => (Wide.check _).bind _) = none ↔ _
    rw [Wide.check_of_nonneg (by omega) (by omega), Option.bind_some]
    by_cases ht : last - first - ofTruth strict + step ≤ Wide.greatest
    · rw [Wide.check_of_nonneg (by omega) ht]
      exact ⟨fun absent => absurd absent (Option.some_ne_none _), fun h => by omega⟩
    · rw [Wide.check_of_greatest_lt (by omega)]
      exact ⟨fun _ => .inr (by omega), fun _ => rfl⟩
  · rw [Wide.sub, Wide.check_of_greatest_lt (by omega)]
    exact ⟨fun _ => .inl (by omega), fun _ => rfl⟩

/-- The span of a loop that runs is out of range where the distance, or what is to be divided, is too
great. -/
theorem Span.checked_eq_none_iff (hs : 0 < step)
    (runs : (Relation.order ascending strict).holds lower upper = true) :
    checked lower upper step ascending strict = none ↔
      Wide.greatest < (exact lower upper step ascending strict).distance ∨
        Wide.greatest < (exact lower upper step ascending strict).total := by
  have apart := (runs_iff step).mp runs
  cases ascending with
  | true => exact between_eq_none_iff hs apart
  | false => exact between_eq_none_iff hs apart

/-- A trip count is undefined where the loop runs and its span is out of range. -/
theorem constantTripCount_eq_none_iff (hs : 0 < step) :
    constantTripCount lower upper step ascending strict = none ↔
      (Relation.order ascending strict).holds lower upper = true ∧
        (Wide.greatest < (Span.exact lower upper step ascending strict).distance ∨
          Wide.greatest < (Span.exact lower upper step ascending strict).total) := by
  rw [constantTripCount_eq hs]
  by_cases runs : (Relation.order ascending strict).holds lower upper = true
  · rw [if_pos runs, Option.map_eq_none_iff, Span.checked_eq_none_iff hs runs]
    exact ⟨fun h => ⟨runs, h⟩, And.right⟩
  · rw [if_neg runs]
    exact ⟨fun absent => absurd absent (Option.some_ne_none _), fun h => absurd h.1 runs⟩

end

namespace LoopBounds

variable {b : LoopBounds} {lower upper step : Int}

theorem constants?_eq_some (hl : b.lower.constant? = some lower) (hu : b.upper.constant? = some upper)
    (hs : b.step.constant? = some step) : b.constants? = some (lower, upper, step) := by
  rw [constants?, hl, hu, hs]
  rfl

theorem value?_of_constants (h : b.constants? = some (lower, upper, step)) :
    b.value? = constantTripCount lower upper step b.ascending b.strict := by
  rw [value?, h]
  rfl

end LoopBounds

/-- The value of a trip count of constant bounds is that of its expression, both defined or both
undefined. It is the number of steps after which the condition holds: these are the first ones. There
is no value exactly where the loop runs at all and the distance of its bounds, or what the formula
divides by the step, is out of range. -/
theorem constant_count_agrees {b : LoopBounds} {lower upper step : Int}
    (hl : b.lower.constant? = some lower) (hu : b.upper.constant? = some upper)
    (hs : b.step.constant? = some step) (hpos : 0 < step) (width : Nat) :
    (b.tripCount width).expr.constant? = (b.tripCount width).value.map Int.ofNat ∧
    (∀ n, (b.tripCount width).value = some n → ∀ k,
      (Relation.order b.ascending b.strict).holds (stepped b.ascending lower step k) upper = true ↔
        k < n) ∧
    ((b.tripCount width).value = none ↔
      (Relation.order b.ascending b.strict).holds lower upper = true ∧
        (Wide.greatest < (Span.exact lower upper step b.ascending b.strict).distance ∨
          Wide.greatest < (Span.exact lower upper step b.ascending b.strict).total)) := by
  have value : (b.tripCount width).value = constantTripCount lower upper step b.ascending b.strict :=
    LoopBounds.value?_of_constants (LoopBounds.constants?_eq_some hl hu hs)
  rw [value]
  refine ⟨LoopBounds.eval_tripCount_eq hl hu hs hpos width, fun n hn k => ?_,
    constantTripCount_eq_none_iff hpos⟩
  rw [(constantTripCount_eq_some hn).2.1]
  exact holds_stepped_iff hpos k

/-- From the least to the greatest value the span is out of range, and there is no count; in the other
direction the loop does not run, and the count is zero though the span is the same. -/
theorem constant_count_agrees_extremes :
    let b (ascending : Bool) : LoopBounds :=
      { lower := .ofInt Wide.least .int64 {}, upper := .ofInt Wide.greatest .int64 {}
        step := .ofInt 1 .int64 {}, ascending, strict := true, counter := .i64 }
    ((b true).tripCount 64).value = none ∧ ((b true).tripCount 64).expr.constant? = none ∧
      ((b false).tripCount 64).value = some 0 ∧
      ((b false).tripCount 64).expr.constant? = some 0 := by
  intro b
  have constant {v : Int} (inRange : Wide.InRange v) : (Expr.ofInt v .int64 {}).constant? = some v :=
    Expr.eval_ofInt inRange ..
  have agrees (ascending : Bool) := constant_count_agrees (b := b ascending)
    (constant ⟨by decide, by decide⟩) (constant ⟨by decide, by decide⟩)
    (constant ⟨by decide, by decide⟩) (by decide) 64
  have none := (agrees true).2.2.mpr ⟨by decide, .inl (by decide)⟩
  have zero : ((b false).tripCount 64).value = some 0 := by decide
  refine ⟨none, ?_, zero, ?_⟩
  · rw [(agrees true).1, none]
    rfl
  · rw [(agrees false).1, zero]
    rfl

end Directives
