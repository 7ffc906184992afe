import Directives.Loop.Header
import Directives.Loop.TripCount
import Directives.Proofs.SourceRun
/-!
A loop that counts in constant steps. The counter keeps its relation to the bound for exactly as
many steps as the trip count says, so the loop visits an arithmetic progression; a loop that runs
until its counter equals the bound does the same if it ends at all.
-/

namespace Directives

/-- The counter after `k` steps from `lower`. -/
def stepped (ascending : Bool) (lower step : Int) (k : Nat) : Int :=
  if ascending then lower + k * step else lower - k * step

@[simp] theorem stepped_zero (ascending : Bool) (lower step : Int) :
    stepped ascending lower step 0 = lower := by
  cases ascending <;> simp [stepped]

theorem stepped_succ (ascending : Bool) (lower step : Int) (k : Nat) :
    stepped ascending lower step (k + 1) =
      if ascending then stepped ascending lower step k + step
      else stepped ascending lower step k - step := by
  have expand : ((k + 1 : Nat) : Int) * step = k * step + step := by
    rw [Int.natCast_succ, Int.add_mul, Int.one_mul]
  cases ascending <;> simp only [stepped, expand] <;> grind

theorem stepped_add (ascending : Bool) (lower step : Int) (j k : Nat) :
    stepped ascending (stepped ascending lower step j) step k =
      stepped ascending lower step (j + k) := by
  have expand : ((j + k : Nat) : Int) * step = j * step + k * step := by
    rw [Int.natCast_add, Int.add_mul]
  cases ascending <;> simp only [stepped, expand] <;> grind

/-- Distinct numbers of steps lead to distinct values. -/
theorem stepped_injective {ascending : Bool} {lower step : Int} (hs : 0 < step) {j k : Nat}
    (h : stepped ascending lower step j = stepped ascending lower step k) : j = k := by
  have same : (j : Int) * step = k * step := by
    cases ascending <;> simp only [stepped] at h <;> grind
  exact Int.ofNat_inj.mp (Int.eq_of_mul_eq_mul_right (Int.ne_of_gt hs) same)

namespace Relation

/-- The counter is in this relation to the bound. -/
def holds : Relation → (counter bound : Int) → Bool
  | less true, v, u => v < u
  | less false, v, u => v ≤ u
  | greater true, v, u => u < v
  | greater false, v, u => u ≤ v
  | notEqual, v, u => v ≠ u

/-- The order that ascends or descends. -/
def order : (ascending strict : Bool) → Relation
  | true, strict => less strict
  | false, strict => greater strict

end Relation

/-- How often a loop with constant bounds runs, over unbounded integers. -/
def iterations (lower upper step : Int) (ascending strict : Bool) : Nat :=
  let distance := if ascending then upper - lower else lower - upper
  ((distance + (if strict then 0 else 1) + step - 1) / step).toNat

section
variable {lower upper step : Int} {ascending strict : Bool}

/-- An iteration is one whose steps stay short of the distance. -/
theorem lt_iterations_iff (hs : 0 < step) (k : Nat) :
    k < iterations lower upper step ascending strict ↔
      k * step < (if ascending then upper - lower else lower - upper)
        + (if strict then 0 else 1) := by
  have expand : ((k : Int) + 1) * step = k * step + step := by rw [Int.add_mul, Int.one_mul]
  rw [iterations, Int.lt_toNat, Int.lt_iff_add_one_le, Int.le_ediv_iff_mul_le hs, expand]
  omega

/-- The counter keeps its order to the bound for as many steps as there are iterations. -/
theorem holds_stepped_iff (hs : 0 < step) (k : Nat) :
    (Relation.order ascending strict).holds (stepped ascending lower step k) upper = true ↔
      k < iterations lower upper step ascending strict := by
  rw [lt_iterations_iff hs]
  cases ascending <;> cases strict <;> simp [Relation.order, Relation.holds, stepped] <;> omega

/-- A loop runs where it has iterations. -/
theorem holds_iff_iterations_pos (hs : 0 < step) :
    (Relation.order ascending strict).holds lower upper = true ↔
      0 < iterations lower upper step ascending strict := by
  rw [← holds_stepped_iff hs 0, stepped_zero]

/-- On the way to a strict bound the counter does not equal the bound. -/
theorem notEqual_of_lt_iterations (hs : 0 < step) {k : Nat}
    (hk : k < iterations lower upper step ascending true) :
    Relation.notEqual.holds (stepped ascending lower step k) upper = true := by
  have := (holds_stepped_iff hs k).mpr hk
  cases ascending <;> simp [Relation.order, Relation.holds] at this ⊢ <;> omega

/-- The counter that meets its bound does so when all iterations are made. -/
theorem iterations_of_stepped_eq (hs : 0 < step) {m : Nat}
    (hm : stepped ascending lower step m = upper) :
    iterations lower upper step ascending true = m := by
  have distance : (if ascending then upper - lower else lower - upper) = m * step := by
    cases ascending <;> simp [stepped] at hm ⊢ <;> omega
  have same (k : Nat) : k < iterations lower upper step ascending true ↔ k < m := by
    rw [lt_iterations_iff hs, distance]
    simp only [if_true, Int.add_zero]
    rw [Int.mul_lt_mul_right hs, Int.ofNat_lt]
  exact Nat.le_antisymm (Nat.le_of_not_lt fun h => Nat.lt_irrefl _ ((same _).mp h))
    (Nat.le_of_not_lt fun h => Nat.lt_irrefl _ ((same _).mpr h))

/-- A wider range, counted in the same steps, takes no fewer iterations. -/
theorem iterations_le {lower' upper' : Int} (hs : 0 < step)
    (hl : if ascending then lower' ≤ lower else lower ≤ lower')
    (hu : if ascending then upper ≤ upper' else upper' ≤ upper) :
    iterations lower upper step ascending strict ≤
      iterations lower' upper' step ascending strict := by
  have wider (k : Nat) (h : k < iterations lower upper step ascending strict) :
      k < iterations lower' upper' step ascending strict := by
    rw [lt_iterations_iff hs] at h ⊢
    cases ascending <;> simp at hl hu h ⊢ <;> omega
  exact Nat.le_of_not_lt fun h => Nat.lt_irrefl _ (wider _ h)

theorem ofTruth_nonneg (b : Bool) : 0 ≤ ofTruth b := by
  cases b <;> decide

/-- The span between two bounds over unbounded integers. -/
def Span.exact (lower upper step : Int) (ascending strict : Bool) : Span :=
  let distance := if ascending then upper - lower else lower - upper
  let adjusted := distance - ofTruth strict
  { distance, adjusted, total := adjusted + step }

/-- The span between two bounds, where it is in range. -/
def Span.checked (lower upper step : Int) (ascending strict : Bool) : Option Span :=
  if ascending then between lower upper step strict else between upper lower step strict

theorem Span.between_eq_some {first last : Int} {s : Span}
    (h : between first last step strict = some s) :
    s = exact first last step true strict ∧ s.total ≤ Wide.greatest := by
  simp only [between, Option.bind_eq_bind, Option.bind_eq_some_iff, Option.pure_def,
    Option.some.injEq] at h
  obtain ⟨distance, hd, adjusted, ha, total, ht, rfl⟩ := h
  obtain ⟨rfl, -⟩ := Wide.check_eq_some.mp hd
  obtain ⟨rfl, -⟩ := Wide.check_eq_some.mp ha
  obtain ⟨rfl, -, hle⟩ := Wide.check_eq_some.mp ht
  exact ⟨rfl, hle⟩

theorem Span.checked_eq_some {s : Span} (h : checked lower upper step ascending strict = some s) :
    s = exact lower upper step ascending strict ∧ s.total ≤ Wide.greatest := by
  cases ascending with
  | true => exact between_eq_some h
  | false => exact between_eq_some h

/-- A loop runs where its bounds are far enough apart. -/
theorem Span.runs_iff (step : Int) :
    (Relation.order ascending strict).holds lower upper = true ↔
      ofTruth strict ≤ (exact lower upper step ascending strict).distance := by
  cases ascending <;> cases strict <;> simp [Relation.order, Relation.holds, exact, ofTruth] <;> omega

/-- A loop that runs has a step at least to divide. -/
theorem Span.step_le_total (step : Int)
    (runs : (Relation.order ascending strict).holds lower upper = true) :
    step ≤ (exact lower upper step ascending strict).total := by
  have apart := (runs_iff step).mp runs
  simp only [exact] at apart ⊢
  omega

/-- There are as many iterations as the step divides out of the total. -/
theorem iterations_eq_total (lower upper step : Int) (ascending strict : Bool) :
    iterations lower upper step ascending strict =
      ((Span.exact lower upper step ascending strict).total / step).toNat := by
  unfold iterations Span.exact
  cases strict <;> simp [ofTruth] <;> congr 2 <;> omega

/-- A loop with constant bounds that does not run has no iterations. -/
theorem constantTripCount_eq (hs : 0 < step) :
    constantTripCount lower upper step ascending strict =
      if (Relation.order ascending strict).holds lower upper then
        (Span.checked lower upper step ascending strict).map fun s => (s.total / step).toNat
      else some 0 := by
  unfold constantTripCount
  rw [if_neg (by omega)]
  cases ascending <;> cases strict <;> simp [Relation.order, Relation.holds, Span.checked]

/-- The trip count is the number of iterations. All steps together stay in range. -/
theorem constantTripCount_eq_some {n : Nat}
    (h : constantTripCount lower upper step ascending strict = some n) :
    0 < step ∧ n = iterations lower upper step ascending strict ∧
      (n : Int) * step ≤ Wide.greatest := by
  have hs : 0 < step := by
    refine Int.not_le.mp fun hle => ?_
    rw [constantTripCount, if_pos hle] at h
    cases h
  refine ⟨hs, ?_⟩
  rw [constantTripCount_eq hs] at h
  split at h
  · rename_i runs
    obtain ⟨s, hchecked, rfl⟩ := Option.map_eq_some_iff.mp h
    obtain ⟨rfl, hle⟩ := Span.checked_eq_some hchecked
    have divides := Span.step_le_total step runs
    refine ⟨(iterations_eq_total ..).symm, ?_⟩
    rw [Int.toNat_of_nonneg (Int.ediv_nonneg (by omega) (Int.le_of_lt hs))]
    exact Int.le_trans (Int.ediv_mul_le _ (Int.ne_of_gt hs)) hle
  · rename_i stops
    cases h
    refine ⟨(Nat.eq_zero_of_not_pos (mt (holds_iff_iterations_pos hs).mpr stops)).symm, ?_⟩
    rw [Int.natCast_zero, Int.zero_mul]
    decide

end

end Directives
