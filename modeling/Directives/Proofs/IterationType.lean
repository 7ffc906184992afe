import Directives.Proofs.ConstantCount
import Directives.Proofs.MixedRadix
/-!
The types in which iterations are counted. A type has as many values as its bits allow; a loop whose
bounds are values of the type of its counter therefore has fewer iterations than the type has values,
unless its last bound is included and cannot be passed. So the type that is chosen for a count holds
it: that of the counter because this is tested, an unsigned one because it is no narrower.
-/

namespace Directives

theorem capacity_pos (bits : Nat) : 0 < capacity bits := Nat.pow_pos (by decide)

theorem capacity_succ (bits : Nat) : capacity (bits + 1) = capacity bits + capacity bits := by
  rw [capacity, Nat.pow_eq, Nat.pow_succ, Nat.mul_two]
  rfl

theorem capacity_mono {bits bits' : Nat} (h : bits ≤ bits') : capacity bits ≤ capacity bits' :=
  Nat.pow_le_pow_right (by decide) h

namespace Wide

/-- What 65 bits hold with a sign is in range. -/
theorem inRange_of_natAbs_le {v : Int} (h : v.natAbs ≤ capacity 64) : InRange v := by
  have wide : least ≤ -(capacity 64 : Int) ∧ (capacity 64 : Int) ≤ greatest := by decide
  constructor <;> omega

/-- Up to 64 places a shift is a power of two. -/
theorem shift_eq {places : Nat} (h64 : places ≤ 64) : shift places = capacity places := by
  rw [shift, Nat.mod_eq_of_lt (by omega)]
  exact wrap_of_inRange (inRange_of_natAbs_le (by rw [Int.natAbs_natCast]; exact capacity_mono h64))

end Wide

namespace IntType

variable {t : IntType} {v : Int}

/-- The limits of a type of at most 64 bits. -/
theorem limits (hbits : 0 < t.bits) (h64 : t.bits ≤ 64) :
    t.least = (if t.signed then -(capacity (t.bits - 1) : Int) else 0) ∧
      t.greatest = (if t.signed then (capacity (t.bits - 1) : Int) else capacity t.bits) - 1 := by
  have last : t.lastBit = capacity (t.bits - 1) := by
    have places : (t.bits + 127) % 128 = (t.bits - 1) % 128 := by omega
    rw [lastBit, Wide.shift, places]
    exact Wide.shift_eq (by omega)
  have whole := capacity_mono h64
  have half : capacity (t.bits - 1) ≤ capacity 64 := capacity_mono (by omega)
  rw [least, greatest, last, Wide.shift_eq h64]
  constructor
  · split
    · exact Wide.wrap_of_inRange (Wide.inRange_of_natAbs_le (by omega))
    · rfl
  · apply Wide.wrap_of_inRange
    apply Wide.inRange_of_natAbs_le
    have := capacity_pos t.bits
    have := capacity_pos (t.bits - 1)
    split <;> omega

theorem contains_iff : t.contains v = true ↔ t.least ≤ v ∧ v ≤ t.greatest := by
  rw [contains, Bool.and_eq_true, decide_eq_true_eq, decide_eq_true_eq]

/-- A type has as many values as its bits allow. -/
theorem greatest_eq (hbits : 0 < t.bits) (h64 : t.bits ≤ 64) :
    t.greatest = t.least + capacity t.bits - 1 := by
  obtain ⟨least, greatest⟩ := limits hbits h64
  obtain ⟨half, hhalf⟩ : ∃ half, t.bits = half + 1 := ⟨t.bits - 1, by omega⟩
  have double := capacity_succ half
  rw [least, greatest, hhalf, Nat.add_sub_cancel]
  split <;> omega

/-- Zero is one of them. -/
theorem least_nonpos (hbits : 0 < t.bits) (h64 : t.bits ≤ 64) : t.least ≤ 0 ∧ 0 ≤ t.greatest := by
  obtain ⟨least, greatest⟩ := limits hbits h64
  have := capacity_pos t.bits
  have := capacity_pos (t.bits - 1)
  rw [least, greatest]
  constructor <;> split <;> omega

theorem ofIterations_bits_le (narrow : Bool) (width : Nat) : (ofIterations narrow width).bits ≤ 64 := by
  refine Nat.le_trans (Nat.min_le_left ..) ?_
  cases narrow <;> decide

/-- A type for iterations has the values below the capacity of its bits. -/
theorem contains_ofIterations {narrow : Bool} {width n : Nat}
    (h : n < capacity (ofIterations narrow width).bits) :
    (ofIterations narrow width).contains n = true := by
  have h64 := ofIterations_bits_le narrow width
  have whole := capacity_mono h64
  have unsigned : (ofIterations narrow width).signed = false := rfl
  have greatest : (ofIterations narrow width).greatest =
      capacity (ofIterations narrow width).bits - 1 := by
    rw [IntType.greatest, unsigned, if_neg Bool.false_ne_true, Wide.shift_eq h64]
    exact Wide.wrap_of_inRange (Wide.inRange_of_natAbs_le (by omega))
  rw [contains_iff, IntType.least, unsigned, if_neg Bool.false_ne_true, greatest]
  omega

end IntType

/-! ## The number of iterations -/

section
variable {t : IntType} {lower upper step : Int} {ascending strict : Bool}

/-- The condition can become false: it excludes its bound, or this is not the last value of the type in
the direction of the loop. -/
def IntType.Passable (t : IntType) (upper : Int) (ascending strict : Bool) : Prop :=
  strict = true ∨ upper ≠ if ascending then t.greatest else t.least

/-- Each iteration but the last covers at least one of the values between the bounds. -/
theorem iterations_le_of_distance_le {n : Nat} (hs : 0 < step)
    (h : (Span.exact lower upper step ascending strict).distance + (if strict then 0 else 1) ≤ n) :
    iterations lower upper step ascending strict ≤ n := by
  refine Nat.le_of_not_lt fun more => ?_
  have short := (lt_iterations_iff hs n).mp more
  have steps : (n : Int) * 1 ≤ n * step := Int.mul_le_mul_of_nonneg_left hs (Int.natCast_nonneg n)
  simp only [Span.exact] at h
  omega

/-- What is divided is at most a step more than the distance. -/
theorem Span.total_le (lower upper step : Int) (ascending strict : Bool) :
    (Span.exact lower upper step ascending strict).total ≤
      (Span.exact lower upper step ascending strict).distance + step := by
  have taken := ofTruth_nonneg strict
  simp only [Span.exact]
  omega

theorem IntType.distance_lt (hbits : 0 < t.bits) (h64 : t.bits ≤ 64) (hl : t.contains lower = true)
    (hu : t.contains upper = true) :
    (Span.exact lower upper step ascending strict).distance < capacity t.bits := by
  have size := greatest_eq hbits h64
  rw [contains_iff] at hl hu
  cases ascending <;> simp [Span.exact] <;> omega

theorem IntType.iterations_lt (hbits : 0 < t.bits) (h64 : t.bits ≤ 64) (hl : t.contains lower = true)
    (hu : t.contains upper = true) (hs : 0 < step) (passable : t.Passable upper ascending strict) :
    iterations lower upper step ascending strict < capacity t.bits := by
  have size := greatest_eq hbits h64
  have values := capacity_pos t.bits
  have few : iterations lower upper step ascending strict ≤ capacity t.bits - 1 := by
    refine iterations_le_of_distance_le hs ?_
    rw [contains_iff] at hl hu
    cases ascending <;> cases strict <;> simp [Passable] at passable <;> simp [Span.exact] <;> omega
  omega

/-- Bounds of at most 64 bits have a count. -/
theorem IntType.constantTripCount_eq (hbits : 0 < t.bits) (h64 : t.bits ≤ 64)
    (hl : t.contains lower = true) (hu : t.contains upper = true) (hs : t.contains step = true)
    (hpos : 0 < step) :
    constantTripCount lower upper step ascending strict =
      some (iterations lower upper step ascending strict) := by
  cases hn : constantTripCount lower upper step ascending strict with
  | some n => rw [(constantTripCount_eq_some hn).2.1]
  | none =>
    obtain ⟨-, great⟩ := (constantTripCount_eq_none_iff hpos).mp hn
    have distance : (Span.exact lower upper step ascending strict).distance < capacity t.bits :=
      distance_lt hbits h64 hl hu
    have size := greatest_eq hbits h64
    have small := capacity_mono h64
    have narrow := (least_nonpos hbits h64).1
    have wide : (2 * capacity 64 : Int) ≤ Wide.greatest := by decide
    rw [contains_iff] at hs
    have total := Span.total_le lower upper step ascending strict
    omega

end

/-! ## The choice of the type -/

theorem foldl_max_ge (l : List IntType) (bits : Nat) :
    bits ≤ l.foldl (fun bits t => max bits t.bits) bits := by
  induction l generalizing bits with
  | nil => exact Nat.le_refl _
  | cons t l ih => exact Nat.le_trans (Nat.le_max_left _ _) (ih _)

namespace LoopBounds

variable {b : LoopBounds} {lower upper step : Int} {width : Nat}

theorem counter_bits_le_operandBits : b.counter.bits ≤ b.operandBits := foldl_max_ge _ _

/-- An unsigned type for iterations is no narrower than the counter. -/
theorem bits_le_iterationType (h64 : b.counter.bits ≤ 64) (hwidth : b.counter.bits ≤ width) :
    b.counter.bits ≤ (iterationType b.operandBits width).bits := by
  have := b.counter_bits_le_operandBits
  change b.counter.bits ≤ min (if decide (b.operandBits ≤ 32) then 32 else 64) width
  simp only [decide_eq_true_eq]
  split <;> omega

/-- The counter keeps its type only for a count that the type holds. -/
theorem contains_of_keepsCounterType {n : Nat} (h : b.keepsCounterType = true)
    (hn : b.value? = some n) : b.counter.contains n = true := by
  unfold keepsCounterType at h
  rw [hn] at h
  split at h
  · rename_i count _ same
    cases same
    simp only [Bool.and_eq_true] at h
    exact h.1.1.1.1
  · cases h

end LoopBounds

namespace TripCount

variable {counts : List TripCount} {values : List Nat} {width n : Nat}

/-- The type of a product of several counts holds what is below the capacity of the widest admitted. -/
theorem contains_productType (several : 2 ≤ counts.length) (h64 : width ≤ 64)
    (hn : productValue counts = some n) (hwidth : n < capacity width) :
    (productType counts width).contains n = true := by
  have fits {bits : Nat} (h : n < capacity bits) : n < capacity (min bits width) := by
    rcases Nat.le_total bits width with le | le
    · rwa [Nat.min_eq_left le]
    · rwa [Nat.min_eq_right le]
  unfold productType
  split
  · rw [List.length_singleton] at several
    omega
  · dsimp only
    rw [hn, Option.any_some]
    refine IntType.contains_ofIterations (fits ?_)
    by_cases small : n < capacity 32
    · have either (narrow : Bool) : n < capacity (if narrow then 32 else 64) := by
        cases narrow with
        | true => exact small
        | false => exact Nat.lt_of_lt_of_le small (capacity_mono (by decide))
      exact either _
    · rw [decide_eq_false small, Bool.and_false, if_neg Bool.false_ne_true]
      exact Nat.lt_of_lt_of_le hwidth (capacity_mono h64)

theorem flatSize_pos (positive : ∀ v ∈ values, 1 ≤ v) : 0 < flatSize values := by
  induction values with
  | nil => exact Nat.one_pos
  | cons v values ih =>
    rw [List.forall_mem_cons] at positive
    exact Nat.mul_pos positive.1 (ih positive.2)

end TripCount

/-- The type that is chosen for a count holds it. For a single loop, bounds and step are constants of
the type of the counter, the step is positive, and the condition excludes its bound or this is not the
last value of the type. For the product of several counts all are known and none is zero, and the
product is below the capacity of the widest type that is admitted. -/
theorem iteration_type_holds_count {width : Nat} :
    (∀ (b : LoopBounds) (lower upper step : Int), b.lower.constant? = some lower →
      b.upper.constant? = some upper → b.step.constant? = some step → 0 < step →
      0 < b.counter.bits → b.counter.bits ≤ 64 → b.counter.bits ≤ width →
      b.counter.contains lower = true → b.counter.contains upper = true →
      b.counter.contains step = true → b.counter.Passable upper b.ascending b.strict →
      ∃ n : Nat, (b.tripCount width).value = some n ∧ (b.tripCount width).ty.contains n = true) ∧
    (∀ (counts : List TripCount) (values : List Nat), 2 ≤ counts.length →
      counts.map (·.value) = values.map some → (∀ v ∈ values, 1 ≤ v) → width ≤ 64 →
      flatSize values < capacity width →
      (TripCount.product counts width).value = some (flatSize values) ∧
        (TripCount.product counts width).ty.contains (flatSize values) = true) := by
  constructor
  · intro b lower upper step hl hu hs hpos hbits h64 hwidth hlower hupper hstep passable
    have value : b.value? = some (iterations lower upper step b.ascending b.strict) :=
      (LoopBounds.value?_of_constants (LoopBounds.constants?_eq_some hl hu hs)).trans
        (IntType.constantTripCount_eq hbits h64 hlower hupper hstep hpos)
    refine ⟨_, value, ?_⟩
    change (if b.keepsCounterType then _ else _ : IntType).contains _ = true
    split
    · rename_i keeps
      exact LoopBounds.contains_of_keepsCounterType keeps value
    · have few := IntType.iterations_lt hbits h64 hlower hupper hpos passable
      have wider := capacity_mono (LoopBounds.bits_le_iterationType h64 hwidth)
      exact IntType.contains_ofIterations (Nat.lt_of_lt_of_le few wider)
  · intro counts values several known positive h64 hwidth
    have small : flatSize values ≤ Wide.greatestCount :=
      Nat.le_trans (Nat.le_of_lt (Nat.lt_of_lt_of_le hwidth (capacity_mono h64))) (by decide)
    have value : TripCount.productValue counts = some (flatSize values) :=
      TripCount.productValue_of_counts known (TripCount.flatSize_pos positive) small
    exact ⟨value, TripCount.contains_productType several h64 value hwidth⟩

/-- All values of 32 bits but the last are counted in 32 bits without sign, and so are the iterations of
two loops that together stay below the capacity of 32 bits. -/
theorem iteration_type_holds_count_full_range :
    let loop (lower upper : Int) : LoopBounds :=
      { lower := .ofInt lower .int32 {}, upper := .ofInt upper .int32 {}, step := .ofInt 1 .int32 {}
        ascending := true, strict := false, counter := .i32 }
    let whole := (loop (-2147483648) 2147483646).tripCount 32
    let counts := [(loop 0 65535).tripCount 32, (loop 1 65535).tripCount 32]
    (whole.value = some 4294967295 ∧ whole.ty.contains 4294967295 = true) ∧
      ((TripCount.product counts 32).value = some (flatSize [65536, 65535]) ∧
        (TripCount.product counts 32).ty.contains (flatSize [65536, 65535]) = true) := by
  intro loop whole counts
  have holds := @iteration_type_holds_count 32
  obtain ⟨n, value, fits⟩ := holds.1 (loop (-2147483648) 2147483646) (-2147483648) 2147483646 1
    (by decide) (by decide) (by decide) (by decide) (by decide) (by decide) (by decide) (by decide)
    (by decide) (by decide) (.inr (by decide))
  have count : whole.value = some 4294967295 := by decide
  cases value.symm.trans count
  exact ⟨⟨count, fits⟩, holds.2 counts [65536, 65535] (by decide) (by decide) (by decide) (by decide)
    (by decide)⟩

end Directives
