import Mathlib.Data.List.Forall2
import Directives.Loop.Canonical
/-!
The flattened iteration space. The numbers below the product of all trip counts are, by their
digits, exactly the tuples of iterations of the levels, in the order in which nested loops come to
them.
-/

namespace Directives

/-- How many flattened iterations levels with these counts have. -/
def flatSize : (counts : List Nat) → Nat
  | [] => 1
  | c :: inner => c * flatSize inner

/-- The digits of a number in places with these counts, most significant first. -/
def decode : (counts : List Nat) → Nat → List Nat
  | [], _ => []
  | _ :: inner, n => n / flatSize inner :: decode inner (n % flatSize inner)

/-- The number with these digits. -/
def encode : (counts digits : List Nat) → Nat
  | _ :: inner, k :: ks => k * flatSize inner + encode inner ks
  | _, _ => 0

/-- Every digit is less than the count of its place. -/
abbrev IsDigits (counts digits : List Nat) : Prop := List.Forall₂ (· < ·) digits counts

theorem encode_lt {counts digits : List Nat} (h : IsDigits counts digits) :
    encode counts digits < flatSize counts := by
  induction h with
  | nil => exact Nat.zero_lt_one
  | @cons k c ks inner hk _ ih =>
    calc k * flatSize inner + encode inner ks
        < k * flatSize inner + flatSize inner := Nat.add_lt_add_left ih _
      _ = (k + 1) * flatSize inner := (Nat.succ_mul ..).symm
      _ ≤ c * flatSize inner := Nat.mul_le_mul_right _ hk

theorem decode_encode {counts digits : List Nat} (h : IsDigits counts digits) :
    decode counts (encode counts digits) = digits := by
  induction h with
  | nil => rfl
  | @cons k c ks inner _ hks ih =>
    have hlt := encode_lt hks
    rw [encode, decode, Nat.mul_comm k, Nat.mul_add_div (by omega), Nat.div_eq_of_lt hlt,
      Nat.mul_add_mod, Nat.mod_eq_of_lt hlt, ih, Nat.add_zero]

theorem isDigits_decode {counts : List Nat} {n : Nat} (h : n < flatSize counts) :
    IsDigits counts (decode counts n) := by
  induction counts generalizing n with
  | nil => exact .nil
  | cons c inner ih =>
    rw [flatSize] at h
    have hpos : 0 < flatSize inner := Nat.pos_of_mul_pos_left (Nat.zero_lt_of_lt h)
    exact .cons ((Nat.div_lt_iff_lt_mul hpos).mpr h) (ih (Nat.mod_lt n hpos))

/-- Greater digits in the first place where two numbers differ make the greater number. -/
theorem encode_lt_encode {counts ks js : List Nat} (hks : IsDigits counts ks)
    (hjs : IsDigits counts js) (h : List.Lex (· < ·) ks js) :
    encode counts ks < encode counts js := by
  induction hks generalizing js with
  | nil => cases hjs; cases h
  | @cons k c ks inner _ hks ih =>
    cases hjs with
    | @cons j _ js _ _ hjs =>
      cases h with
      | cons h => exact Nat.add_lt_add_left (ih hjs h) _
      | rel h =>
        calc k * flatSize inner + encode inner ks
            < k * flatSize inner + flatSize inner := Nat.add_lt_add_left (encode_lt hks) _
          _ = (k + 1) * flatSize inner := (Nat.succ_mul ..).symm
          _ ≤ j * flatSize inner := Nat.mul_le_mul_right _ h
          _ ≤ j * flatSize inner + encode inner js := Nat.le_add_right ..

theorem encode_decode {counts : List Nat} {n : Nat} (h : n < flatSize counts) :
    encode counts (decode counts n) = n := by
  induction counts generalizing n with
  | nil => exact (Nat.lt_one_iff.mp h).symm
  | cons c inner ih =>
    rw [flatSize] at h
    have hpos : 0 < flatSize inner := Nat.pos_of_mul_pos_left (Nat.zero_lt_of_lt h)
    rw [decode, encode, ih (Nat.mod_lt n hpos), Nat.div_add_mod']

/-- Numbers are in the order of their digits. -/
theorem decode_lt_decode {counts : List Nat} {m n : Nat} (hm : m < flatSize counts)
    (hn : n < flatSize counts) : decode counts m < decode counts n ↔ m < n := by
  have ordered {i j : Nat} (hi : i < flatSize counts) (hj : j < flatSize counts)
      (h : decode counts i < decode counts j) : i < j := by
    rw [← encode_decode hi, ← encode_decode hj]
    exact encode_lt_encode (isDigits_decode hi) (isDigits_decode hj) h
  refine ⟨ordered hm hn, fun h => ?_⟩
  rcases Std.lt_trichotomy (decode counts m) (decode counts n) with less | same | greater
  · exact less
  · rw [← encode_decode hm, ← encode_decode hn, same] at h
    exact absurd h (Nat.lt_irrefl _)
  · exact absurd h (Nat.lt_asymm (ordered hn hm greater))

/-- Loops inside each other come to their iterations in the order of the numbers. -/
theorem map_decode_range_cons (c : Nat) (inner : List Nat) :
    (List.range (flatSize (c :: inner))).map (decode (c :: inner)) =
      (List.range c).flatMap fun k =>
        ((List.range (flatSize inner)).map (decode inner)).map (k :: ·) := by
  change (List.range (c * flatSize inner)).map
    (fun n => n / flatSize inner :: decode inner (n % flatSize inner)) = _
  induction c with
  | zero => simp
  | succ c ih =>
    have last : ((List.range (flatSize inner)).map (c * flatSize inner + ·)).map
          (fun n => n / flatSize inner :: decode inner (n % flatSize inner)) =
        ((List.range (flatSize inner)).map (decode inner)).map (c :: ·) := by
      simp only [List.map_map]
      refine List.map_congr_left fun n hn => ?_
      have hlt := List.mem_range.mp hn
      simp only [Function.comp_apply]
      rw [Nat.mul_comm c, Nat.mul_add_div (by omega), Nat.div_eq_of_lt hlt, Nat.mul_add_mod,
        Nat.mod_eq_of_lt hlt, Nat.add_zero]
    rw [Nat.succ_mul, List.range_add, List.map_append, last, ih, List.range_succ,
      List.flatMap_append]
    simp

/-! ## Counts of levels -/

theorem Wide.mulCount_eq_some {a b n : Nat} :
    mulCount a b = some n ↔ n = a * b ∧ a * b ≤ greatestCount := by
  unfold mulCount checkCount
  split
  · simp [*, eq_comm]
  · simp [*]

theorem TripCount.multiply_eq_some {acc : Option Nat} {t : TripCount} {n : Nat} :
    (do Wide.mulCount (← acc) (← t.value) : Option Nat) = some n ↔
      ∃ a c, acc = some a ∧ t.value = some c ∧ n = a * c ∧ a * c ≤ Wide.greatestCount := by
  simp only [Option.bind_eq_bind, Option.bind_eq_some_iff, Wide.mulCount_eq_some]
  constructor
  · rintro ⟨a, ha, c, hc, h⟩
    exact ⟨a, c, ha, hc, h⟩
  · rintro ⟨a, c, ha, hc, h⟩
    exact ⟨a, ha, c, hc, h⟩

/-- The factors of a product that is known are known, and the product is in range. -/
theorem TripCount.productValue_eq_some {trips : List TripCount} {n : Nat}
    (h : productValue trips = some n) :
    ∃ counts : List Nat, trips.map (·.value) = counts.map some ∧ n = flatSize counts ∧
      n ≤ Wide.greatestCount := by
  have go (trips : List TripCount) : ∀ acc : Option Nat, (∀ a ∈ acc, a ≤ Wide.greatestCount) →
      trips.foldl (fun acc c => do Wide.mulCount (← acc) (← c.value)) acc = some n →
      ∃ a, acc = some a ∧ ∃ counts : List Nat, trips.map (·.value) = counts.map some ∧
        n = a * flatSize counts ∧ n ≤ Wide.greatestCount := by
    induction trips with
    | nil =>
      rintro acc hacc rfl
      exact ⟨n, rfl, [], rfl, (Nat.mul_one n).symm, hacc n rfl⟩
    | cons t trips ih =>
      intro acc hacc h
      rw [List.foldl_cons] at h
      obtain ⟨b, hb, counts, hcounts, hn, hle⟩ := ih _ (fun b hb => by
        obtain ⟨a, c, -, -, rfl, hac⟩ := multiply_eq_some.mp hb
        exact hac) h
      obtain ⟨a, c, ha, hc, rfl, -⟩ := multiply_eq_some.mp hb
      exact ⟨a, ha, c :: counts, by simp [hc, hcounts], by rw [hn, flatSize, Nat.mul_assoc],
        hle⟩
  obtain ⟨a, ha, counts, hcounts, hn, hle⟩ := go trips (some 1) (by simp; decide) h
  cases ha
  exact ⟨counts, hcounts, by rw [hn, Nat.one_mul], hle⟩

/-- A product of positive counts is known where it is in range. -/
theorem TripCount.productValue_of_counts {trips : List TripCount} {counts : List Nat}
    (hcounts : trips.map (·.value) = counts.map some) (hpos : 0 < flatSize counts)
    (hle : flatSize counts ≤ Wide.greatestCount) : productValue trips = some (flatSize counts) := by
  have go (trips : List TripCount) : ∀ (counts : List Nat) (a : Nat),
      trips.map (·.value) = counts.map some → 0 < flatSize counts →
      a * flatSize counts ≤ Wide.greatestCount →
      trips.foldl (fun acc c => do Wide.mulCount (← acc) (← c.value)) (some a) =
        some (a * flatSize counts) := by
    induction trips with
    | nil =>
      intro counts a hcounts _ _
      cases counts with
      | nil => rw [List.foldl_nil, flatSize, Nat.mul_one]
      | cons => cases hcounts
    | cons t trips ih =>
      intro counts a hcounts hpos hle
      cases counts with
      | nil => cases hcounts
      | cons c counts =>
        obtain ⟨hc, hrest⟩ := List.cons.inj hcounts
        rw [flatSize] at hpos hle ⊢
        rw [← Nat.mul_assoc] at hle ⊢
        have hpos' := Nat.pos_of_mul_pos_left hpos
        have hfirst : a * c ≤ Wide.greatestCount :=
          Nat.le_trans (Nat.le_mul_of_pos_right _ hpos') hle
        rw [List.foldl_cons, multiply_eq_some.mpr ⟨a, c, rfl, hc, rfl, hfirst⟩]
        exact ih counts (a * c) hrest hpos' hle
  rw [productValue, go trips counts 1 hcounts hpos (by rwa [Nat.one_mul]), Nat.one_mul]

/-- The divisors of the recovery take a number apart into its digits. -/
theorem mixedDigits_recoveryFrom {width : Nat} {ty : Ty} {location : Location} {level : Nat}
    {remainder : Expr} {levels : List LoopLevel} {counts : List Nat}
    (hcounts : levels.map (·.tripCount.value) = counts.map some) (hpos : 0 < flatSize counts)
    (hle : flatSize counts ≤ Wide.greatestCount) (n : Nat) :
    mixedDigits ((recoveryFrom width ty location level remainder levels).map (·.divisorValue)) n =
      some (decode counts n) := by
  induction levels generalizing counts level remainder n with
  | nil =>
    cases counts with
    | nil => rfl
    | cons => cases hcounts
  | cons l inner ih =>
    cases counts with
    | nil => cases hcounts
    | cons c counts =>
      obtain ⟨-, hrest⟩ := List.cons.inj hcounts
      rw [flatSize] at hpos hle
      have hpos' := Nat.pos_of_mul_pos_left hpos
      have hle' := Nat.le_trans (Nat.le_mul_of_pos_left _ (Nat.pos_of_mul_pos_right hpos)) hle
      have divisor : TripCount.productValue (inner.map (·.tripCount)) = some (flatSize counts) :=
        TripCount.productValue_of_counts (by rw [List.map_map]; exact hrest) hpos' hle'
      rw [recoveryFrom, List.map_cons, divisor]
      obtain ⟨p, hp⟩ : ∃ p, flatSize counts = p + 1 := ⟨flatSize counts - 1, by omega⟩
      rw [hp, mixedDigits, ih hrest hpos' hle', decode, hp]
      · rfl
      · omega

end Directives
