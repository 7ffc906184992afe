import Directives.Proofs.NestPoint
/-!
The iterations of a nest and their numbers. Where the total trip count is known, the numbers below it
stand for the tuples of iterations of the levels, each for one tuple and each tuple for one number, in
the order in which the tuples are compared from the outermost level on. Other numbers stand for nothing.
-/

namespace Directives

namespace LoopNest

variable {n : LoopNest} {counts ks : List Nat}

/-- An iteration of every level, each within the trip count of its level. -/
def IsIteration (n : LoopNest) (ks : List Nat) : Prop :=
  List.Forall₂ (fun k (l : LoopLevel) => ∃ count, l.tripCount.value = some count ∧ k < count) ks
    n.levels

/-- Where the trip counts are known, iterations of the levels are digits. -/
theorem isIteration_iff (known : n.levels.map (·.tripCount.value) = counts.map some) :
    n.IsIteration ks ↔ IsDigits counts ks := by
  let within (k : Nat) (value : Option Nat) : Prop := ∃ count, value = some count ∧ k < count
  have tested : n.IsIteration ks ↔ List.Forall₂ within ks (n.levels.map (·.tripCount.value)) :=
    (List.forall₂_map_right_iff (R := within)).symm
  rw [tested, known, List.forall₂_map_right_iff]
  simp [within, IsDigits]

/-- Numbers below the total are taken apart by the divisors, and others are refused. -/
theorem indices?_eq_some {count iv : Nat} (total : n.total.value = some count)
    (digits : ∀ iv < count, mixedDigits (n.recovery.map (·.divisorValue)) iv = some (decode counts iv)) :
    n.indices? iv = some ks ↔ iv < count ∧ ks = decode counts iv := by
  rw [indices?, total]
  change (if iv < count then mixedDigits _ iv else none) = some ks ↔ _
  by_cases below : iv < count
  · rw [if_pos below, digits iv below, Option.some.injEq]
    exact ⟨fun h => ⟨below, h.symm⟩, fun h => h.2.symm⟩
  · rw [if_neg below]
    simp [below]

end LoopNest

/-- The numbers below the total trip count, and no others, stand for iterations of the levels of a nest.
There is exactly one number for every tuple of iterations that are within the trip counts, and the order
of the numbers is the lexicographic order of the tuples. -/
theorem iterations_numbered {o : Options} {s : Stmt} {depth : Nat} {decls : DeclTable} {n : LoopNest}
    {count : Nat} (canonical : (canonicalizeLoops o s depth decls).1 = .nest n)
    (total : n.total.value = some count) :
    (∀ iv, (n.indices? iv).isSome = true ↔ iv < count) ∧
    (∀ iv ks, n.indices? iv = some ks → n.IsIteration ks) ∧
    (∀ ks, n.IsIteration ks → ∃! iv, n.indices? iv = some ks) ∧
    ∀ iv jv ks js, n.indices? iv = some ks → n.indices? jv = some js → (iv < jv ↔ ks < js) := by
  obtain ⟨counts, known, rfl, digits⟩ := canonicalizeLoops_digits canonical total
  have number {iv : Nat} {ks : List Nat} :
      n.indices? iv = some ks ↔ iv < flatSize counts ∧ ks = decode counts iv :=
    LoopNest.indices?_eq_some total digits
  refine ⟨fun iv => ?_, fun iv ks h => ?_, fun ks h => ?_, fun iv jv ks js hks hjs => ?_⟩
  · rw [Option.isSome_iff_exists]
    exact ⟨fun ⟨_, h⟩ => (number.mp h).1, fun below => ⟨_, number.mpr ⟨below, rfl⟩⟩⟩
  · obtain ⟨below, rfl⟩ := number.mp h
    exact (LoopNest.isIteration_iff known).mpr (isDigits_decode below)
  · have isDigits := (LoopNest.isIteration_iff known).mp h
    refine ⟨encode counts ks, number.mpr ⟨encode_lt isDigits, (decode_encode isDigits).symm⟩, ?_⟩
    intro jv hjv
    obtain ⟨below, rfl⟩ := number.mp hjv
    exact (encode_decode below).symm
  · obtain ⟨hiv, rfl⟩ := number.mp hks
    obtain ⟨hjv, rfl⟩ := number.mp hjs
    exact (decode_lt_decode hiv hjv).symm

/-- The loops `for (i = 0; i < 3; i++) for (j = i; j < 4; j += 2)` have two iterations of `j` for each
of `i`, counted over the covering range. -/
theorem iterations_numbered_triangle :
    ∃ (s : Stmt) (n : LoopNest),
      (canonicalizeLoops {} s 2 (.integers ["i", "j"])).1 = .nest n ∧ n.total.value = some 6 ∧
        n.indices? 4 = some [2, 0] ∧ (∃! iv, n.indices? iv = some [2, 0]) ∧ n.indices? 6 = none := by
  let s := Stmt.countingLoop ⟨0⟩ (.ofInt 0 .int32 {}) .lt (.ofInt 3 .int32 {}) 1
    (.countingLoop ⟨1⟩ (.ofDecl ⟨0⟩ .int32 {}) .lt (.ofInt 4 .int32 {}) 2 (.null {}))
  obtain ⟨n, canonical, total, fourth⟩ :
      ∃ n, (canonicalizeLoops {} s 2 (.integers ["i", "j"])).1 = .nest n ∧ n.total.value = some 6 ∧
        n.indices? 4 = some [2, 0] :=
    NestOutcome.exists_of_decide _ (by decide +kernel)
  obtain ⟨defined, within, unique, -⟩ := iterations_numbered canonical total
  refine ⟨s, n, canonical, total, fourth, unique _ (within 4 _ fourth), ?_⟩
  rw [Option.eq_none_iff_forall_ne_some]
  intro ks h
  exact absurd ((defined 6).mp (by rw [h]; rfl)) (by decide)

end Directives
