import Directives.Proofs.Covering
import Directives.Proofs.Declarations
/-!
When the search for the loops of a directive comes to a nest, to failures, or is put off. A nest has all
the levels that the directive asks for, each linked to levels outside it; whatever fails is reported; and
what is dependent where it is needed puts the search off, whether something failed before or not.
-/

namespace Directives

/-! ## How many loops a directive applies to -/

/-- The expression is a constant that can count loops. -/
def Expr.IsCount (e : Expr) (count : Nat) : Prop :=
  e.constant? = some (count : Int) ∧ 0 < count ∧ count < capacity 64

namespace Region

/-- The directive collapses so many loops: one, if no clause says otherwise. -/
def Collapses (r : Region) (count : Nat) : Prop :=
  (r.collapse? = none ∧ count = 1) ∨
    ∃ e, r.collapse? = some e ∧ e.isDependent = false ∧ e.IsCount count

/-- The directive orders so many loops, if a clause says how many. -/
def Orders (r : Region) : Option Nat → Prop
  | none => ∀ e, r.ordered? ≠ some (some e)
  | some count => ∃ e, r.ordered? = some (some e) ∧ e.isDependent = false ∧ e.IsCount count

/-- The loops that a directive applies to, by its clauses. -/
structure AppliesTo (r : Region) (a : Association) : Prop where
  collapse : r.Collapses a.collapse
  ordered : r.Orders a.ordered
  covers : ∀ count ∈ a.ordered, a.collapse ≤ count
  depth : a.depth = max a.collapse (a.ordered.getD 0)

end Region

theorem Expr.positive?_eq_ok {e : Expr} {count : Nat} : e.positive? = .ok count ↔ e.IsCount count := by
  unfold positive? IsCount
  cases e.constant? with
  | none => simp
  | some v =>
    dsimp only
    split
    · rename_i range
      rw [Except.ok.injEq, Option.some.injEq]
      constructor
      · rintro rfl
        omega
      · rintro ⟨rfl, -⟩
        exact Int.toNat_natCast count
    · rename_i range
      rw [Option.some.injEq]
      refine ⟨nofun, ?_⟩
      rintro ⟨rfl, positive, small⟩
      omega

namespace Region

variable {r : Region} {count : Nat} {a : Association}

theorem collapseDepth_eq_none :
    r.collapseDepth = .ok none ↔ ∃ e, r.collapse? = some e ∧ e.isDependent = true := by
  unfold collapseDepth
  cases r.collapse? with
  | none => simp
  | some e =>
    cases dependent : e.isDependent <;> cases value : e.positive? <;>
      simp [Except.map, dependent, value]

theorem collapseDepth_eq_some : r.collapseDepth = .ok (some count) ↔ r.Collapses count := by
  unfold collapseDepth Collapses
  cases r.collapse? with
  | none =>
    simp only [Except.ok.injEq, Option.some.injEq, true_and, reduceCtorEq, false_and, exists_false,
      or_false]
    exact eq_comm
  | some e =>
    simp only [reduceCtorEq, false_and, false_or, Option.some.injEq, exists_eq_left',
      ← Expr.positive?_eq_ok]
    cases dependent : e.isDependent <;> cases e.positive? <;> simp [Except.map]

/-- Without an argument of `ordered`, the collapsed loops are meant. -/
theorem association_of_not_ordered (collapse : r.collapseDepth = .ok (some count))
    (ordered : ∀ e, r.ordered? ≠ some (some e)) : r.association = .ok (some ⟨count, count, none⟩) := by
  unfold association
  rw [collapse]
  rcases clause : r.ordered? with _ | _ | e
  · rfl
  · rfl
  · exact absurd clause (ordered e)

/-- The argument of `ordered` is asked for only where that of `collapse` is fine. -/
theorem association_of_ordered {e : Expr} (collapse : r.collapseDepth = .ok (some count))
    (ordered : r.ordered? = some (some e)) :
    r.association =
      if e.isDependent then .ok none
      else e.positive?.bind fun n =>
        if n < count then .error (.nonCanonical .clauseArgument e.location)
        else .ok (some ⟨max count n, count, some n⟩) := by
  unfold association
  rw [collapse, ordered]
  cases dependent : e.isDependent <;> simp [dependent] <;> rfl

theorem association_eq_none :
    r.association = .ok none ↔ (∃ e, r.collapse? = some e ∧ e.isDependent = true) ∨
      ∃ count e, r.Collapses count ∧ r.ordered? = some (some e) ∧ e.isDependent = true := by
  simp only [← collapseDepth_eq_none, ← collapseDepth_eq_some]
  rcases collapse : r.collapseDepth with failure | _ | count
  · simp [association, collapse, bind, Except.bind]
  · simp [association, collapse, bind, Except.bind, pure, Except.pure]
  · by_cases ordered : ∃ e, r.ordered? = some (some e)
    · obtain ⟨e, ordered⟩ := ordered
      rw [association_of_ordered collapse ordered]
      cases dependent : e.isDependent
      · cases e.positive? <;> simp [Except.bind, ordered, dependent]
        split <;> simp
      · simp [ordered, dependent]
    · rw [association_of_not_ordered collapse fun e h => ordered ⟨e, h⟩]
      simp only [not_exists] at ordered
      simp [ordered]

theorem appliesTo_of_association (h : r.association = .ok (some a)) : r.AppliesTo a := by
  rcases collapse : r.collapseDepth with failure | _ | count
  · simp [association, collapse, bind, Except.bind] at h
  · simp [association, collapse, bind, Except.bind, pure, Except.pure] at h
  have collapses := collapseDepth_eq_some.mp collapse
  by_cases ordered : ∃ e, r.ordered? = some (some e)
  · obtain ⟨e, ordered⟩ := ordered
    rw [association_of_ordered collapse ordered] at h
    cases dependent : e.isDependent with
    | true => simp [dependent] at h
    | false =>
      rcases value : e.positive? with _ | n
      · simp [dependent, value, Except.bind] at h
      · simp only [dependent, value, Except.bind, Bool.false_eq_true, if_false] at h
        split at h
        · cases h
        · rename_i covers
          cases h
          exact {
            collapse := collapses
            ordered := ⟨e, ordered, dependent, Expr.positive?_eq_ok.mp value⟩
            covers := by simpa using covers
            depth := rfl }
  · have unordered (e : Expr) : r.ordered? ≠ some (some e) := fun h => ordered ⟨e, h⟩
    rw [association_of_not_ordered collapse unordered] at h
    cases h
    exact ⟨collapses, unordered, nofun, (Nat.max_zero count).symm⟩

theorem AppliesTo.association (h : r.AppliesTo a) : r.association = .ok (some a) := by
  obtain ⟨depth, collapse, ordered⟩ := a
  obtain ⟨collapses, orders, covers, depth_eq⟩ := h
  have collapse := collapseDepth_eq_some.mpr collapses
  cases ordered with
  | none =>
    simp only [Option.getD_none, Nat.max_zero] at depth_eq
    rw [association_of_not_ordered collapse orders, depth_eq]
  | some n =>
    obtain ⟨e, ordered, dependent, value⟩ := orders
    simp only [Option.mem_def, Option.some.injEq, forall_eq', Option.getD_some] at covers depth_eq
    rw [association_of_ordered collapse ordered, Expr.positive?_eq_ok.mpr value]
    simp [dependent, Except.bind, Nat.not_lt.mpr covers, depth_eq]

end Region

/-! ## Loops that are reached -/

/-- The loops that a search of this depth reaches from a statement on: each stands alone in the one
before. -/
def Stmt.reached : (depth : Nat) → Stmt → List Stmt
  | 0, _ => []
  | depth + 1, s =>
    match s.single with
    | .forLoop location init cond inc body =>
      .forLoop location init cond inc body :: body.reached depth
    | _ => []

/-- A search is put off exactly by a dependent header that it reaches, whatever failed before. -/
theorem canonicalizeFrom_eq_deferred {o : Options} {remaining level : Nat} {s : Stmt}
    {outer : List LoopLevel} {failures : List (Nat × LoopFailure)} {decls : DeclTable} :
    (canonicalizeFrom o remaining level s.single outer failures decls).1 = .deferred ↔
      ∃ loop ∈ s.reached remaining, loop.headerIsDependent = true := by
  induction remaining generalizing level s outer failures decls with
  | zero =>
    rw [canonicalizeFrom, Stmt.reached]
    split <;> simp
  | succ remaining ih =>
    unfold canonicalizeFrom Stmt.reached
    generalize s.single = loop
    cases loop with
    | forLoop location init cond inc body =>
      simp only [List.mem_cons, exists_eq_or_imp]
      split
      · rename_i dependent
        simp [dependent]
      · rename_i dependent
        simp only [dependent, Bool.false_eq_true, false_or]
        split
        · exact ih
        · split <;> exact ih
    | _ => simp

/-- A search that fails has a failure. -/
theorem canonicalizeFrom_eq_invalid {o : Options} {remaining level : Nat} {s : Stmt}
    {outer : List LoopLevel} {failures found : List (Nat × LoopFailure)} {decls : DeclTable}
    (h : (canonicalizeFrom o remaining level s outer failures decls).1 = .invalid found) :
    found ≠ [] := by
  induction remaining generalizing level s outer failures decls with
  | zero =>
    rw [canonicalizeFrom] at h
    split at h
    · cases h
    · rename_i some
      cases h
      exact fun none => some (List.isEmpty_iff.mpr none)
  | succ remaining ih =>
    unfold canonicalizeFrom at h
    split at h
    · split at h
      · cases h
      · split at h
        · exact ih h
        · split at h <;> exact ih h
    · cases h
      simp

/-! ## Whole nests -/

/-- The dependencies of a level lead to levels outside it. A bound has a covering range where it depends
on one of them, and then the condition is kept to be tested again. -/
structure LoopLevel.IsLinked (l : LoopLevel) : Prop where
  lower : ∀ i ∈ l.lowerDependency, i < l.level
  upper : ∀ i ∈ l.upperDependency, i < l.level
  lowerCovering : l.lowerCovering.isSome = l.lowerDependency.isSome
  upperCovering : l.upperCovering.isSome = l.upperDependency.isSome
  finalCondition : l.finalCondition.isSome = (l.lowerDependency.isSome || l.upperDependency.isSome)

/-- The nest has so many levels, and a row of the recovery for each. -/
structure LoopNest.IsWhole (n : LoopNest) (depth : Nat) : Prop where
  levels : n.levels.map (·.level) = List.range depth
  recovery : n.recovery.map (·.level) = List.range depth
  linked : ∀ l ∈ n.levels, l.IsLinked

/-- A bound depends on a level that there is. -/
theorem boundDependency_lt {e : Expr} {ty : Ty} {outer : List LoopLevel} {dependency : Option Nat}
    (h : boundDependency e ty outer = .ok dependency) : ∀ i ∈ dependency, i < outer.length := by
  intro i hi
  obtain ⟨l, found, -⟩ := boundDependency_eq_ok h hi
  exact (List.getElem?_eq_some_iff.mp found).1

theorem LoopLevel.isSome_coveringIn {outer : List LoopLevel} {bound : Expr} {dependency : Option Nat}
    (within : ∀ i ∈ dependency, i < outer.length) :
    (coveringIn outer bound dependency).isSome = dependency.isSome := by
  cases dependency with
  | none => rfl
  | some i => simp [coveringIn, within i rfl]

theorem LoopLevel.BuiltFrom.isLinked {l : LoopLevel} {f : ForHeader} {r : Relation}
    {outer : List LoopLevel} (built : l.BuiltFrom f r outer) (level : outer.length = l.level) :
    l.IsLinked where
  lower := level ▸ boundDependency_lt built.lowerDependency
  upper := level ▸ boundDependency_lt built.upperDependency
  lowerCovering := by
    rw [built.lowerCovering]
    exact isSome_coveringIn (boundDependency_lt built.lowerDependency)
  upperCovering := by
    rw [built.upperCovering]
    exact isSome_coveringIn (boundDependency_lt built.upperDependency)
  finalCondition := by
    rw [built.finalCondition]
    change _ = l.isNonRectangular
    cases l.isNonRectangular <;> rfl

theorem levels_numbered {o : Options} {remaining level : Nat} {s : Stmt} {outer : List LoopLevel}
    {failures : List (Nat × LoopFailure)} {decls : DeclTable} {n : LoopNest}
    (h : (canonicalizeFrom o remaining level s outer failures decls).1 = .nest n)
    (before : outer.map (·.level) = List.range level) :
    n.levels.map (·.level) = List.range (level + remaining) := by
  induction remaining generalizing level s outer failures decls with
  | zero =>
    cases failures_eq_nil_of_nest h
    cases h
    exact before
  | succ remaining ih =>
    obtain ⟨_, _, _, _, _, _, l, _, -, -, made, inside⟩ := canonicalizeFrom_succ_eq_nest h
    rw [← Nat.add_assoc, Nat.add_right_comm]
    refine ih inside ?_
    rw [List.map_append, before, List.range_succ, List.map_singleton,
      (LoopLevel.ofHeader_eq_ok made).2.1]

theorem recoveryFrom_numbered {width : Nat} {ty : Ty} {location : Location} {level : Nat}
    {remainder : Expr} {ls : List LoopLevel} :
    (recoveryFrom width ty location level remainder ls).map (·.level) =
      List.range' level ls.length := by
  induction ls generalizing level remainder with
  | nil => rfl
  | cons l ls ih => rw [recoveryFrom, List.map_cons, ih, List.length_cons, List.range'_succ]

/-- A nest has the levels that were asked for. -/
theorem isWhole_of_canonicalizeLoops {o : Options} {s : Stmt} {depth : Nat} {decls : DeclTable}
    {n : LoopNest} (canonical : (canonicalizeLoops o s depth decls).1 = .nest n) : n.IsWhole depth := by
  have numbered : n.levels.map (·.level) = List.range depth := by
    rw [← Nat.zero_add depth]
    exact levels_numbered (canonicalizeFrom_of_canonicalizeLoops canonical) rfl
  have length : n.levels.length = depth := by
    rw [← List.length_map, numbered, List.length_range]
  refine { levels := numbered, recovery := ?_, linked := fun l hl => ?_ }
  · obtain ⟨ty, location, rows⟩ := recovery_eq_recoveryFrom canonical
    rw [rows, recoveryFrom_numbered, length, List.range_eq_range']
  · obtain ⟨k, hk⟩ := List.getElem?_of_mem hl
    obtain ⟨_, _, built⟩ := builtFrom_of_canonicalizeLoops canonical hk
    refine built.isLinked ?_
    have number : some l.level = (List.range depth)[k]? := by
      rw [← numbered, List.getElem?_map, hk, Option.map_some]
    obtain ⟨below, number⟩ := List.getElem?_eq_some_iff.mp number.symm
    rw [List.getElem_range] at number
    rw [List.length_range] at below
    rw [List.length_take, length, ← number]
    omega

/-! ## Outcomes -/

/-- More loops belong to the region than there is room for. -/
def Region.LacksRoom (o : Options) (r : Region) : Prop :=
  r.body.isSome = true ∧ ∃ a, r.AppliesTo a ∧ o.levelRoom < a.depth

/-- What is needed to find the loops of a directive is dependent. -/
inductive Region.IsDeferred (r : Region) : Prop
  | collapse {e : Expr} (argument : r.collapse? = some e) (dependent : e.isDependent = true)
  | ordered {count : Nat} {e : Expr} (collapses : r.Collapses count)
      (argument : r.ordered? = some (some e)) (dependent : e.isDependent = true)
  | header {a : Association} {body loop : Stmt} (applies : r.AppliesTo a) (ofRegion : r.body = some body)
      (reached : loop ∈ body.reached a.depth) (dependent : loop.headerIsDependent = true)

section
variable {o : Options} {r : Region} {decls : DeclTable}

theorem canonicalizeNest_eq_nest {n : LoopNest} (h : (canonicalizeNest o r decls).1 = .nest n) :
    ∃ a body, r.association = .ok (some a) ∧ r.body = some body ∧
      (canonicalizeLoops o body a.depth decls).1 = .nest n := by
  unfold canonicalizeNest at h
  split at h
  · cases h
  · cases h
  · rename_i a association
    split at h
    · cases h
    · rename_i body ofRegion
      exact ⟨a, body, association, ofRegion, h⟩

/-- A region lacks room whatever its loops look like. -/
theorem canonicalizeNest_eq_noRoom : (canonicalizeNest o r decls).1 = .noRoom ↔ r.LacksRoom o := by
  unfold canonicalizeNest
  constructor
  · intro h
    split at h
    · cases h
    · cases h
    · rename_i a association
      split at h
      · cases h
      · rename_i body ofRegion
        unfold canonicalizeLoops at h
        split at h
        · -- A search never asks for room.
          exact absurd h canonicalizeFrom_ne_noRoom
        · rename_i little
          exact ⟨Option.isSome_of_eq_some ofRegion, a, Region.appliesTo_of_association association,
            Nat.lt_of_not_le little⟩
  · rintro ⟨ofRegion, a, applies, little⟩
    obtain ⟨body, ofRegion⟩ := Option.isSome_iff_exists.mp ofRegion
    rw [applies.association, ofRegion]
    dsimp only
    rw [canonicalizeLoops, if_neg (Nat.not_le_of_lt little)]

theorem canonicalizeNest_eq_invalid {found : List (Nat × LoopFailure)}
    (h : (canonicalizeNest o r decls).1 = .invalid found) : found ≠ [] := by
  unfold canonicalizeNest at h
  split at h
  · cases h
    simp
  · cases h
  · split at h
    · cases h
      simp
    · unfold canonicalizeLoops at h
      split at h
      · exact canonicalizeFrom_eq_invalid h
      · cases h

theorem isDeferred_of_canonicalizeNest (h : (canonicalizeNest o r decls).1 = .deferred) :
    r.IsDeferred := by
  unfold canonicalizeNest at h
  split at h
  · cases h
  · rename_i association
    obtain ⟨e, argument, dependent⟩ | ⟨count, e, collapses, argument, dependent⟩ :=
      Region.association_eq_none.mp association
    · exact .collapse argument dependent
    · exact .ordered collapses argument dependent
  · rename_i a association
    split at h
    · cases h
    · rename_i body ofRegion
      unfold canonicalizeLoops at h
      split at h
      · obtain ⟨loop, reached, dependent⟩ := canonicalizeFrom_eq_deferred.mp h
        exact .header (Region.appliesTo_of_association association) ofRegion reached dependent
      · cases h

theorem canonicalizeNest_eq_deferred :
    (canonicalizeNest o r decls).1 = .deferred ↔ r.IsDeferred ∧ ¬ r.LacksRoom o := by
  constructor
  · intro h
    refine ⟨isDeferred_of_canonicalizeNest h, fun lacks => ?_⟩
    rw [canonicalizeNest_eq_noRoom.mpr lacks] at h
    cases h
  · rintro ⟨deferred, room⟩
    cases deferred with
    | collapse argument dependent =>
      rw [canonicalizeNest, Region.association_eq_none.mpr (.inl ⟨_, argument, dependent⟩)]
    | ordered collapses argument dependent =>
      rw [canonicalizeNest,
        Region.association_eq_none.mpr (.inr ⟨_, _, collapses, argument, dependent⟩)]
    | header applies ofRegion reached dependent =>
      rw [canonicalizeNest, applies.association, ofRegion]
      have little := fun lacks => room ⟨Option.isSome_of_eq_some ofRegion, _, applies, lacks⟩
      dsimp only
      rw [canonicalizeLoops, if_pos (Nat.le_of_not_lt little)]
      exact canonicalizeFrom_eq_deferred.mpr ⟨_, reached, dependent⟩

end

/-- A nest is handed out whole or not at all. A nest has all the loops that the directive applies to, by
its arguments, and nothing is reported. The search fails exactly if something is reported. It is put off,
with nothing reported, exactly if an argument that is asked for is dependent or the header of one of the
loops that are reached, also inside loops that failed. All this is so where there is room for the loops
that the directive asks for; elsewhere nothing is handed out, whatever the loops are. -/
theorem nest_whole_or_not_at_all (o : Options) (r : Region) (decls : DeclTable) :
    (∀ n, (canonicalizeNest o r decls).1 = .nest n →
      (∃ a, r.association = .ok (some a) ∧ r.AppliesTo a ∧ n.IsWhole a.depth) ∧
        (canonicalizeNest o r decls).1.diagnostics = []) ∧
    ((∃ found, (canonicalizeNest o r decls).1 = .invalid found) ↔
      (canonicalizeNest o r decls).1.diagnostics ≠ []) ∧
    ((canonicalizeNest o r decls).1 = .deferred ↔ r.IsDeferred ∧ ¬ r.LacksRoom o) ∧
    (r.IsDeferred → (canonicalizeNest o r decls).1.diagnostics = []) ∧
    ((canonicalizeNest o r decls).1 = .noRoom ↔ r.LacksRoom o) := by
  refine ⟨fun n h => ⟨?_, ?_⟩, ⟨?_, ?_⟩, canonicalizeNest_eq_deferred, fun deferred => ?_,
    canonicalizeNest_eq_noRoom⟩
  · obtain ⟨a, body, association, -, canonical⟩ := canonicalizeNest_eq_nest h
    exact ⟨a, association, Region.appliesTo_of_association association,
      isWhole_of_canonicalizeLoops canonical⟩
  · rw [h]
    rfl
  · rintro ⟨found, h⟩
    rw [h, NestOutcome.diagnostics, Ne, List.map_eq_nil_iff]
    exact canonicalizeNest_eq_invalid h
  · intro reported
    cases h : (canonicalizeNest o r decls).1 with
    | invalid found => exact ⟨found, rfl⟩
    | nest | deferred | noRoom => exact absurd (by rw [h]; rfl) reported
  · by_cases lacks : r.LacksRoom o
    · rw [canonicalizeNest_eq_noRoom.mpr lacks]
      rfl
    · rw [canonicalizeNest_eq_deferred.mpr ⟨deferred, lacks⟩]
      rfl

/-- The outer loop `for (i = 0; i < 4; i -= 1)` fails, and the bound of `j` inside is dependent: nothing
is reported. -/
theorem nest_whole_or_not_at_all_dependent :
    ∃ r : Region, r.IsDeferred ∧ (canonicalizeNest {} r (.integers ["i", "j"])).1 = .deferred ∧
      (canonicalizeNest {} r (.integers ["i", "j"])).1.diagnostics = [] := by
  let bound : Expr := .intLit { ty := .int32, location := {}, dependent := true } 9
  let inner := Stmt.countingLoop ⟨1⟩ (.ofInt 0 .int32 {}) .lt bound 1 (.null {})
  let s := Stmt.countingLoop ⟨0⟩ (.ofInt 0 .int32 {}) .lt (.ofInt 4 .int32 {}) (-1) inner
  let r : Region :=
    { kind := .forLoop, clauses := [⟨.collapse (.ofInt 2 .int32 {}), [], {}⟩], body := some s
      location := {} }
  have applies : r.AppliesTo ⟨2, 2, none⟩ := Region.appliesTo_of_association rfl
  have deferred : r.IsDeferred := .header applies rfl (.tail _ (.head _)) rfl
  obtain ⟨-, -, putOff, silent, lacking⟩ := nest_whole_or_not_at_all {} r (.integers ["i", "j"])
  refine ⟨r, deferred, putOff.mpr ⟨deferred, fun lacks => ?_⟩, silent deferred⟩
  have outcome := lacking.mpr lacks
  cases outcome

/-- With `collapse(2 ^ 62)` on one loop, the header of which is dependent, the search is not put off: there
is no room for the levels. -/
theorem dependent_nest_without_room :
    ∃ r : Region, r.IsDeferred ∧ (canonicalizeNest {} r (.integers ["i"])).1 = .noRoom := by
  let bound : Expr := .intLit { ty := .int32, location := {}, dependent := true } 8
  let s := Stmt.countingLoop ⟨0⟩ (.ofInt 0 .int32 {}) .lt bound 1 (.null {})
  let r : Region :=
    { kind := .forLoop, clauses := [⟨.collapse (.ofInt 4611686018427387904 .int64 {}), [], {}⟩]
      body := some s, location := {} }
  have applies : r.AppliesTo ⟨4611686018427387904, 4611686018427387904, none⟩ :=
    Region.appliesTo_of_association rfl
  have room : ({} : Options).levelRoom < 4611686018427387904 := by decide
  refine ⟨r, .header applies rfl (.head _) rfl, ?_⟩
  exact canonicalizeNest_eq_noRoom.mpr ⟨rfl, _, applies, room⟩

end Directives
