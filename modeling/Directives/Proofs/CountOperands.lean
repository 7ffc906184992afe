import Directives.Proofs.Declarations
import Directives.Proofs.NestRun
import Directives.Proofs.References
/-!
What the counts of a nest refer to. The counts are needed before any counter of the nest has a
value. Where a bound depends on an outer counter, its covering range takes its place, and the counter
is gone; a step is taken as it is.
-/

namespace Directives

variable {c : DeclId}

/-! ## Trip counts -/

@[simp] theorem LoopBounds.references_precondition (b : LoopBounds) (c : DeclId) :
    b.precondition.references c = (b.lower.references c || b.upper.references c) :=
  Expr.references_mkBinary ..

/-- A trip count refers to what its operands refer to. -/
theorem LoopBounds.references_tripCount (b : LoopBounds) (width : Nat) (c : DeclId) :
    (b.tripCount width).expr.references c =
      (b.lower.references c || b.upper.references c || b.step.references c) := by
  unfold tripCount
  cases b.ascending <;> cases b.strict <;> simp <;>
    cases b.lower.references c <;> cases b.upper.references c <;> simp

theorem TripCount.references_product (counts : List TripCount) (width : Nat)
    (free : ∀ t ∈ counts, t.expr.references c = false) :
    (product counts width).expr.references c = false := by
  have factors (ty : Ty) (rest : List TripCount) (e : Expr) (he : e.references c = false)
      (hrest : ∀ t ∈ rest, t.expr.references c = false) :
      (rest.foldl (fun acc t => Expr.arith .mul acc t.expr ty) e).references c = false := by
    induction rest generalizing e with
    | nil => exact he
    | cons t rest ih =>
      rw [List.forall_mem_cons] at hrest
      exact ih _ (by rw [Expr.references_arith, he, hrest.1]; rfl) hrest.2
  unfold product
  cases counts with
  | nil => rfl
  | cons t rest =>
    rw [List.forall_mem_cons] at free
    dsimp only
    rw [Expr.references_castTo]
    exact factors _ rest t.expr free.1 free.2

theorem references_divisor_of_recoveryFrom {width : Nat} {ty : Ty} {location : Location}
    {level : Nat} {remainder : Expr} {ls : List LoopLevel}
    (free : ∀ l ∈ ls, l.tripCount.expr.references c = false) :
    ∀ r ∈ recoveryFrom width ty location level remainder ls, r.divisor.references c = false := by
  induction ls generalizing level remainder with
  | nil =>
    intro r hr
    cases hr
  | cons l inner ih =>
    rw [List.forall_mem_cons] at free
    rw [recoveryFrom, List.forall_mem_cons]
    refine ⟨?_, ih free.2⟩
    dsimp only
    split
    · rfl
    · rw [Expr.references_castTo]
      exact TripCount.references_product _ _ (List.forall_mem_map.mpr free.2)

/-! ## Covering ranges -/

namespace LoopLevel

/-- What the trip count of a level is made of does not refer to the variable. -/
structure OperandsWithout (l : LoopLevel) (c : DeclId) : Prop where
  lower : l.effectiveLower.references c = false
  upper : l.effectiveUpper.references c = false
  step : l.step.references c = false

section
variable {l : LoopLevel} {width : Nat} {outer : List LoopLevel} {e : Expr} {ty : Ty}
  {dependency : Option Nat}

/-- A level has the trip count and the precondition of its covering range. -/
theorem OperandsWithout.counts (h : l.OperandsWithout c) (counted : l.counted width = l) :
    l.tripCount.expr.references c = false ∧ l.precondition.references c = false := by
  rw [← counted]
  simp [LoopLevel.counted, LoopBounds.references_tripCount, bounds, h.lower, h.upper, h.step]

theorem operandsWithout_of_counts (counted : l.counted width = l)
    (count : l.tripCount.expr.references c = false) : l.OperandsWithout c := by
  rw [← counted] at count
  simp only [LoopLevel.counted, LoopBounds.references_tripCount, bounds,
    Bool.or_eq_false_iff] at count
  exact ⟨count.1.1, count.1.2, count.2⟩

/-- The last value of the counter over its covering range, as it is put into a bound. -/
def last (l : LoopLevel) (location : Location) : Expr :=
  match l.lastValue? with
  | some v => .ofInt v l.counterTy location
  | none => l.lastExpr location

theorem OperandsWithout.last (h : l.OperandsWithout c) (counted : l.counted width = l)
    (location : Location) : (l.last location).references c = false := by
  unfold LoopLevel.last
  split
  · rfl
  · simp [lastExpr, h.lower, h.step, (h.counts counted).1]

/-- An end of a covering range is the bound at the first or at the last value of a counter, or a
choice between the two. -/
inductive CoveringEnd (first last : Expr) : Expr → Prop where
  | first : CoveringEnd first last first
  | last : CoveringEnd first last last
  | pick (op : BinaryOp) :
      CoveringEnd first last (.mkConditional (.mkBinary op first last) first last)

theorem CoveringEnd.references {first last v : Expr} (h : CoveringEnd first last v) (value : Bool)
    (hfirst : first.references c = value) (hlast : last.references c = value) :
    v.references c = value := by
  cases h with
  | first => exact hfirst
  | last => exact hlast
  | pick op => simp [hfirst, hlast]

theorem coveringEnd_covering (l : LoopLevel) (e : Expr) (low : Bool) :
    CoveringEnd (e.substitute l.counter l.effectiveLower)
      (e.substitute l.counter (l.last e.location))
      (if low then (l.covering e).min else (l.covering e).max) := by
  have ends : CoveringEnd (e.substitute l.counter l.effectiveLower)
        (e.substitute l.counter (l.last e.location)) (l.covering e).min ∧
      CoveringEnd (e.substitute l.counter l.effectiveLower)
        (e.substitute l.counter (l.last e.location)) (l.covering e).max := by
    unfold covering
    dsimp only
    split
    · split
      · exact ⟨.first, .last⟩
      · exact ⟨.last, .first⟩
    · exact ⟨.pick .le, .pick .ge⟩
  cases low
  · exact ends.2
  · exact ends.1

/-- The end of the covering range that a bound has inside outer levels, or the bound itself. -/
def boundEnd (outer : List LoopLevel) (e : Expr) (dependency : Option Nat) (low : Bool) : Expr :=
  match coveringIn outer e dependency with
  | some c => if low then c.min else c.max
  | none => e

theorem BuiltFrom.effectiveLower {f : ForHeader} {r : Relation} (built : l.BuiltFrom f r outer) :
    l.effectiveLower = boundEnd outer l.lower l.lowerDependency l.ascending := by
  rw [LoopLevel.effectiveLower, built.lowerCovering]
  rfl

theorem BuiltFrom.effectiveUpper {f : ForHeader} {r : Relation} (built : l.BuiltFrom f r outer) :
    l.effectiveUpper = boundEnd outer l.upper l.upperDependency (!l.ascending) := by
  rw [LoopLevel.effectiveUpper, built.upperCovering, boundEnd]
  cases l.ascending <;> rfl

theorem boundEnd_some {i : Nat} (hl : outer[i]? = some l) (low : Bool) :
    boundEnd outer e (some i) low = if low then (l.covering e).min else (l.covering e).max := by
  simp [boundEnd, coveringIn, hl]

/-- A bound that refers to an outer counter depends on the level of that counter. -/
theorem dependency_of_references (h : boundDependency e ty outer = .ok dependency) (mem : l ∈ outer)
    (refers : e.references l.counter = true) :
    ∃ i, dependency = some i ∧ outer[i]? = some l := by
  obtain ⟨i, hi⟩ := List.getElem?_of_mem mem
  have found : (l, i) ∈ outer.zipIdx.filter fun p => e.references p.1.counter :=
    List.mem_filter.mpr ⟨List.mk_mem_zipIdx_iff_getElem?.mpr hi, refers⟩
  unfold boundDependency at h
  split at h
  · rename_i none
    rw [none] at found
    cases found
  · rename_i l' i' one
    rw [one] at found
    cases List.mem_singleton.mp found
    split at h
    · cases h
      exact ⟨i, rfl, hi⟩
    · cases h
  · cases h

/-- Inside levels whose operands do not refer to a variable, neither does the end of a bound that
refers to it only where it is an outer counter. -/
theorem boundEnd_without (h : boundDependency e ty outer = .ok dependency)
    (free : ∀ l ∈ outer, l.OperandsWithout c ∧ l.counted width = l)
    (outside : e.references c = true → c ∈ countersOf outer) (low : Bool) :
    (boundEnd outer e dependency low).references c = false := by
  cases dependency with
  | none =>
    refine Bool.eq_false_iff.mpr fun refers => ?_
    obtain ⟨l, hl, rfl⟩ := List.mem_map.mp (outside refers)
    obtain ⟨i, hi, -⟩ := dependency_of_references h hl refers
    cases hi
  | some i =>
    obtain ⟨l, hl, -, affine⟩ := boundDependency_eq_ok h rfl
    obtain ⟨operands, counted⟩ := free l (List.mem_of_getElem? hl)
    have replaced {r : Expr} (hr : r.references c = false) :
        (e.substitute l.counter r).references c = false := by
      refine Bool.eq_false_iff.mpr fun refers => ?_
      obtain refers' | refers' := Expr.references_of_substitute refers
      · -- the bound refers to one outer counter only, and that one is replaced
        obtain ⟨l', hl', rfl⟩ := List.mem_map.mp (outside refers')
        obtain ⟨j, hj, found⟩ := dependency_of_references h hl' refers'
        cases hj
        cases hl.symm.trans found
        obtain ⟨k, -, shows⟩ := Expr.exists_showsDegree affine
        rw [Expr.references_substitute_self shows hr] at refers
        cases refers
      · rw [hr] at refers'
        cases refers'
    rw [boundEnd_some hl]
    exact (coveringEnd_covering l e low).references false (replaced operands.lower)
      (replaced (operands.last counted _))

/-- A bound whose end does not refer to a variable refers to it only if it is an outer counter. -/
theorem mem_countersOf_of_boundEnd (h : boundDependency e ty outer = .ok dependency) {low : Bool}
    (free : (boundEnd outer e dependency low).references c = false)
    (refers : e.references c = true) : c ∈ countersOf outer := by
  cases dependency with
  | none =>
    rw [show boundEnd outer e none low = e from rfl, refers] at free
    cases free
  | some i =>
    obtain ⟨l, hl, -⟩ := boundDependency_eq_ok h rfl
    by_cases same : c = l.counter
    · exact List.mem_map.mpr ⟨l, List.mem_of_getElem? hl, same.symm⟩
    · have kept := (coveringEnd_covering l e low).references true
        (Expr.references_substitute_of_ne same refers)
        (Expr.references_substitute_of_ne same refers)
      rw [boundEnd_some hl, kept] at free
      cases free

end

end LoopLevel

/-! ## Levels inside each other -/

/-- Every level of a nest has the trip count and the precondition of its covering range. -/
theorem counted_of_canonicalizeLoops {o : Options} {s : Stmt} {depth : Nat} {decls : DeclTable}
    {n : LoopNest} (h : (canonicalizeLoops o s depth decls).1 = .nest n) :
    ∀ l ∈ n.levels, l.counted o.iterationWidth = l := by
  have ends : SearchEnds o (fun ls _ => ∀ l ∈ ls, l.counted o.iterationWidth = l)
      (canonicalizeLoops o s depth decls) := by
    refine canonicalizeLoops_ends (fun before _ made => ?_) s depth fun _ h =>
      absurd h List.not_mem_nil
    refine List.forall_mem_append.mpr ⟨before, ?_⟩
    exact List.forall_mem_singleton.mpr (LoopLevel.ofHeader_eq_ok made).1
  obtain ⟨_, counted, -⟩ := ends.exists_of_nest h
  exact counted

/-- The counts of a nest do not refer to the variable. -/
structure LoopNest.CountsWithout (n : LoopNest) (c : DeclId) : Prop where
  total : n.total.expr.references c = false
  levels : ∀ l ∈ n.levels,
    l.tripCount.expr.references c = false ∧ l.precondition.references c = false
  divisors : ∀ r ∈ n.recovery, r.divisor.references c = false

/-- The step of a level does not refer to the variable, and its bounds do so only where it is the
counter of an outer level. -/
structure LoopLevel.RefersOutside (l : LoopLevel) (outer : List LoopLevel) (c : DeclId) : Prop where
  step : l.step.references c = false
  bounds : l.lower.references c = true ∨ l.upper.references c = true → c ∈ countersOf outer

instance (n : LoopNest) (c : DeclId) : Decidable (n.CountsWithout c) :=
  decidable_of_iff (n.total.expr.references c = false ∧
      (∀ l ∈ n.levels, l.tripCount.expr.references c = false ∧ l.precondition.references c = false) ∧
        ∀ r ∈ n.recovery, r.divisor.references c = false)
    ⟨fun ⟨total, levels, divisors⟩ => ⟨total, levels, divisors⟩,
      fun h => ⟨h.total, h.levels, h.divisors⟩⟩

instance (l : LoopLevel) (outer : List LoopLevel) (c : DeclId) :
    Decidable (l.RefersOutside outer c) :=
  decidable_of_iff (l.step.references c = false ∧
      (l.lower.references c = true ∨ l.upper.references c = true → c ∈ countersOf outer))
    ⟨fun ⟨step, bounds⟩ => ⟨step, bounds⟩, fun h => ⟨h.step, h.bounds⟩⟩

namespace LoopLevel.BuiltFrom

variable {l : LoopLevel} {f : ForHeader} {r : Relation} {outer : List LoopLevel} {width : Nat}

/-- Inside levels whose operands do not refer to a variable, neither do those of a level that refers
to it as to an outer counter only. -/
theorem operandsWithout (built : l.BuiltFrom f r outer)
    (free : ∀ l ∈ outer, l.OperandsWithout c ∧ l.counted width = l)
    (refers : l.RefersOutside outer c) : l.OperandsWithout c where
  lower := by
    rw [built.effectiveLower]
    exact boundEnd_without built.lowerDependency free (fun h => refers.bounds (.inl h)) _
  upper := by
    rw [built.effectiveUpper]
    exact boundEnd_without built.upperDependency free (fun h => refers.bounds (.inr h)) _
  step := refers.step

theorem refersOutside (built : l.BuiltFrom f r outer) (operands : l.OperandsWithout c) :
    l.RefersOutside outer c where
  step := operands.step
  bounds := by
    rintro (lower | upper)
    · exact mem_countersOf_of_boundEnd built.lowerDependency
        (built.effectiveLower ▸ operands.lower) lower
    · exact mem_countersOf_of_boundEnd built.upperDependency
        (built.effectiveUpper ▸ operands.upper) upper

end LoopLevel.BuiltFrom

/-- In a nest, the operands of the levels do not refer to the variable exactly if each level refers
to it as to an outer counter only. -/
theorem NestLevels.operandsWithout_iff {fs : List ForHeader} {ls : List LoopLevel} {width : Nat}
    (levels : NestLevels [] fs ls) (counted : ∀ l ∈ ls, l.counted width = l) :
    (∀ l ∈ ls, l.OperandsWithout c) ↔
      ∀ k (h : k < ls.length), ls[k].RefersOutside (ls.take k) c := by
  have built (k : Nat) (h : k < ls.length) : ∃ f r, ls[k].BuiltFrom f r (ls.take k) := by
    have := levels.builtFrom_take (List.getElem?_eq_getElem h)
    rwa [List.nil_append] at this
  constructor
  · intro operands k h
    obtain ⟨f, r, built⟩ := built k h
    exact built.refersOutside (operands _ (List.getElem_mem h))
  · intro outside
    have operands (k : Nat) (h : k < ls.length) : ls[k].OperandsWithout c := by
      induction k using Nat.strongRecOn with
      | ind k ih =>
        obtain ⟨f, r, built⟩ := built k h
        have free : ∀ l ∈ ls.take k, l.OperandsWithout c ∧ l.counted width = l := by
          intro l hl
          obtain ⟨j, hj, rfl⟩ := List.mem_take_iff_getElem.mp hl
          exact ⟨ih j (by omega) (by omega), counted _ (List.getElem_mem _)⟩
        exact built.operandsWithout free (outside k h)
    intro l hl
    obtain ⟨k, h, rfl⟩ := List.getElem_of_mem hl
    exact operands k h

/-- The counts of a nest do not refer to its counters exactly if no step does, and each bound refers
to counters of outer levels only. -/
theorem counts_without_counters_iff {o : Options} {s : Stmt} {depth : Nat} {decls : DeclTable}
    {n : LoopNest} (canonical : (canonicalizeLoops o s depth decls).1 = .nest n) :
    (∀ c ∈ countersOf n.levels, n.CountsWithout c) ↔
      ∀ k (h : k < n.levels.length), ∀ c ∈ countersOf n.levels,
        n.levels[k].RefersOutside (n.levels.take k) c := by
  obtain ⟨fs, decls', -, levels, hn⟩ := canonicalizeLoops_eq_nest canonical
  have counted := counted_of_canonicalizeLoops canonical
  constructor
  · intro without k h c hc
    refine (levels.operandsWithout_iff counted).mp (fun l hl => ?_) k h
    exact LoopLevel.operandsWithout_of_counts (counted l hl) ((without c hc).levels l hl).1
  · intro outside c hc
    have operands := (levels.operandsWithout_iff counted).mpr fun k h => outside k h c hc
    have counts : ∀ l ∈ n.levels,
        l.tripCount.expr.references c = false ∧ l.precondition.references c = false :=
      fun l hl => (operands l hl).counts (counted l hl)
    have tripCounts : ∀ l ∈ n.levels, l.tripCount.expr.references c = false :=
      fun l hl => (counts l hl).1
    refine ⟨?_, counts, ?_⟩
    · rw [congrArg LoopNest.total hn]
      exact TripCount.references_product _ _ (List.forall_mem_map.mpr tripCounts)
    · rw [congrArg LoopNest.recovery hn]
      exact references_divisor_of_recoveryFrom tripCounts

/-- A triangle: the inner bound depends on the outer counter, of which the counts know nothing. -/
theorem counts_without_counters_iff_triangle :
    ∃ (s : Stmt) (n : LoopNest),
      (canonicalizeLoops {} s 2 (.integers ["i", "j", "m"])).1 = .nest n ∧
        (∃ l ∈ n.levels, l.isNonRectangular = true) ∧
          ∀ c ∈ countersOf n.levels, n.CountsWithout c := by
  let s := Stmt.countingLoop ⟨0⟩ (.ofInt 0 .int32 {}) .lt (.ofDecl ⟨2⟩ .int32 {}) 1
    (.countingLoop ⟨1⟩ (.ofDecl ⟨0⟩ .int32 {}) .lt (.ofDecl ⟨2⟩ .int32 {}) 1 (.null {}))
  obtain ⟨n, canonical, dependent, outside⟩ :
      ∃ n, (canonicalizeLoops {} s 2 (.integers ["i", "j", "m"])).1 = .nest n ∧
        (∃ l ∈ n.levels, l.isNonRectangular = true) ∧
          ∀ k (h : k < n.levels.length), ∀ c ∈ countersOf n.levels,
            n.levels[k].RefersOutside (n.levels.take k) c :=
    NestOutcome.exists_of_decide _ (by decide +kernel)
  exact ⟨s, n, canonical, dependent, (counts_without_counters_iff canonical).mpr outside⟩

/-- The loops `for (i = 1; i < 4; i++) for (j = 0; j < 9; j += i)`. The count of the inner loop
divides by `i`, and so does that of the nest, which is needed before `i` has a value. -/
theorem count_divides_by_outer_counter :
    ∃ (s : Stmt) (n : LoopNest),
      (canonicalizeLoops {} s 2 (.integers ["i", "j"])).1 = .nest n ∧
        countersOf n.levels = [⟨0⟩, ⟨1⟩] ∧ n.total.expr.references ⟨0⟩ = true ∧
          ¬ ∀ c ∈ countersOf n.levels, n.CountsWithout c := by
  let counter := Expr.ofDecl ⟨1⟩ .int32 {}
  let s := Stmt.countingLoop ⟨0⟩ (.ofInt 1 .int32 {}) .lt (.ofInt 4 .int32 {}) 1
    (.forLoop {} (some (.expr {} (.mkAssign counter (.ofInt 0 .int32 {}))))
      (some (.mkBinary .lt counter (.ofInt 9 .int32 {})))
      (some (.mkCompound .add counter (.ofDecl ⟨0⟩ .int32 {}))) (.null {}))
  obtain ⟨n, canonical, counters, total⟩ :
      ∃ n, (canonicalizeLoops {} s 2 (.integers ["i", "j"])).1 = .nest n ∧
        countersOf n.levels = [⟨0⟩, ⟨1⟩] ∧ n.total.expr.references ⟨0⟩ = true :=
    NestOutcome.exists_of_decide _ (by decide +kernel)
  refine ⟨s, n, canonical, counters, total, fun without => ?_⟩
  have free := (without ⟨0⟩ (counters ▸ List.mem_cons_self)).total
  rw [total] at free
  cases free

end Directives
