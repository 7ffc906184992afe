import Directives.Proofs.CountOperands
import Directives.Proofs.SourceOrder
import Mathlib.Data.List.Basic
/-!
Dependence on outer counters. A bound can name a variable anywhere inside it, in bodies of closures and in
clauses of regions there, and by placeholders that stand for the variable. On which level a bound depends
is read off the references to the counters themselves, so that the dependence of a bound that names an
outer counter in another way only is not recorded.
-/

namespace Directives

/-! ## What an expression names -/

/-- The argument of a clause. -/
def ClauseKind.argument? : ClauseKind → Option Expr
  | .linear step => step
  | .ordered count => count
  | .collapse e | .cond e | .numThreads e | .final e => some e
  | _ => none

namespace Part

/-- The part names one of the variables, at any depth: as a reference, as an item of a clause, or in the
argument of a clause. -/
inductive Names (among : DeclId → Prop) : Part → Prop where
  | reference {info d} (is : among d) : Names among (.expr (.ref info d))
  | item {p r i} (is : p.region? = some r) (listed : i ∈ r.items) (named : among i.decl) : Names among p
  | argument {p r k e} (is : p.region? = some r) (clause : k ∈ r.clauses)
      (argument : k.kind.argument? = some e) (names : Names among (.expr e)) : Names among p
  | inside {p q} (part : q ∈ p.parts) (names : Names among q) : Names among p

/-- The references in a part. -/
def refs : Part → List Occurrence
  | .expr e => e.refs
  | .stmt s => s.refs

/-- The variables to which a part refers without its parts. -/
def ownRefs : Part → List DeclId
  | .expr (.ref _ d) => [d]
  | .stmt (.region _ r) => r.items.map (·.decl)
  | _ => []

theorem refs_eq (p : Part) :
    p.refs.map (·.1) = p.ownRefs ++ p.parts.flatMap fun q => q.refs.map (·.1) := by
  match p with
  | .expr e =>
    cases e <;> simp [refs, ownRefs, parts, Expr.parts, Expr.operands, Expr.refs,
      refsOfExprs_eq_flatMap, List.map_flatMap, List.flatMap_map]
  | .stmt s =>
    have ofRegion (l : Location) (r : Region) : (Stmt.region l r).refs =
        r.items.map (fun i => (i.decl, i.location)) ++ refsOfStmt? r.body := by
      cases r
      rfl
    cases s <;> simp [refs, ownRefs, parts, Stmt.parts, Stmt.refs, ofRegion,
      refsOfExpr?_eq_flatMap, refsOfStmts_eq_flatMap, refsOfStmt?_eq_flatMap, refsOfInits_eq_flatMap,
      List.map_flatMap, List.flatMap_map]

/-- What a part refers to, it names. -/
theorem names_of_refs {among : DeclId → Prop} {d : DeclId} (named : among d) {p : Part}
    (refers : d ∈ p.refs.map (·.1)) : p.Names among := by
  induction p using partInduction with
  | step p ih =>
    rw [refs_eq, List.mem_append, List.mem_flatMap] at refers
    rcases refers with own | ⟨q, part, inside⟩
    · unfold ownRefs at own
      split at own
      · cases List.mem_singleton.mp own
        exact .reference named
      · obtain ⟨i, listed, rfl⟩ := List.mem_map.mp own
        exact .item rfl listed named
      · cases own
    · exact .inside part (ih q part inside)

end Part

namespace Expr

/-- The expression names the variable, by its own identity or by that of a placeholder. -/
def NamesVariable (t : DeclTable) (e : Expr) (c : DeclId) : Prop :=
  (Part.expr e).Names fun d => t.canonical d = t.canonical c

theorem namesVariable_of_references (t : DeclTable) {e : Expr} {c : DeclId}
    (refers : e.references c = true) : e.NamesVariable t c := by
  obtain ⟨o, ho, same⟩ := List.any_eq_true.mp refers
  cases of_decide_eq_true same
  have refers : o.1 ∈ (Part.expr e).refs.map (·.1) := List.mem_map_of_mem ho
  refine Part.names_of_refs ?_ refers
  rfl

end Expr

/-! ## What is recorded -/

/-- The dependence of a bound on outer levels is recorded: without one, the bound names no outer counter;
with one, it names the counter of that level and no other outer counter. -/
def RecordsDependence (t : DeclTable) (outer : List LoopLevel) (bound : Expr) : Option Nat → Prop
  | none => ∀ l ∈ outer, ¬ bound.NamesVariable t l.counter
  | some i => ∃ l, outer[i]? = some l ∧ bound.NamesVariable t l.counter ∧
      ∀ l' ∈ outer, bound.NamesVariable t l'.counter → l'.counter = l.counter

/-- The bound refers to every outer counter that it names. -/
def RefersToNamed (t : DeclTable) (outer : List LoopLevel) (bound : Expr) : Prop :=
  ∀ l ∈ outer, bound.NamesVariable t l.counter → bound.references l.counter = true

theorem recordsDependence_iff {t : DeclTable} {outer : List LoopLevel} {bound : Expr} {ty : Ty}
    {dependency : Option Nat} (h : boundDependency bound ty outer = .ok dependency) :
    RecordsDependence t outer bound dependency ↔ RefersToNamed t outer bound := by
  cases dependency with
  | none =>
    constructor
    · intro records l hl names
      exact absurd names (records l hl)
    · intro refers l hl names
      obtain ⟨i, hi, -⟩ := LoopLevel.dependency_of_references h hl (refers l hl names)
      cases hi
  | some i =>
    obtain ⟨l, found, refersTo, -⟩ := boundDependency_eq_ok h rfl
    constructor
    · rintro ⟨m, found', -, only⟩ l' hl' names
      cases found.symm.trans found'
      rw [only l' hl' names]
      exact refersTo
    · intro refers
      refine ⟨l, found, Expr.namesVariable_of_references t refersTo, fun l' hl' names => ?_⟩
      obtain ⟨j, hj, found'⟩ := LoopLevel.dependency_of_references h hl' (refers l' hl' names)
      cases hj
      cases found.symm.trans found'
      rfl

theorem refers_of_dependency {outer : List LoopLevel} {bound : Expr} {ty : Ty}
    {dependency : Option Nat} (h : boundDependency bound ty outer = .ok dependency) :
    ∀ i ∈ dependency, ∃ l, outer[i]? = some l ∧ bound.references l.counter = true := by
  intro i hi
  obtain ⟨l, found, refers, -⟩ := boundDependency_eq_ok h hi
  exact ⟨l, found, refers⟩

/-- In a nest, the dependence of a bound is recorded exactly if the bound refers to every outer counter
that it names: to the counter itself and not only to a placeholder for it, and not only in the argument
of a clause. No dependence is recorded on a level to whose counter the bound does not refer. -/
theorem dependence_recorded_iff {o : Options} {s : Stmt} {depth : Nat} {decls : DeclTable} {n : LoopNest}
    (canonical : (canonicalizeLoops o s depth decls).1 = .nest n) (t : DeclTable) {k : Nat}
    {l : LoopLevel} (level : n.levels[k]? = some l) :
    (RecordsDependence t (n.levels.take k) l.lower l.lowerDependency ↔
        RefersToNamed t (n.levels.take k) l.lower) ∧
      (RecordsDependence t (n.levels.take k) l.upper l.upperDependency ↔
        RefersToNamed t (n.levels.take k) l.upper) ∧
      (∀ i ∈ l.lowerDependency,
        ∃ l', (n.levels.take k)[i]? = some l' ∧ l.lower.references l'.counter = true) ∧
      ∀ i ∈ l.upperDependency,
        ∃ l', (n.levels.take k)[i]? = some l' ∧ l.upper.references l'.counter = true := by
  obtain ⟨_, _, built⟩ := builtFrom_of_canonicalizeLoops canonical level
  exact ⟨recordsDependence_iff built.lowerDependency, recordsDependence_iff built.upperDependency,
    refers_of_dependency built.lowerDependency, refers_of_dependency built.upperDependency⟩

/-- The loops `for (i = 0; i < 4; i++) for (j = i; j < 3; j++)`: the lower bound of `j` refers to `i`, and
its dependence is recorded. -/
theorem dependence_recorded_iff_triangle :
    ∃ (s : Stmt) (n : LoopNest) (l : LoopLevel),
      (canonicalizeLoops {} s 2 (.integers ["i", "j"])).1 = .nest n ∧ n.levels[1]? = some l ∧
        RecordsDependence (.integers ["i", "j"]) (n.levels.take 1) l.lower (some 0) := by
  let s := Stmt.countingLoop ⟨0⟩ (.ofInt 0 .int32 {}) .lt (.ofInt 4 .int32 {}) 1
    (.countingLoop ⟨1⟩ (.ofDecl ⟨0⟩ .int32 {}) .lt (.ofInt 3 .int32 {}) 1 (.null {}))
  obtain ⟨n, canonical, shape⟩ : ∃ n, (canonicalizeLoops {} s 2 (.integers ["i", "j"])).1 = .nest n ∧
      (n.levels.map fun l => (l.counter, l.lower.references ⟨0⟩, l.lowerDependency)) =
        [(⟨0⟩, false, none), (⟨1⟩, true, some 0)] :=
    NestOutcome.exists_of_decide _ (by decide +kernel)
  obtain ⟨outer, l, levels⟩ : ∃ a b, n.levels = [a, b] :=
    List.length_eq_two.mp (by rw [← List.length_map, shape]; rfl)
  simp only [levels, List.map_cons, List.map_nil, List.cons.injEq, Prod.mk.injEq] at shape
  obtain ⟨⟨outermost, -⟩, ⟨-, refers, dependency⟩, -⟩ := shape
  have level : n.levels[1]? = some l := by rw [levels]; rfl
  refine ⟨s, n, l, canonical, level, ?_⟩
  rw [← dependency]
  refine (dependence_recorded_iff canonical _ level).1.mpr fun l' hl' _ => ?_
  rw [levels] at hl'
  cases List.mem_singleton.mp hl'
  rw [outermost]
  exact refers

/-- In the loops `for (i = 0; i < 4; i++) for (j = 0; j < p; j++)`, where `p` is a placeholder for `i`,
no dependence of `j` on `i` is recorded. -/
theorem dependence_on_placeholder_not_recorded :
    ∃ (t : DeclTable) (s : Stmt) (n : LoopNest) (l : LoopLevel),
      (DeclTable.integers ["i", "j"]).capture ⟨0⟩ = .ok (⟨2⟩, t) ∧
        (canonicalizeLoops {} s 2 t).1 = .nest n ∧ n.levels[1]? = some l ∧
          l.upperDependency = none ∧
            ¬ RecordsDependence t (n.levels.take 1) l.upper l.upperDependency := by
  let t : DeclTable := ((DeclTable.integers ["i", "j"]).push
    { id := ⟨0⟩, name := "i", ty := .int32, storage := .automatic, scope := .function
      captureOf := some ⟨0⟩, synthesized := true, location := {} }).2
  let s := Stmt.countingLoop ⟨0⟩ (.ofInt 0 .int32 {}) .lt (.ofInt 4 .int32 {}) 1
    (.countingLoop ⟨1⟩ (.ofInt 0 .int32 {}) .lt (.ofDecl ⟨2⟩ .int32 {}) 1 (.null {}))
  obtain ⟨n, canonical, shape⟩ : ∃ n, (canonicalizeLoops {} s 2 t).1 = .nest n ∧
      (n.levels.map fun l => (l.counter, l.upper.references ⟨2⟩, l.upperDependency)) =
        [(⟨0⟩, false, none), (⟨1⟩, true, none)] :=
    NestOutcome.exists_of_decide _ (by decide +kernel)
  obtain ⟨outer, l, levels⟩ : ∃ a b, n.levels = [a, b] :=
    List.length_eq_two.mp (by rw [← List.length_map, shape]; rfl)
  simp only [levels, List.map_cons, List.map_nil, List.cons.injEq, Prod.mk.injEq] at shape
  obtain ⟨⟨outermost, -⟩, ⟨-, refers, dependency⟩, -⟩ := shape
  refine ⟨t, s, n, l, rfl, canonical, by rw [levels]; rfl, dependency, ?_⟩
  rw [dependency]
  intro records
  refine records outer (by simp [levels]) ?_
  have same : t.canonical ⟨2⟩ = t.canonical outer.counter := by
    rw [outermost]
    decide
  rw [Expr.NamesVariable, ← same]
  exact Expr.namesVariable_of_references t refers

end Directives
