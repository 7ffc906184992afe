import Directives.Proofs.Declarations
import Directives.Proofs.NestLevels
/-!
Levels written as `for` statements. The two halves meet at what a canonical level is: its counter is
declared with its type, bounds and step do not refer to it, and a constant step is positive and leads
from one bound towards the other. Every level of a nest is canonical, however its loop was written; and
what is recognized in the statement of a canonical level is the level.
-/

namespace Directives

/-! ## The parts of a canonical header -/

theorem Relation.direction_order (ascending strict : Bool) (step : Option LoopStep) :
    (order ascending strict).direction step = (ascending, strict) := by
  cases ascending <;> rfl

theorem BinaryOp.relation?_comparison (ascending strict allowed : Bool) :
    (comparison ascending strict).relation? allowed = some (.order ascending strict) := by
  cases ascending <;> cases strict <;> rfl

namespace Expr

variable {d : DeclId} {ty : Ty} {location : Location} {e : Expr}

/-- A comparison of a counter with a bound is recognized where the language has no `!=` as well. -/
theorem loopCondition?_comparison (free : e.references d = false) (ascending strict allowed : Bool) :
    (mkBinary (.comparison ascending strict) (.ofDecl d ty location) e).loopCondition? d allowed =
      some (.order ascending strict, e) := by
  have counter : (Expr.ofDecl d ty location).decl? = some d := rfl
  change (if decide ((Expr.ofDecl d ty location).decl? = some d) && !e.references d then _ else _) = _
  rw [counter, free, decide_eq_true rfl, BinaryOp.relation?_comparison]
  rfl

theorem loopIncrement?_moving (free : e.references d = false) (subtract : Bool) :
    (mkCompound (.moving subtract) (.ofDecl d ty location) e).loopIncrement? d =
      some (e, subtract) := by
  have counter : (Expr.ofDecl d ty location).decl? = some d := rfl
  change (if decide ((Expr.ofDecl d ty location).decl? = some d) && !e.references d then _ else _) = _
  rw [counter, free, decide_eq_true rfl]
  cases subtract <;> rfl

end Expr

/-! ## Canonical levels -/

namespace LoopLevel

variable {l : LoopLevel} {t t' : DeclTable} {condition : Expr} {f : ForHeader} {r : Relation}

/-- A level whose `for` statement is canonical. -/
structure Canonical (t : DeclTable) (l : LoopLevel) : Prop where
  declared : (t.get? l.counter).map (·.ty) = some l.counterTy
  counts : l.counterTy.isCounter = true
  lower_free : l.lower.references l.counter = false
  upper_free : l.upper.references l.counter = false
  step_free : l.step.references l.counter = false
  constant : l.stepValue = l.step.constant?
  positive : ∀ v, l.stepValue = some v → 0 < v
  towards : l.stepValue.isSome = true → l.ascending ≠ l.subtract

theorem Canonical.mono (h : l.Canonical t) (grows : t.GrowsTo t') : l.Canonical t' :=
  { h with declared := grows.typed h.declared }

/-- The form in which the header was written is of no concern. -/
theorem Canonical.of_readFrom (read : (l.header condition).ReadFrom f r)
    (declared : (t.get? l.counter).map (·.ty) = some l.counterTy)
    (counts : l.counterTy.isCounter = true) : l.Canonical t where
  declared := declared
  counts := counts
  lower_free := read.lower_free
  upper_free := read.upper_free
  step_free := read.step_free
  constant := read.stepValue.1
  positive := read.stepValue.2
  towards := read.towards

/-- A step that is positive where it is constant has no sign to be moved. -/
theorem Canonical.normalized (h : l.Canonical t) :
    LoopStep.normalized l.step l.subtract = ⟨l.step, l.subtract, l.stepValue, false⟩ := by
  rw [h.constant]
  exact LoopStep.normalized_of_positive fun v hv => h.positive v (h.constant.trans hv)

/-- The condition of the level as a canonical `for` statement. -/
def canonicalCondition (l : LoopLevel) : Expr :=
  .mkBinary l.conditionOp (.ofDecl l.counter l.counterTy l.location) l.upper

/-- What is recognized in the statement of a canonical level is the level. -/
theorem Canonical.recognize_toStmt (h : l.Canonical t) (body : Stmt) (o : Options) :
    (l.toStmt body).recognize o t = .ok (l.header l.canonicalCondition) := by
  have counterTy : ((t.get? l.counter).map (·.ty)).filter (·.isCounter) = some l.counterTy :=
    Option.filter_eq_some_iff.mpr ⟨h.declared, h.counts⟩
  have condition : l.canonicalCondition.loopCondition? l.counter o.allowsNotEqual =
      some (.order l.ascending l.strict, l.upper) :=
    Expr.loopCondition?_comparison h.upper_free ..
  have increment : (Expr.mkCompound l.stepOp (.ofDecl l.counter l.counterTy l.location)
      l.step).loopIncrement? l.counter = some (l.step, l.subtract) :=
    Expr.loopIncrement?_moving h.step_free ..
  have toward : (l.stepValue.isSome && decide (l.ascending = l.subtract)) = false := by
    rw [Bool.and_eq_false_imp, decide_eq_false_iff_not]
    exact h.towards
  change recognizeWith o t l.location l.location (some l.lower) (some l.canonicalCondition) _
    l.counter = _
  unfold recognizeWith
  simp [counterTy, condition, increment, h.normalized, h.lower_free, Relation.direction_order, toward,
    header]

end LoopLevel

/-! ## The levels of a nest -/

section
variable {o : Options} {s : Stmt} {header : LoopHeader} {level : Nat} {outer : List LoopLevel}
  {decls decls' : DeclTable} {l : LoopLevel} {n : LoopNest}

/-- The level that is made of a recognized header is canonical in the table with its declaration. -/
theorem LoopLevel.canonical_of_recognize (recognized : s.recognize o decls = .ok header)
    (made : ofHeader o level header outer decls = .ok (l, decls')) : l.Canonical decls' := by
  obtain ⟨-, -, name, -, rfl⟩ := ofHeader_eq_ok made
  obtain ⟨_, init, cond, inc, _, r, -, read⟩ := Stmt.recognize_eq_ok recognized
  rw [← header_ofHeader made] at read recognized
  obtain ⟨declared, counts⟩ := Stmt.recognize_counterTy recognized
  exact (Canonical.of_readFrom read declared counts).mono (DeclTable.growsTo_synthesize ..)

/-- The levels that a search for loops has found are canonical in the table that it has then. -/
theorem canonicalizeLoops_ends_canonical (depth : Nat) :
    SearchEnds o (fun ls t => ∀ l ∈ ls, l.Canonical t) (canonicalizeLoops o s depth decls) := by
  refine canonicalizeLoops_ends ?_ s depth fun _ h => absurd h List.not_mem_nil
  intro s level header outer decls l decls' before recognized made
  have canonical := LoopLevel.canonical_of_recognize recognized made
  obtain ⟨-, -, name, -, rfl⟩ := LoopLevel.ofHeader_eq_ok made
  rw [List.forall_mem_append, List.forall_mem_singleton]
  exact ⟨fun l hl => (before l hl).mono (DeclTable.growsTo_synthesize ..), canonical⟩

theorem canonicalizeLoops_canonical {depth : Nat}
    (found : (canonicalizeLoops o s depth decls).1 = .nest n) :
    ∀ l ∈ n.levels, l.Canonical (canonicalizeLoops o s depth decls).2 := by
  obtain ⟨_, canonical, last⟩ := (canonicalizeLoops_ends_canonical depth).exists_of_nest found
  intro l hl
  rw [(Prod.mk.inj last).2]
  exact (canonical l hl).mono (DeclTable.growsTo_synthesize ..)

/-- Each level of a nest, written as a `for` statement with any body, is recognized as what it is, in
the table with the variables of the nest and under any options, also those that do not allow `!=`. -/
theorem toStmt_recognized {depth : Nat} (found : (canonicalizeLoops o s depth decls).1 = .nest n) :
    ∀ l ∈ n.levels, ∀ (body : Stmt) (o' : Options),
      (l.toStmt body).recognize o' (canonicalizeLoops o s depth decls).2 =
        .ok (l.header l.canonicalCondition) :=
  fun l hl body o' => (canonicalizeLoops_canonical found l hl).recognize_toStmt body o'

end

/-- The loops `for (i = 9; i != 1; i += -2) for (j = 0; j < i; j++)`, of which the outer is no canonical
loop in version 4.5: there its level is, as `for (i = 9; i > 1; i -= 2)`. -/
theorem toStmt_recognized_notEqual :
    let s := Stmt.countingLoop ⟨0⟩ (.ofInt 9 .int32 {}) .ne (.ofInt 1 .int32 {}) (-2)
      (.countingLoop ⟨1⟩ (.ofInt 0 .int32 {}) .lt (.ofDecl ⟨0⟩ .int32 {}) 1 (.null {}))
    let outcome := canonicalizeLoops {} s 2 (.integers ["i", "j"])
    (s.recognize { version := .v45 } outcome.2).toOption.isNone = true ∧
      ∃ n, outcome.1 = .nest n ∧
        n.levels.map (fun l => (l.conditionOp, l.stepOp, l.stepValue)) =
          [(.gt, .sub, some 2), (.lt, .add, some 1)] ∧
        ∀ l ∈ n.levels, ∀ body : Stmt,
          (l.toStmt body).recognize { version := .v45 } outcome.2 =
            .ok (l.header l.canonicalCondition) := by
  intro s outcome
  obtain ⟨n, found, levels⟩ :
      ∃ n, outcome.1 = .nest n ∧ n.levels.map (fun l => (l.conditionOp, l.stepOp, l.stepValue)) =
        [(.gt, .sub, some 2), (.lt, .add, some 1)] :=
    NestOutcome.exists_of_decide _ (by decide +kernel)
  exact ⟨by decide +kernel, n, found, levels, fun l hl body => toStmt_recognized found l hl body _⟩

end Directives
