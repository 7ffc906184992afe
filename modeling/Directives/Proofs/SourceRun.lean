import Directives.Proofs.Value
import Directives.Tree.References
/-!
Nests of `for` loops as they are written, run over unbounded integers. A run gives the values of
chosen variables at the innermost iterations, in the order in which these are executed. The body of
the innermost loop counts as one iteration and leaves the variables as they are.
-/

namespace Directives

/-- What an expression does to the variables where it stands as a statement. -/
def Expr.perform (env : Bindings) (e : Expr) : Option Bindings :=
  match e.unwrapped with
  | .assign _ lhs rhs => do
    let d ← lhs.decl?
    let v ← rhs.value env
    return env.set d v
  | .compound _ op lhs rhs => do
    let d ← lhs.decl?
    let v ← env d
    let w ← rhs.value env
    return env.set d (← op.exact v w)
  | .unary _ op operand => do
    let d ← operand.decl?
    let v ← env d
    if op.isStep then return env.set d (if op.isDecrement then v - 1 else v + 1) else none
  | _ => none

/-- Declares a variable, with its initial value where there is one. -/
def DeclInit.perform (env : Bindings) (d : DeclInit) : Option Bindings :=
  match d.init with
  | some e => (e.value env).map (env.set d.decl)
  | none => some env

/-- What an initialization does to the variables. -/
def Stmt.perform (env : Bindings) : Stmt → Option Bindings
  | .expr _ e => e.perform env
  | .decl _ inits => inits.foldlM DeclInit.perform env
  | _ => none

/-- The header of a `for` statement as it is written. -/
structure ForHeader where
  init : Stmt
  cond : Expr
  inc : Expr

namespace ForHeader

def start (h : ForHeader) (env : Bindings) : Option Bindings := h.init.perform env

/-- The condition, tested where the variables have these values. -/
def holds (h : ForHeader) (env : Bindings) : Option Bool := (h.cond.value env).map (· != 0)

def advance (h : ForHeader) (env : Bindings) : Option Bindings := h.inc.perform env

end ForHeader

/-- The values of variables that all have one. -/
def Bindings.point? (env : Bindings) : List DeclId → Option (List Int)
  | [] => some []
  | d :: rest => do return (← env d) :: (← env.point? rest)

section
variable (counters : List DeclId)

mutual

/-- Loops inside each other run from one state of the variables to another; `points` are the
values of the counters at the innermost iterations. -/
inductive NestRuns : List ForHeader → Bindings → (points : List (List Int)) → Bindings → Prop where
  | iteration {env p} (visit : env.point? counters = some p) : NestRuns [] env [p] env
  | enter {h inner env env₁ env₂ points} (start : h.start env = some env₁)
      (loop : LoopRuns h inner env₁ points env₂) : NestRuns (h :: inner) env points env₂

/-- The outermost of the loops runs from a test of its condition on. -/
inductive LoopRuns :
    ForHeader → List ForHeader → Bindings → (points : List (List Int)) → Bindings → Prop where
  | stop {h inner env} (test : h.holds env = some false) : LoopRuns h inner env [] env
  | next {h inner env env₁ env₂ env₃ points rest} (test : h.holds env = some true)
      (body : NestRuns inner env points env₁) (advance : h.advance env₁ = some env₂)
      (loop : LoopRuns h inner env₂ rest env₃) : LoopRuns h inner env (points ++ rest) env₃

end

/-- A loop comes to its body with the variables as in `env'`, where its body leaves them alone:
every test on the way has held. -/
inductive LoopReaches (h : ForHeader) : Bindings → Bindings → Prop where
  | here {env} (test : h.holds env = some true) : LoopReaches h env env
  | later {env env₁ env'} (test : h.holds env = some true) (advance : h.advance env = some env₁)
      (rest : LoopReaches h env₁ env') : LoopReaches h env env'

/-- Loops inside each other come to an innermost iteration, whatever becomes of the iterations
before it. -/
inductive NestReaches : List ForHeader → Bindings → (point : List Int) → Prop where
  | iteration {env p} (visit : env.point? counters = some p) : NestReaches [] env p
  | enter {h inner env env₁ env₂ p} (start : h.start env = some env₁)
      (loop : LoopReaches h env₁ env₂) (body : NestReaches inner env₂ p) :
      NestReaches (h :: inner) env p

end

variable {counters : List DeclId}

mutual

theorem NestRuns.unique {hs : List ForHeader} {env env₁ env₂ : Bindings} {ps qs : List (List Int)} :
    NestRuns counters hs env ps env₁ → NestRuns counters hs env qs env₂ → ps = qs ∧ env₁ = env₂
  | .iteration hp, .iteration hq => by
    rw [hp] at hq
    cases hq
    exact ⟨rfl, rfl⟩
  | .enter hs₁ hl₁, .enter hs₂ hl₂ => by
    rw [hs₁] at hs₂
    cases hs₂
    exact hl₁.unique hl₂

theorem LoopRuns.unique {h : ForHeader} {inner : List ForHeader} {env env₁ env₂ : Bindings}
    {ps qs : List (List Int)} :
    LoopRuns counters h inner env ps env₁ → LoopRuns counters h inner env qs env₂ →
      ps = qs ∧ env₁ = env₂
  | .stop _, .stop _ => ⟨rfl, rfl⟩
  | .stop t₁, .next t₂ _ _ _ => by rw [t₁] at t₂; cases t₂
  | .next t₁ _ _ _, .stop t₂ => by rw [t₁] at t₂; cases t₂
  | .next _ b₁ a₁ l₁, .next _ b₂ a₂ l₂ => by
    obtain ⟨rfl, rfl⟩ := b₁.unique b₂
    rw [a₁] at a₂
    cases a₂
    obtain ⟨rfl, rfl⟩ := l₁.unique l₂
    exact ⟨rfl, rfl⟩

end

/-- A loop runs `n` times if in its `k`-th iteration the test says whether `k < n`, and the body
and the increment lead from the `k`-th iteration to the next. -/
theorem LoopRuns.of_invariant {h : ForHeader} {inner : List ForHeader} {n : Nat}
    {points : Nat → List (List Int)} (inv : Nat → Bindings → Prop)
    (test : ∀ k env, k ≤ n → inv k env → h.holds env = some (decide (k < n)))
    (body : ∀ k env, k < n → inv k env → ∃ env₁ env₂, NestRuns counters inner env (points k) env₁ ∧
      h.advance env₁ = some env₂ ∧ inv (k + 1) env₂)
    {env : Bindings} (start : inv 0 env) :
    ∃ env', LoopRuns counters h inner env ((List.range n).flatMap points) env' ∧ inv n env' := by
  have go (m : Nat) : ∀ k env, k + m = n → inv k env →
      ∃ env', LoopRuns counters h inner env ((List.range' k m).flatMap points) env' ∧
        inv n env' := by
    induction m with
    | zero =>
      intro k env hk hi
      have hstop := test k env (by omega) hi
      rw [decide_eq_false (by omega)] at hstop
      exact ⟨env, .stop hstop, (show k = n by omega) ▸ hi⟩
    | succ m ih =>
      intro k env hk hi
      have hnext := test k env (by omega) hi
      rw [decide_eq_true (by omega)] at hnext
      obtain ⟨env₁, env₂, hbody, hadvance, hi'⟩ := body k env (by omega) hi
      obtain ⟨env', hloop, hend⟩ := ih (k + 1) env₂ (by omega) hi'
      rw [List.range'_succ, List.flatMap_cons]
      exact ⟨env', .next hnext hbody hadvance hloop, hend⟩
  rw [List.range_eq_range']
  exact go n 0 env (by omega) start

/-- The headers of `depth` loops that stand inside each other, from a statement on. -/
def Stmt.loops? : (depth : Nat) → Stmt → Option (List ForHeader)
  | 0, _ => some []
  | depth + 1, s =>
    match s.single with
    | .forLoop _ (some init) (some cond) (some inc) body =>
      (body.loops? depth).map (⟨init, cond, inc⟩ :: ·)
    | _ => none

/-- The run of `depth` loops inside each other as they are written ends, and visits the points. -/
def Stmt.Runs (s : Stmt) (depth : Nat) (counters : List DeclId) (env : Bindings)
    (points : List (List Int)) : Prop :=
  ∃ hs env', s.loops? depth = some hs ∧ NestRuns counters hs env points env'

/-- Of `depth` loops inside each other as they are written each reaches its component of the
point. -/
def Stmt.Reaches (s : Stmt) (depth : Nat) (counters : List DeclId) (env : Bindings)
    (point : List Int) : Prop :=
  ∃ hs, s.loops? depth = some hs ∧ NestReaches counters hs env point

/-- A run visits one list of points only. -/
theorem Stmt.Runs.unique {s : Stmt} {depth : Nat} {env : Bindings} {ps qs : List (List Int)}
    (hp : s.Runs depth counters env ps) (hq : s.Runs depth counters env qs) : ps = qs := by
  obtain ⟨hs, _, hhs, runp⟩ := hp
  obtain ⟨hs', _, hhs', runq⟩ := hq
  rw [hhs] at hhs'
  cases hhs'
  exact (runp.unique runq).1

/-- The loop `for (d = lower; d op upper; d += step)` over integers of 32 bits. -/
def Stmt.countingLoop (d : DeclId) (lower : Expr) (op : BinaryOp) (upper : Expr) (step : Int)
    (body : Stmt) : Stmt :=
  let counter := Expr.ofDecl d .int32 {}
  .forLoop {} (some (.expr {} (.mkAssign counter lower))) (some (.mkBinary op counter upper))
    (some (.mkCompound .add counter (.ofInt step .int32 {}))) body

/-- Declarations of integers of 32 bits. -/
def DeclTable.integers (names : List String) : DeclTable :=
  names.foldl (fun t name => (t.declare name .int32 .automatic .function {}).2) {}

/-- The comparison is `<`, `<=`, `>` or `>=`. -/
def BinaryOp.isOrdering : BinaryOp → Bool
  | .lt | .le | .gt | .ge => true
  | _ => false

/-- The condition is an order comparison. -/
def Expr.isOrdering (e : Expr) : Bool :=
  match e.unwrapped with
  | .binary _ op _ _ => op.isOrdering
  | _ => false

/-- The conditions of `depth` loops inside each other are order comparisons. -/
def Stmt.OrderedLoops (s : Stmt) (depth : Nat) : Prop :=
  ∀ hs, s.loops? depth = some hs → ∀ h ∈ hs, h.cond.isOrdering = true

theorem Stmt.OrderedLoops.of_all {s : Stmt} {depth : Nat} {hs : List ForHeader}
    (hloops : s.loops? depth = some hs) (ordered : (hs.all (·.cond.isOrdering)) = true) :
    s.OrderedLoops depth := by
  intro hs' hloops' h hh
  cases hloops.symm.trans hloops'
  exact List.all_eq_true.mp ordered h hh

end Directives
