import Directives.Loop.TripCount
/-!
Loop nests: the loops that a directive applies to, normalized level by level, and flattened into
one iteration space. An iteration of the flattened space is a mixed-radix number whose digits are
the iterations of the levels; the outermost level has the most significant digit.
-/

namespace Directives

/-- Least and greatest value of a bound over the values of an outer counter. -/
structure Covering where
  min : Expr
  max : Expr
  minValue : Option Int
  maxValue : Option Int

/-- A normalized loop of a nest. Bounds that depend on an outer counter have a covering range,
and the condition as it was written is kept to be tested again. -/
structure LoopLevel where
  level : Nat
  counter : DeclId
  counterTy : Ty
  privateCounter : DeclId
  lower : Expr
  upper : Expr
  step : Expr
  stepValue : Option Int
  subtract : Bool
  ascending : Bool
  strict : Bool
  precondition : Expr
  tripCount : TripCount
  lowerDependency : Option Nat
  upperDependency : Option Nat
  lowerCovering : Option Covering
  upperCovering : Option Covering
  finalCondition : Option Expr
  location : Location

namespace LoopLevel

/-- A bound depends on an outer counter. -/
def isNonRectangular (l : LoopLevel) : Bool :=
  l.lowerDependency.isSome || l.upperDependency.isSome

/-- Where the covering range of the loop starts. -/
def effectiveLower (l : LoopLevel) : Expr :=
  match l.lowerCovering with
  | some c => if l.ascending then c.min else c.max
  | none => l.lower

/-- Where the covering range of the loop ends. -/
def effectiveUpper (l : LoopLevel) : Expr :=
  match l.upperCovering with
  | some c => if l.ascending then c.max else c.min
  | none => l.upper

/-- The comparison of the normalized condition. -/
def conditionOp (l : LoopLevel) : BinaryOp := .comparison l.ascending l.strict

/-- The operation that steps the counter. -/
def stepOp (l : LoopLevel) : BinaryOp := if l.subtract then .sub else .add

/-- The loop as a canonical `for` statement. -/
def toStmt (l : LoopLevel) (body : Stmt) : Stmt :=
  let counter := Expr.ofDecl l.counter l.counterTy l.location
  .forLoop l.location
    (some (.expr l.location (.mkAssign counter l.lower)))
    (some (.mkBinary l.conditionOp counter l.upper))
    (some (.mkCompound l.stepOp counter l.step))
    body

/-- The value of the counter in one of its iterations, where the counters outside have values. -/
def counterValue? (l : LoopLevel) (env : Bindings) (iteration : Nat) : Option Int := do
  let lower ← l.lower.eval env
  let step ← l.stepValue
  let offset ← Wide.mul (← Wide.check iteration) step
  l.stepOp.apply lower offset

end LoopLevel

/-- How the counter of a level is found from the flattened iteration: what outer levels left of it,
divided by the number of iterations of the levels inside. -/
structure IndexRecovery where
  level : Nat
  divisor : Expr
  divisorValue : Option Nat
  counterValue : Expr

/-- A flattened nest, outermost level first. -/
structure LoopNest where
  levels : List LoopLevel
  total : TripCount
  inductionVar : DeclId
  recovery : List IndexRecovery

/-- The digits of a number, most significant first, where each place has its divisor. -/
def mixedDigits : List (Option Nat) → Nat → Option (List Nat)
  | [], _ => some []
  | none :: _, _ => none
  | some 0 :: _, _ => none
  | some d :: rest, n => (mixedDigits rest (n % d)).map (n / d :: ·)

/-- The counters of nested levels in given iterations. Each level starts at its own lower bound,
which may depend on the counters outside; of two counters of one name the outer one is seen. -/
def countersFrom (outer : List (DeclId × Int)) : List (LoopLevel × Nat) → Option (List Int)
  | [] => some []
  | (l, iteration) :: rest => do
    let v ← l.counterValue? (.ofList outer) iteration
    (countersFrom (outer ++ [(l.counter, v)]) rest).map (v :: ·)

/-- Every condition holds; undefined where one that is reached has no value. -/
def holdAll (env : Bindings) : List Expr → Option Bool
  | [] => some true
  | c :: rest => do
    if (← c.eval env) = 0 then some false else holdAll env rest

namespace LoopNest

def depth (n : LoopNest) : Nat := n.levels.length

/-- The iterations of the levels in a flattened iteration. -/
def indices? (n : LoopNest) (iteration : Nat) : Option (List Nat) := do
  let total ← n.total.value
  if iteration < total then mixedDigits (n.recovery.map (·.divisorValue)) iteration else none

/-- The counters of the levels in a flattened iteration. Where a bound depends on an outer counter,
the point can still fail the conditions that are tested again. -/
def point? (n : LoopNest) (iteration : Nat) : Option (List Int) := do
  countersFrom [] (n.levels.zip (← n.indices? iteration))

/-- The counters pass the conditions that are tested again. -/
def accepts? (n : LoopNest) (point : List Int) : Option Bool :=
  if point.length = n.levels.length then
    holdAll (.ofList ((n.levels.map (·.counter)).zip point))
      (n.levels.filterMap (·.finalCondition))
  else none

end LoopNest

end Directives
