import Directives.Loop.Header
import Directives.Loop.Nest
/-!
Canonicalization of loop nests: how many loops a directive applies to, what each level is, on which
outer counter a bound depends and over which range, and the flattened nest of all levels.
-/

namespace Directives

/-- The loops that a directive applies to: as many as the larger of its arguments. -/
structure Association where
  depth : Nat
  collapse : Nat
  ordered : Option Nat
  deriving DecidableEq, Repr, Inhabited

/-- The value of a clause argument, which has to be a positive constant. -/
def Expr.positive? (e : Expr) : Except LoopFailure Nat :=
  match e.constant? with
  | some v =>
    if 0 < v ∧ v < (capacity 64 : Int) then .ok v.toNat
    else .error (.nonCanonical .clauseArgument e.location)
  | none => .error (.nonCanonical .clauseArgument e.location)

/-- The argument of `collapse`, which is one when there is none; nothing when it is dependent. -/
def Region.collapseDepth (r : Region) : Except LoopFailure (Option Nat) :=
  match r.collapse? with
  | none => .ok (some 1)
  | some e => if e.isDependent then .ok none else e.positive?.map some

/-- The loops that a directive applies to; nothing when an argument is dependent. The argument of
`ordered` has to cover the collapsed loops. -/
def Region.association (r : Region) : Except LoopFailure (Option Association) := do
  match ← r.collapseDepth with
  | none => return none
  | some collapse =>
    match r.ordered? with
    | some (some e) =>
      if e.isDependent then return none
      else
        let n ← e.positive?
        if n < collapse then throw (.nonCanonical .clauseArgument e.location)
        else return some { depth := max collapse n, collapse, ordered := some n }
    | _ => return some { depth := collapse, collapse, ordered := none }

mutual

/-- The statement is a loop, or a block that holds one. -/
def Stmt.containsLoop : Stmt → Bool
  | .forLoop _ _ _ _ _ => true
  | .block _ stmts => anyContainsLoop stmts
  | _ => false

/-- One of the statements contains a loop. -/
def anyContainsLoop : List Stmt → Bool
  | [] => false
  | s :: rest => s.containsLoop || anyContainsLoop rest

end

/-- Why a statement that should be a loop is none: the loop stands among other statements, or there
is no loop. -/
def Stmt.noLoop (s : Stmt) : LoopFailure :=
  .nonCanonical (if s.containsLoop then .notPerfectlyNested else .nestDepth) s.location

/-- The outer level on whose counter a bound depends. A bound may depend on one counter, and is then
affine in it; both counters have to be of types with random access. -/
def boundDependency (bound : Expr) (counterTy : Ty) (outer : List LoopLevel) :
    Except LoopFailure (Option Nat) :=
  match outer.zipIdx.filter fun p => bound.references p.1.counter with
  | [] => .ok none
  | [(l, index)] =>
    if bound.isAffineIn l.counter && counterTy.hasRandomAccess && l.counterTy.hasRandomAccess then
      .ok (some index)
    else .error (.nonRectangular bound.location)
  | _ => .error (.nonRectangular bound.location)

namespace LoopLevel

/-- The type in which the counter is counted. -/
def countType (l : LoopLevel) : IntType := l.counterTy.counterType?.getD .i64

/-- The last value of the counter over its covering range, where this is constant. A loop that does
not run stays at its first value. -/
def lastValue? (l : LoopLevel) : Option Int := do
  let first ← l.effectiveLower.constant?
  let count ← Wide.check (← l.tripCount.value)
  let step ← l.stepValue
  if count = 0 then some first
  else l.stepOp.apply first (← Wide.mul (count - 1) step)

/-- The last value of the counter over its covering range, as an expression. -/
def lastExpr (l : LoopLevel) (location : Location) : Expr :=
  let ty := Ty.ofInt l.countType
  let lastIteration := Expr.arith .sub (l.tripCount.expr.castTo ty) (.ofInt 1 ty location) ty
  let offset := Expr.arith .mul lastIteration l.step ty
  .binary { ty := l.counterTy, location } l.stepOp l.effectiveLower offset

/-- Least and greatest value of a bound that is affine in the counter of this level: they are among
its values at the first and the last value of the counter. -/
def covering (l : LoopLevel) (bound : Expr) : Covering :=
  let atFirst := bound.substitute l.counter l.effectiveLower
  let last :=
    match l.lastValue? with
    | some v => Expr.ofInt v l.counterTy bound.location
    | none => l.lastExpr bound.location
  let atLast := bound.substitute l.counter last
  match atFirst.constant?, atLast.constant? with
  | some a, some b =>
    if a ≤ b then ⟨atFirst, atLast, some a, some b⟩ else ⟨atLast, atFirst, some b, some a⟩
  | _, _ =>
    let pick (op : BinaryOp) : Expr :=
      .mkConditional (.mkBinary op atFirst atLast) atFirst atLast
    ⟨pick .le, pick .ge, none, none⟩

/-- What the trip count of the covering range depends on. -/
def bounds (l : LoopLevel) : LoopBounds :=
  { lower := l.effectiveLower, upper := l.effectiveUpper, step := l.step, ascending := l.ascending
    strict := l.strict, counter := l.countType }

/-- The level with the trip count of its covering range. -/
def counted (l : LoopLevel) (width : Nat) : LoopLevel :=
  { l with tripCount := l.bounds.tripCount width, precondition := l.bounds.precondition }

/-- The level of a header inside outer levels, with the declaration of its private counter. -/
def ofHeader (o : Options) (level : Nat) (h : LoopHeader) (outer : List LoopLevel)
    (decls : DeclTable) : Except LoopFailure (LoopLevel × DeclTable) := do
  let lowerDependency ← boundDependency h.lower h.counterTy outer
  let upperDependency ← boundDependency h.upper h.counterTy outer
  let coveringOf (bound : Expr) (dependency : Option Nat) : Option Covering :=
    (dependency.bind (outer[·]?)).map (·.covering bound)
  let name := ((decls.get? h.counter).map (·.name)).getD "counter" ++ ".private"
  let (privateCounter, decls) := decls.synthesize name h.counterTy h.location
  let base : LoopLevel :=
    { level, counter := h.counter, counterTy := h.counterTy, privateCounter
      lower := h.lower, upper := h.upper, step := h.step, stepValue := h.stepValue
      subtract := h.subtract, ascending := h.ascending, strict := h.strict
      precondition := h.condition
      tripCount := { expr := h.step, ty := .i64, value := none }
      lowerDependency, upperDependency
      lowerCovering := coveringOf h.lower lowerDependency
      upperCovering := coveringOf h.upper upperDependency
      finalCondition :=
        if lowerDependency.isSome || upperDependency.isSome then some h.condition else none
      location := h.location }
  return (base.counted o.iterationWidth, decls)

end LoopLevel

/-- The recovery of the counters of levels from what outer levels left of the flattened
iteration. -/
def recoveryFrom (width : Nat) (ty : Ty) (location : Location) :
    (level : Nat) → (remainder : Expr) → List LoopLevel → List IndexRecovery
  | _, _, [] => []
  | level, remainder, l :: inner =>
    let counts := inner.map (·.tripCount)
    let divisor :=
      if inner.isEmpty then Expr.ofInt 1 ty location
      else (TripCount.product counts width).expr.castTo ty
    let index := Expr.arith .div remainder divisor ty
    let offsetTy := (l.counterTy.counterType?.map Ty.ofInt).getD .int64
    let offset := Expr.arith .mul index l.step offsetTy
    { level
      divisor
      divisorValue := TripCount.productValue counts
      counterValue := .binary { ty := l.counterTy, location := l.location } l.stepOp l.lower offset }
      :: recoveryFrom width ty location (level + 1) (.arith .rem remainder divisor ty) inner

/-- The flattened nest of the levels, with the declaration of its induction variable. -/
def LoopNest.ofLevels (o : Options) (levels : List LoopLevel) (decls : DeclTable) :
    LoopNest × DeclTable :=
  let total := TripCount.product (levels.map (·.tripCount)) o.iterationWidth
  let ty := Ty.ofInt total.ty
  let location := (levels.head?.map (·.location)).getD {}
  let (inductionVar, decls) := decls.synthesize "iv" ty location
  ({ levels, total, inductionVar
     recovery := recoveryFrom o.iterationWidth ty location 0 (.ofDecl inductionVar ty location) levels },
    decls)

/-- What canonicalization comes to. -/
inductive NestOutcome where
  | nest (n : LoopNest)
  /-- Failures with the levels at which they were found. -/
  | invalid (failures : List (Nat × LoopFailure))
  /-- A part that is needed is dependent. -/
  | deferred
  /-- There is no room for so many levels, however few loops there are. -/
  | noRoom

namespace NestOutcome

/-- The diagnostics of the failures. -/
def diagnostics : NestOutcome → List Diagnostic
  | .invalid failures => failures.map fun (level, f) => f.diagnostic level
  | _ => []

def nest? : NestOutcome → Option LoopNest
  | .nest n => some n
  | _ => none

end NestOutcome

/-- Canonicalizes `remaining` loops inside each other from a statement on, inside the levels found
so far. Loops that fail are passed through, to report what fails inside them; a statement that is no
loop ends the search, and a dependent header puts it off. -/
def canonicalizeFrom (o : Options) : (remaining level : Nat) → Stmt → (outer : List LoopLevel) →
    (failures : List (Nat × LoopFailure)) → DeclTable → NestOutcome × DeclTable
  | 0, _, _, outer, failures, decls =>
    if failures.isEmpty then
      let (n, decls) := LoopNest.ofLevels o outer decls
      (.nest n, decls)
    else (.invalid failures, decls)
  | remaining + 1, level, s, outer, failures, decls =>
    match s with
    | .forLoop _ _ _ _ body =>
      if s.headerIsDependent then (.deferred, decls)
      else
        match s.recognize o decls with
        | .error found =>
          canonicalizeFrom o remaining (level + 1) body.single outer
            (failures ++ found.map (level, ·)) decls
        | .ok header =>
          match LoopLevel.ofHeader o level header outer decls with
          | .error f =>
            canonicalizeFrom o remaining (level + 1) body.single outer
              (failures ++ [(level, f)]) decls
          | .ok (l, decls) =>
            canonicalizeFrom o remaining (level + 1) body.single (outer ++ [l]) failures decls
    | _ => (.invalid (failures ++ [(level, s.noLoop)]), decls)

/-- Canonicalizes `depth` loops inside each other from a statement on. Variables of the analysis are
added to the declarations. Room for all the levels is made before the first loop is looked at. -/
def canonicalizeLoops (o : Options) (body : Stmt) (depth : Nat) (decls : DeclTable) :
    NestOutcome × DeclTable :=
  if depth ≤ o.levelRoom then canonicalizeFrom o depth 0 body.single [] [] decls
  else (.noRoom, decls)

/-- Canonicalizes the loops that a directive applies to. -/
def canonicalizeNest (o : Options) (r : Region) (decls : DeclTable) : NestOutcome × DeclTable :=
  match r.association with
  | .error f => (.invalid [(0, f)], decls)
  | .ok none => (.deferred, decls)
  | .ok (some a) =>
    match r.body with
    | none => (.invalid [(0, .nonCanonical .nestDepth r.location)], decls)
    | some body => canonicalizeLoops o body a.depth decls

end Directives
