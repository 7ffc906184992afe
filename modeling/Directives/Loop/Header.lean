import Directives.Options
import Directives.Loop.Eval
import Directives.Loop.Failure
/-!
Canonical headers of `for` statements: `counter = lower; counter < upper; counter += step` and the
forms that mean the same. Initialization, condition and increment are looked at independently, so
that every part that fails is reported.
-/

namespace Directives

/-- A canonical header. A constant step is positive, and `subtract` says that the counter
descends. -/
structure LoopHeader where
  counter : DeclId
  counterTy : Ty
  lower : Expr
  upper : Expr
  step : Expr
  stepValue : Option Int
  subtract : Bool
  ascending : Bool
  strict : Bool
  condition : Expr
  location : Location

/-- What a condition asks of the counter. -/
inductive Relation where
  | less (strict : Bool)
  | greater (strict : Bool)
  | notEqual
  deriving DecidableEq, Repr, Inhabited

/-- The relation that a comparison of the counter with a bound expresses. -/
def BinaryOp.relation? (allowsNotEqual : Bool) : BinaryOp → Option Relation
  | .lt => some (.less true)
  | .le => some (.less false)
  | .gt => some (.greater true)
  | .ge => some (.greater false)
  | .ne => if allowsNotEqual then some .notEqual else none
  | _ => none

/-- Counter and initial value of `counter = lower` or of a declaration with initializer. -/
def Stmt.loopInit? : Stmt → Option (DeclId × Expr)
  | .expr _ e =>
    match e.unwrapped with
    | .assign _ lhs rhs => lhs.decl?.map fun d => (d, rhs)
    | _ => none
  | .decl _ [d] => d.init.map fun e => (d.decl, e)
  | _ => none

/-- The variable that an increment writes. -/
def Expr.incremented? (inc : Expr) : Option DeclId :=
  match inc.unwrapped with
  | .unary _ op operand => if op.isStep then operand.decl? else none
  | .compound _ _ lhs _ | .assign _ lhs _ => lhs.decl?
  | _ => none

/-- Relation and bound of a comparison of the counter with an expression without it, in either
order. -/
def Expr.loopCondition? (cond : Expr) (counter : DeclId) (allowsNotEqual : Bool) :
    Option (Relation × Expr) :=
  match cond.unwrapped with
  | .binary _ op lhs rhs =>
    if lhs.decl? = some counter && !rhs.references counter then
      (op.relation? allowsNotEqual).map fun r => (r, rhs)
    else if rhs.decl? = some counter && !lhs.references counter then
      (op.flipped.relation? allowsNotEqual).map fun r => (r, lhs)
    else none
  | _ => none

/-- Step of an increment of the counter, and whether it is subtracted: `++`, `--`, `+=`, `-=`,
`counter = counter + step`, `counter = step + counter`, `counter = counter - step`. -/
def Expr.loopIncrement? (inc : Expr) (counter : DeclId) : Option (Expr × Bool) :=
  let isCounter (e : Expr) : Bool := e.decl? = some counter
  match inc.unwrapped with
  | .unary _ op operand =>
    if op.isStep && isCounter operand then
      let ty := (operand.ty.counterType?.map Ty.ofInt).getD .int32
      some (.ofInt 1 ty inc.location, op.isDecrement)
    else none
  | .compound _ op lhs rhs =>
    if isCounter lhs && !rhs.references counter then
      match op with
      | .add => some (rhs, false)
      | .sub => some (rhs, true)
      | _ => none
    else none
  | .assign _ lhs rhs =>
    if isCounter lhs then
      match rhs.unwrapped with
      | .binary _ .add a b =>
        if isCounter a && !b.references counter then some (b, false)
        else if isCounter b && !a.references counter then some (a, false)
        else none
      | .binary _ .sub a b =>
        if isCounter a && !b.references counter then some (b, true) else none
      | _ => none
    else none
  | _ => none

/-- A step with its sign moved into the direction. -/
structure LoopStep where
  step : Expr
  subtract : Bool
  value : Option Int
  /-- The step is zero, or has no magnitude in range. -/
  unusable : Bool

/-- A negative constant step counts as its magnitude in the other direction. -/
def LoopStep.normalized (step : Expr) (subtract : Bool) : LoopStep :=
  match step.constant? with
  | none => ⟨step, subtract, none, false⟩
  | some v =>
    if v = 0 then ⟨step, subtract, none, true⟩
    else if v < 0 then
      match Wide.neg v with
      | some magnitude =>
        ⟨.ofInt magnitude step.ty step.location, !subtract, some magnitude, false⟩
      | none => ⟨step, subtract, none, true⟩
    else ⟨step, subtract, some v, false⟩

/-- Direction and strictness of a loop with this relation. A loop that runs until its counter
equals the bound descends when a constant step is subtracted. -/
def Relation.direction (r : Relation) (step : Option LoopStep) : Bool × Bool :=
  match r with
  | .less strict => (true, strict)
  | .greater strict => (false, strict)
  | .notEqual => (!step.any fun s => s.subtract && s.value.isSome, true)

/-- An expression of the header stands in a generic context. -/
def Stmt.headerIsDependent : Stmt → Bool
  | .forLoop _ init cond inc _ =>
    (match init with
      | some (.expr _ e) => e.isDependent
      | some (.decl _ inits) => inits.any fun d => d.init.any (·.isDependent)
      | _ => false)
      || cond.any (·.isDependent) || inc.any (·.isDependent)
  | _ => false

/-- The header of a `for` statement whose counter is `counter`, with initial value `lower` where
the initialization is usable. -/
def recognizeWith (o : Options) (decls : DeclTable) (location initLocation : Location)
    (lower : Option Expr) (cond inc : Option Expr) (counter : DeclId) :
    Except (List LoopFailure) LoopHeader :=
  let condLocation := (cond.map (·.location)).getD location
  let incLocation := (inc.map (·.location)).getD location
  let counterTy := ((decls.get? counter).map (·.ty)).filter (·.isCounter)
  let relation := cond.bind fun c => c.loopCondition? counter o.allowsNotEqual
  let step := (inc.bind fun e => e.loopIncrement? counter).map fun (e, subtract) =>
    LoopStep.normalized e subtract
  let away := match relation, step with
    | some (r, _), some s => s.value.isSome && (r.direction step).1 = s.subtract
    | _, _ => false
  let failIf (failed : Bool) (f : LoopFailure) : List LoopFailure := if failed then [f] else []
  let failures :=
    failIf lower.isNone (.nonCanonical .init initLocation)
      ++ failIf counterTy.isNone (.nonCanonical .counterType initLocation)
      ++ failIf (lower.any (·.references counter)) (.nonCanonical .init initLocation)
      ++ failIf relation.isNone (.nonCanonical .condition condLocation)
      ++ failIf (step.isNone || step.any (·.unusable)) (.nonCanonical .increment incLocation)
      ++ failIf away (.incompatibleDirection incLocation)
  match failures, counterTy, lower, relation, step, cond with
  | [], some counterTy, some lower, some (r, upper), some s, some condition =>
    let (ascending, strict) := r.direction step
    .ok {
      counter, counterTy, lower, upper, step := s.step, stepValue := s.value
      subtract := s.subtract, ascending, strict, condition, location }
  | _, _, _, _, _, _ => .error failures

/-- The canonical header of a `for` statement, or every part of it that fails. Where the
initialization names no counter, the increment does. -/
def Stmt.recognize (o : Options) (decls : DeclTable) : Stmt → Except (List LoopFailure) LoopHeader
  | .forLoop location init cond inc _ =>
    let initLocation := (init.map (·.location)).getD location
    match init.bind (·.loopInit?) with
    | some (counter, lower) =>
      recognizeWith o decls location initLocation (some lower) cond inc counter
    | none =>
      match inc.bind (·.incremented?) with
      | some counter => recognizeWith o decls location initLocation none cond inc counter
      | none =>
        .error [.nonCanonical .init initLocation,
          .nonCanonical .increment ((inc.map (·.location)).getD location)]
  | s => .error [.nonCanonical .nestDepth s.location]

end Directives
