import Directives.Loop.Eval
/-!
Trip counts: how often a loop runs, as a value where the bounds are constant and as an expression
in any case, and the integer type in which the expression is computed. A loop from `lower` in steps
of `step` runs `(upper - lower - strict + step) / step` times when its condition holds at first,
and otherwise not at all; a descending loop has the bounds exchanged.
-/

namespace Directives

/-- How often a loop runs. -/
structure TripCount where
  expr : Expr
  ty : IntType
  value : Option Nat

/-- What a trip count depends on. -/
structure LoopBounds where
  lower : Expr
  upper : Expr
  step : Expr
  ascending : Bool
  strict : Bool
  counter : IntType

/-- The distance from first to last bound, as the formula adjusts it; none where a step of the
calculation is out of range. -/
structure Span where
  distance : Int
  adjusted : Int
  total : Int

/-- The span between two bounds in the direction of the loop. -/
def Span.between (first last step : Int) (strict : Bool) : Option Span := do
  let distance ← Wide.sub last first
  let adjusted ← Wide.sub distance (ofTruth strict)
  let total ← Wide.add adjusted step
  return { distance, adjusted, total }

/-- How often a loop with constant bounds runs. There is no count without a positive step, nor
where the span of a loop that runs is out of range. -/
def constantTripCount (lower upper step : Int) (ascending strict : Bool) : Option Nat :=
  if step ≤ 0 then none
  else
    let (first, last) := if ascending then (lower, upper) else (upper, lower)
    if (if strict then first < last else first ≤ last) then
      (Span.between first last step strict).map fun s => (s.total / step).toNat
    else some 0

/-- The unsigned type in which iterations are counted: of 32 bits where these are enough, otherwise of
64, and of no more than the widest admitted. -/
def IntType.ofIterations (narrow : Bool) (width : Nat) : IntType where
  bits := min (if narrow then 32 else 64) width
  signed := false
  word := Nat.lt_of_le_of_lt (Nat.min_le_left ..) (by cases narrow <;> decide)

/-- The type in which iterations of operands of some width are counted. -/
def iterationType (operandBits width : Nat) : IntType :=
  .ofIterations (operandBits ≤ 32) width

namespace LoopBounds

/-- The widest integer among the counter and the operands. -/
def operandBits (b : LoopBounds) : Nat :=
  ([b.lower, b.upper, b.step].filterMap fun e => e.ty.intType?).foldl
    (fun bits t => max bits t.bits) b.counter.bits

/-- The loop runs at least once. -/
def precondition (b : LoopBounds) : Expr :=
  .mkBinary (.comparison b.ascending b.strict) b.lower b.upper

/-- The operands, where all are constant. -/
def constants? (b : LoopBounds) : Option (Int × Int × Int) := do
  let lower ← b.lower.constant?
  let upper ← b.upper.constant?
  let step ← b.step.constant?
  return (lower, upper, step)

/-- How often the loop runs, where the operands are constant. -/
def value? (b : LoopBounds) : Option Nat := do
  let (lower, upper, step) ← b.constants?
  constantTripCount lower upper step b.ascending b.strict

/-- The count, and every value on the way to it, fits the type of the counter, for the operands and
the intermediate values with one bit to spare. -/
def keepsCounterType (b : LoopBounds) : Bool :=
  match b.constants?, b.value? with
  | some (lower, upper, step), some count =>
    let wide := b.counter.widened
    let (first, last) := if b.ascending then (lower, upper) else (upper, lower)
    b.counter.contains count && wide.contains lower && wide.contains upper && wide.contains step
      && (Span.between first last step b.strict).any fun s =>
        wide.contains s.distance && wide.contains s.adjusted && wide.contains s.total
  | _, _ => false

/-- The trip count of the loop; `width` is the widest type that can count iterations. -/
def tripCount (b : LoopBounds) (width : Nat) : TripCount :=
  let type := if b.keepsCounterType then b.counter else iterationType b.operandBits width
  let ty := Ty.ofInt type
  let location := b.lower.location
  let (first, last) := if b.ascending then (b.lower, b.upper) else (b.upper, b.lower)
  let distance := Expr.arith .sub last first ty
  let adjusted := if b.strict then .arith .sub distance (.ofInt 1 ty location) ty else distance
  let total := Expr.arith .add adjusted b.step ty
  { expr := .mkConditional b.precondition (.arith .div total b.step ty) (.ofInt 0 ty location)
    ty := type
    value := b.value? }

end LoopBounds

namespace TripCount

/-- The product of the values, where all are known and it is in range. -/
def productValue (counts : List TripCount) : Option Nat :=
  counts.foldl (fun acc c => do Wide.mulCount (← acc) (← c.value)) (some 1)

/-- The type in which a product is computed: that of a single factor; otherwise 32 bits where the
factors and the product are known to fit, and 64 bits elsewhere, but no more than `width`. -/
def productType (counts : List TripCount) (width : Nat) : IntType :=
  match counts with
  | [c] => c.ty
  | _ =>
    let widest := match counts with
      | [] => 32
      | _ => counts.foldl (fun bits c => max bits c.ty.bits) 0
    let small := (productValue counts).any (· < capacity 32)
    .ofIterations (widest ≤ 32 && small) width

/-- The trip count of loops inside each other. -/
def product (counts : List TripCount) (width : Nat) : TripCount :=
  let type := productType counts width
  let ty := Ty.ofInt type
  let expr :=
    match counts with
    | [] => .ofInt 1 ty {}
    | c :: rest => (rest.foldl (fun acc c => .arith .mul acc c.expr ty) c.expr).castTo ty
  { expr, ty := type, value := productValue counts }

end TripCount

end Directives
