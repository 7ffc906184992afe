import Directives.Exchange.TreeReader
import Directives.Loop.Canonical
/-!
Loops and nests as JSON values.
-/

namespace Directives

open Json

def LoopFailure.toJson : LoopFailure → Json
  | .nonCanonical part l =>
    tagged "NonCanonical" (.obj [("part", ofMember part), ("location", l.toJson)])
  | .incompatibleDirection l => tagged "IncompatibleDirection" (.obj [("location", l.toJson)])
  | .nonRectangular l => tagged "NonRectangularUnsupported" (.obj [("location", l.toJson)])

def LoopHeader.toJson (h : LoopHeader) : Json :=
  .obj [
    ("counter", h.counter.toJson),
    ("counter_ty", h.counterTy.toJson),
    ("lower", h.lower.toJson),
    ("upper", h.upper.toJson),
    ("step", h.step.toJson),
    ("step_value", ofOption .int h.stepValue),
    ("subtract", .bool h.subtract),
    ("is_less", .bool h.ascending),
    ("strict", .bool h.strict),
    ("condition", h.condition.toJson),
    ("location", h.location.toJson)]

def Association.toJson (a : Association) : Json :=
  .obj [
    ("depth", ofNat a.depth),
    ("collapse", ofNat a.collapse),
    ("ordered", ofOption ofNat a.ordered)]

namespace TripCount

def toJson (c : TripCount) : Json :=
  .obj [("expr", c.expr.toJson), ("ty", c.ty.toJson), ("value", ofOption ofNat c.value)]

def ofJson? : Reader TripCount := fun j => do
  let r ← record? 3 j
  return {
    expr := ← r.required 0 "expr" Expr.ofJson?
    ty := ← r.required 1 "ty" IntType.ofJson?
    value := ← r.optional 2 "value" (.word 128) }

end TripCount

namespace Covering

def toJson (c : Covering) : Json :=
  .obj [
    ("min", c.min.toJson),
    ("max", c.max.toJson),
    ("min_value", ofOption .int c.minValue),
    ("max_value", ofOption .int c.maxValue)]

def ofJson? : Reader Covering := fun j => do
  let r ← record? 4 j
  return {
    min := ← r.required 0 "min" Expr.ofJson?
    max := ← r.required 1 "max" Expr.ofJson?
    minValue := ← r.optional 2 "min_value" .wide
    maxValue := ← r.optional 3 "max_value" .wide }

end Covering

namespace LoopLevel

def toJson (l : LoopLevel) : Json :=
  .obj [
    ("level", ofNat l.level),
    ("counter", l.counter.toJson),
    ("counter_ty", l.counterTy.toJson),
    ("private_counter", l.privateCounter.toJson),
    ("lower", l.lower.toJson),
    ("upper", l.upper.toJson),
    ("step", l.step.toJson),
    ("step_value", ofOption .int l.stepValue),
    ("subtract", .bool l.subtract),
    ("is_less", .bool l.ascending),
    ("strict", .bool l.strict),
    ("precondition", l.precondition.toJson),
    ("trip_count", l.tripCount.toJson),
    ("lower_dependency", ofOption ofNat l.lowerDependency),
    ("upper_dependency", ofOption ofNat l.upperDependency),
    ("lower_bounds", ofOption Covering.toJson l.lowerCovering),
    ("upper_bounds", ofOption Covering.toJson l.upperCovering),
    ("final_condition", ofOption Expr.toJson l.finalCondition),
    ("location", l.location.toJson)]

def ofJson? : Reader LoopLevel := fun j => do
  let r ← record? 19 j
  return {
    level := ← r.required 0 "level" (.word 64)
    counter := ← r.required 1 "counter" DeclId.ofJson?
    counterTy := ← r.required 2 "counter_ty" Ty.ofJson?
    privateCounter := ← r.required 3 "private_counter" DeclId.ofJson?
    lower := ← r.required 4 "lower" Expr.ofJson?
    upper := ← r.required 5 "upper" Expr.ofJson?
    step := ← r.required 6 "step" Expr.ofJson?
    stepValue := ← r.optional 7 "step_value" .wide
    subtract := ← r.required 8 "subtract" .bool
    ascending := ← r.required 9 "is_less" .bool
    strict := ← r.required 10 "strict" .bool
    precondition := ← r.required 11 "precondition" Expr.ofJson?
    tripCount := ← r.required 12 "trip_count" TripCount.ofJson?
    lowerDependency := ← r.optional 13 "lower_dependency" (.word 64)
    upperDependency := ← r.optional 14 "upper_dependency" (.word 64)
    lowerCovering := ← r.optional 15 "lower_bounds" Covering.ofJson?
    upperCovering := ← r.optional 16 "upper_bounds" Covering.ofJson?
    finalCondition := ← r.optional 17 "final_condition" Expr.ofJson?
    location := ← r.required 18 "location" Location.ofJson? }

end LoopLevel

namespace IndexRecovery

def toJson (r : IndexRecovery) : Json :=
  .obj [
    ("level", ofNat r.level),
    ("divisor", r.divisor.toJson),
    ("divisor_value", ofOption ofNat r.divisorValue),
    ("counter_value", r.counterValue.toJson)]

def ofJson? : Reader IndexRecovery := fun j => do
  let r ← record? 4 j
  return {
    level := ← r.required 0 "level" (.word 64)
    divisor := ← r.required 1 "divisor" Expr.ofJson?
    divisorValue := ← r.optional 2 "divisor_value" (.word 128)
    counterValue := ← r.required 3 "counter_value" Expr.ofJson? }

end IndexRecovery

namespace LoopNest

def toJson (n : LoopNest) : Json :=
  .obj [
    ("levels", ofList LoopLevel.toJson n.levels),
    ("total_trip_count", n.total.toJson),
    ("induction_var", n.inductionVar.toJson),
    ("recovery", ofList IndexRecovery.toJson n.recovery)]

def ofJson? : Reader LoopNest := fun j => do
  let r ← record? 4 j
  return {
    levels := ← r.required 0 "levels" (.list LoopLevel.ofJson?)
    total := ← r.required 1 "total_trip_count" TripCount.ofJson?
    inductionVar := ← r.required 2 "induction_var" DeclId.ofJson?
    recovery := ← r.required 3 "recovery" (.list IndexRecovery.ofJson?) }

end LoopNest

end Directives
