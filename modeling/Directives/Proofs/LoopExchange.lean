import Directives.Exchange.Loop
import Directives.Proofs.TreeExchange
/-!
Loops and nests are read as they were written, where their numbers are in the range of their fields.
-/

namespace Directives

open Json

theorem means_decls {l : List DeclId} (fits : l.all (·.fits) = true) :
    Means (.list DeclId.ofJson?) (ofList DeclId.toJson l) l :=
  means_list (fun _ => DeclId.means) fits

theorem means_optional_expr {o : Option Expr} (fits : o.all (·.fits) = true) :
    Means (.option Expr.ofJson?) (ofOption Expr.toJson o) o :=
  means_option_of_all rfl (fun _ => Expr.means) fits

namespace TripCount

/-- The expression fits; the value has 128 bits and no sign. -/
def fits (c : TripCount) : Bool := c.expr.fits && c.value.all (· < capacity 128)

theorem means {c : TripCount} (fits : c.fits) : Means ofJson? c.toJson c := by
  simp only [TripCount.fits, Bool.and_eq_true] at fits
  have expr := Expr.means fits.1
  have ty := c.ty.means
  have value := means_word_option fits.2
  constructor
  · have names : ["expr", "ty", "value"].Nodup := by decide
    refine bind_of_some rfl ?_
    refine bind_of_some (Record.required_eq names rfl expr) ?_
    refine bind_of_some (Record.required_eq names rfl ty) ?_
    refine bind_of_some (Record.optional_eq names rfl value) ?_
    rfl
  · exact ⟨expr.readable, ty.readable, value.readable, trivial⟩

end TripCount

namespace Covering

def fits (c : Covering) : Bool :=
  c.min.fits && (c.max.fits && (c.minValue.all Wide.fits && c.maxValue.all Wide.fits))

theorem means {c : Covering} (fits : c.fits) : Means ofJson? c.toJson c := by
  simp only [Covering.fits, Bool.and_eq_true] at fits
  have min := Expr.means fits.1
  have max := Expr.means fits.2.1
  have minValue := means_wide_option fits.2.2.1
  have maxValue := means_wide_option fits.2.2.2
  constructor
  · have names : ["min", "max", "min_value", "max_value"].Nodup := by decide
    refine bind_of_some rfl ?_
    refine bind_of_some (Record.required_eq names rfl min) ?_
    refine bind_of_some (Record.required_eq names rfl max) ?_
    refine bind_of_some (Record.optional_eq names rfl minValue) ?_
    refine bind_of_some (Record.optional_eq names rfl maxValue) ?_
    rfl
  · exact ⟨min.readable, max.readable, minValue.readable, maxValue.readable, trivial⟩

end Covering

namespace LoopLevel

/-- Positions of levels have 64 bits, steps 128. -/
def fits (l : LoopLevel) : Bool :=
  (l.level < capacity 64 && (l.counter.fits && (l.counterTy.fits && l.privateCounter.fits))) &&
  (l.lower.fits && (l.upper.fits && (l.step.fits && l.stepValue.all Wide.fits))) &&
  (l.precondition.fits && (l.tripCount.fits && l.finalCondition.all (·.fits))) &&
  (l.lowerDependency.all (· < capacity 64) && l.upperDependency.all (· < capacity 64)) &&
  (l.lowerCovering.all (·.fits) && l.upperCovering.all (·.fits)) && l.location.fits

theorem means {l : LoopLevel} (fits : l.fits) : Means ofJson? l.toJson l := by
  simp only [LoopLevel.fits, Bool.and_eq_true] at fits
  obtain ⟨⟨⟨⟨⟨counter, bounds⟩, counted⟩, dependencies⟩, coverings⟩, location⟩ := fits
  have level := means_word (of_decide_eq_true counter.1)
  have id := DeclId.means counter.2.1
  have ty := Ty.means counter.2.2.1
  have copy := DeclId.means counter.2.2.2
  have lower := Expr.means bounds.1
  have upper := Expr.means bounds.2.1
  have step := Expr.means bounds.2.2.1
  have stepValue := means_wide_option bounds.2.2.2
  have precondition := Expr.means counted.1
  have tripCount := TripCount.means counted.2.1
  have finalCondition := means_optional_expr counted.2.2
  have lowerDependency := means_word_option dependencies.1
  have upperDependency := means_word_option dependencies.2
  have lowerCovering : Means (.option Covering.ofJson?) (ofOption Covering.toJson l.lowerCovering)
      l.lowerCovering := means_option_of_all rfl (fun _ => Covering.means) coverings.1
  have upperCovering : Means (.option Covering.ofJson?) (ofOption Covering.toJson l.upperCovering)
      l.upperCovering := means_option_of_all rfl (fun _ => Covering.means) coverings.2
  have location := Location.means location
  constructor
  · have names :
        ["level", "counter", "counter_ty", "private_counter", "lower", "upper", "step",
         "step_value", "subtract", "is_less", "strict", "precondition", "trip_count",
         "lower_dependency", "upper_dependency", "lower_bounds", "upper_bounds", "final_condition",
         "location"].Nodup := by decide
    refine bind_of_some rfl ?_
    refine bind_of_some (Record.required_eq names rfl level) ?_
    refine bind_of_some (Record.required_eq names rfl id) ?_
    refine bind_of_some (Record.required_eq names rfl ty) ?_
    refine bind_of_some (Record.required_eq names rfl copy) ?_
    refine bind_of_some (Record.required_eq names rfl lower) ?_
    refine bind_of_some (Record.required_eq names rfl upper) ?_
    refine bind_of_some (Record.required_eq names rfl step) ?_
    refine bind_of_some (Record.optional_eq names rfl stepValue) ?_
    refine bind_of_some (Record.required_eq names rfl (means_bool _)) ?_
    refine bind_of_some (Record.required_eq names rfl (means_bool _)) ?_
    refine bind_of_some (Record.required_eq names rfl (means_bool _)) ?_
    refine bind_of_some (Record.required_eq names rfl precondition) ?_
    refine bind_of_some (Record.required_eq names rfl tripCount) ?_
    refine bind_of_some (Record.optional_eq names rfl lowerDependency) ?_
    refine bind_of_some (Record.optional_eq names rfl upperDependency) ?_
    refine bind_of_some (Record.optional_eq names rfl lowerCovering) ?_
    refine bind_of_some (Record.optional_eq names rfl upperCovering) ?_
    refine bind_of_some (Record.optional_eq names rfl finalCondition) ?_
    refine bind_of_some (Record.required_eq names rfl location) ?_
    rfl
  · exact ⟨level.readable, id.readable, ty.readable, copy.readable, lower.readable,
      upper.readable, step.readable, stepValue.readable, trivial, trivial, trivial,
      precondition.readable, tripCount.readable, lowerDependency.readable, upperDependency.readable,
      lowerCovering.readable, upperCovering.readable, finalCondition.readable, location.readable,
      trivial⟩

end LoopLevel

namespace IndexRecovery

def fits (r : IndexRecovery) : Bool :=
  r.level < capacity 64 &&
    (r.divisor.fits && (r.divisorValue.all (· < capacity 128) && r.counterValue.fits))

theorem means {r : IndexRecovery} (fits : r.fits) : Means ofJson? r.toJson r := by
  simp only [IndexRecovery.fits, Bool.and_eq_true] at fits
  have level := means_word (of_decide_eq_true fits.1)
  have divisor := Expr.means fits.2.1
  have divisorValue := means_word_option fits.2.2.1
  have counterValue := Expr.means fits.2.2.2
  constructor
  · have names : ["level", "divisor", "divisor_value", "counter_value"].Nodup := by decide
    refine bind_of_some rfl ?_
    refine bind_of_some (Record.required_eq names rfl level) ?_
    refine bind_of_some (Record.required_eq names rfl divisor) ?_
    refine bind_of_some (Record.optional_eq names rfl divisorValue) ?_
    refine bind_of_some (Record.required_eq names rfl counterValue) ?_
    rfl
  · exact ⟨level.readable, divisor.readable, divisorValue.readable, counterValue.readable, trivial⟩

end IndexRecovery

namespace LoopNest

def fits (n : LoopNest) : Bool :=
  n.levels.all (·.fits) && (n.total.fits && (n.inductionVar.fits && n.recovery.all (·.fits)))

theorem means {n : LoopNest} (fits : n.fits) : Means ofJson? n.toJson n := by
  simp only [LoopNest.fits, Bool.and_eq_true] at fits
  have levels : Means (.list LoopLevel.ofJson?) (ofList LoopLevel.toJson n.levels) n.levels :=
    means_list (fun _ => LoopLevel.means) fits.1
  have total := TripCount.means fits.2.1
  have inductionVar := DeclId.means fits.2.2.1
  have recovery : Means (.list IndexRecovery.ofJson?) (ofList IndexRecovery.toJson n.recovery)
      n.recovery := means_list (fun _ => IndexRecovery.means) fits.2.2.2
  constructor
  · have names : ["levels", "total_trip_count", "induction_var", "recovery"].Nodup := by decide
    refine bind_of_some rfl ?_
    refine bind_of_some (Record.required_eq names rfl levels) ?_
    refine bind_of_some (Record.required_eq names rfl total) ?_
    refine bind_of_some (Record.required_eq names rfl inductionVar) ?_
    refine bind_of_some (Record.required_eq names rfl recovery) ?_
    rfl
  · exact ⟨levels.readable, total.readable, inductionVar.readable, recovery.readable, trivial⟩

end LoopNest

end Directives
