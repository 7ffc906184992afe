import Directives.Diagnostic
/-!
Why loops could not be brought into canonical form.
-/

namespace Directives

/-- What keeps a loop from being used, and where it was found. -/
inductive LoopFailure where
  | nonCanonical (part : LoopPart) (location : Location)
  /-- The step moves away from the bound. -/
  | incompatibleDirection (location : Location)
  /-- A bound depends on outer counters in a way that is not supported. -/
  | nonRectangular (location : Location)
  deriving DecidableEq, Repr, Inhabited

/-- The diagnostic of a failure of the loop at a level. -/
def LoopFailure.diagnostic (f : LoopFailure) (level : Nat) : Diagnostic :=
  match f with
  | .nonCanonical part location => ⟨location, .nonCanonicalLoop part, [.integer level]⟩
  | .incompatibleDirection location => ⟨location, .incompatibleLoopDirection, [.integer level]⟩
  | .nonRectangular location => ⟨location, .nonRectangularUnsupported, [.integer level]⟩

end Directives
