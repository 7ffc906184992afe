import Directives.Diagnostic
import Directives.Nesting.Rule
import Directives.Tree
/-!
Verdicts on placements, and the diagnostics of those that are forbidden.
-/

namespace Directives

/-- Why a placement is forbidden. -/
inductive PlacementFailure where
  | orphaned
  | incompatibleParent
  | duplicateName
  deriving DecidableEq, Repr, Inhabited

instance : Vocabulary PlacementFailure where
  members := [.orphaned, .incompatibleParent, .duplicateName]
  label
    | .orphaned => "Orphaned"
    | .incompatibleParent => "IncompatibleParent"
    | .duplicateName => "DuplicateName"

/-- The kind of diagnostic that reports the failure. -/
def PlacementFailure.diagnosticKind : PlacementFailure → DiagnosticKind
  | .orphaned => .illegalNesting .orphaned
  | .incompatibleParent => .illegalNesting .incompatibleParent
  | .duplicateName => .duplicateNamedRegion

/-- The verdict on a placement. `conflicting` is the position of the region with the same name. -/
inductive Verdict where
  | legal
  | illegal (failure : PlacementFailure) (hint : Option DirectiveKind) (rule : String)
      (conflicting : Option Nat)
  deriving DecidableEq, Repr, Inhabited

namespace Placement

/-- The placement of a region among open regions. -/
def ofRegion (r : Region) (sole : Bool) (enclosing : List Frame) : Placement :=
  { child := r.kind, name := r.name, cancelTarget := r.cancelTarget,
    hasSimdClause := r.hasSimdClause, sole, enclosing }

/-- How the failure of a rule is named at this placement. -/
def failure (p : Placement) : RuleClass → PlacementFailure
  | .incompatibleParent => .incompatibleParent
  | .duplicateName => .duplicateName
  | .orphanedOrIncompatible => if p.enclosing.isEmpty then .orphaned else .incompatibleParent

/-- The verdict of the rules. A cancellation that does not fit is shown the construct it names. -/
def verdict (p : Placement) : Verdict :=
  match p.rule? with
  | none => .legal
  | some rule =>
    match rule.outcome with
    | .legal => .legal
    | .illegal cls hint =>
      .illegal (p.failure cls)
        (hint.or (if p.child.isCancellation then p.cancelTarget else none))
        rule.name
        (if cls = .duplicateName then p.sameNameCritical? else none)

/-- The diagnostic of a verdict: it names the child, its parent, the place where it belongs, and
the region of the same name. -/
def diagnostic? (p : Placement) (location : Location) : Verdict → Option Diagnostic
  | .legal => none
  | .illegal failure hint _ conflicting =>
    some {
      location
      kind := failure.diagnosticKind
      args :=
        [.directive p.child]
          ++ (p.parent?.map fun f => .directive f.kind).toList
          ++ (hint.map .directive).toList
          ++ match conflicting.bind (p.enclosing.reverse[·]?) with
             | none => []
             | some f => (f.name.map .name).toList ++ [.location f.location] }

end Placement

end Directives
