import Directives.Frame
/-!
The rules of nesting, as a table. The first row that fits a placement decides it; a placement
that no row fits is legal.
-/

namespace Directives

/-- A region about to be entered, and the open regions around it, innermost first. `sole` says
that it is the only statement of its parent. -/
structure Placement where
  child : DirectiveKind
  name : Option String := none
  cancelTarget : Option DirectiveKind := none
  hasSimdClause : Bool := false
  sole : Bool := false
  enclosing : List Frame

namespace Placement

/-- The closest enclosing region. -/
def parent? (p : Placement) : Option Frame := p.enclosing.head?

/-- The closest enclosing region has a kind with the property. -/
def parentIs (p : Placement) (property : DirectiveKind → Bool) : Bool :=
  p.parent?.any fun f => property f.kind

/-- Position, counted from the outermost region, of the innermost enclosing `critical` with the
name of the child. No name is a name as well. -/
def sameNameCritical? (p : Placement) : Option Nat :=
  search p.enclosing
where
  search : List Frame → Option Nat
    | [] => none
    | f :: outer =>
      if f.kind = .critical && f.name = p.name then some outer.length else search outer

end Placement

/-- How a rule that forbids a placement names the failure. -/
inductive RuleClass where
  | incompatibleParent
  | duplicateName
  /-- Orphaned without enclosing region, otherwise incompatible with it. -/
  | orphanedOrIncompatible
  deriving DecidableEq, Repr, Inhabited

/-- What a rule says of the placements it fits; `hint` is where the region belongs. -/
inductive RuleOutcome where
  | legal
  | illegal (failure : RuleClass) (hint : Option DirectiveKind)
  deriving DecidableEq, Repr, Inhabited

/-- A row of the table: it fits the placements whose child it is about and to which it applies. -/
structure NestingRule where
  name : String
  child : DirectiveKind → Bool
  applies : Placement → Bool
  outcome : RuleOutcome

/-- The row fits the placement. -/
def NestingRule.fits (rule : NestingRule) (p : Placement) : Bool :=
  rule.child p.child && rule.applies p

/-- The regions that a cancellation may leave when it names a construct. -/
def cancellable : DirectiveKind → List DirectiveKind
  | .parallel => [.parallel, .targetParallel]
  | .forLoop => [.forLoop, .parallelFor, .targetParallelFor, .distributeParallelFor]
  | .sections => [.sections, .parallelSections, .sectionBlock]
  | .taskgroup => [.task, .taskloop]
  | _ => []

/-- The table, in order of precedence. -/
def nestingRules : List NestingRule :=
  [ { name := "order-concurrent-parent"
      child := fun k => !(k.isParallel || k.isSimd || k = .loop || k = .atomic)
      applies := fun p => p.parent?.any (·.flags.orderConcurrent)
      outcome := .illegal .incompatibleParent none },
    { name := "simd-parent"
      child := fun _ => true
      applies := fun p => p.parentIs (·.isSimd) &&
        !(p.child = .simd || p.child = .atomic || p.child = .scan ||
          (p.child = .ordered && p.hasSimdClause))
      outcome := .illegal .incompatibleParent none },
    { name := "atomic-parent"
      child := fun _ => true
      applies := fun p => p.parentIs (· = .atomic)
      outcome := .illegal .incompatibleParent none },
    { name := "section-in-sections"
      child := (· = .sectionBlock)
      applies := fun p => !p.parentIs (·.isSections)
      outcome := .illegal .orphanedOrIncompatible (some .sections) },
    { name := "barrier-closely-nested"
      child := (· = .barrier)
      applies := fun p => p.parentIs fun k =>
        k.isWorksharing || k.isLoopAssociated || k.isTask || k.isSynchronizing || k.isMasterLike
      outcome := .illegal .incompatibleParent none },
    { name := "master-closely-nested"
      child := (·.isMasterLike)
      applies := fun p => p.parentIs fun k =>
        k.isWorksharing || k.isLoopAssociated || k.isTask || k.isSynchronizing
      outcome := .illegal .incompatibleParent none },
    { name := "worksharing-closely-nested"
      child := (·.isPlainWorksharing)
      applies := fun p => p.parentIs fun k =>
        k.isWorksharing || k.isTask || k.isSynchronizing || k.isMasterLike || k = .loop
      outcome := .illegal .incompatibleParent none },
    { name := "ordered-in-critical-or-task"
      child := (· = .ordered)
      applies := fun p => p.parentIs fun k => k = .critical || k.isTask
      outcome := .illegal .incompatibleParent none },
    { name := "ordered-needs-ordered-loop"
      child := (· = .ordered)
      applies := fun p => !p.parent?.any fun f =>
        f.kind.isLoopAssociated && (f.flags.ordered || (p.hasSimdClause && f.kind.isSimd))
      outcome := .illegal .orphanedOrIncompatible (some .forLoop) },
    { name := "teams-sole-child-of-target"
      child := fun k => k = .teams || k = .teamsDistribute
      applies := fun p => p.parentIs fun k => k != .target || !p.sole
      outcome := .illegal .incompatibleParent (some .target) },
    { name := "teams-strict-nesting"
      child := fun k => !(k.isDistribute || k.isParallel || k = .loop || k = .atomic)
      applies := fun p => p.parentIs (·.isTeamsRegion)
      outcome := .illegal .incompatibleParent none },
    { name := "distribute-in-teams"
      child := (·.isDistribute)
      applies := fun p => !p.parentIs (·.isTeamsRegion)
      outcome := .illegal .orphanedOrIncompatible (some .teams) },
    { name := "cancel-matches-parent"
      child := (·.isCancellation)
      applies := fun p => p.cancelTarget.any fun t => p.parentIs ((cancellable t).contains ·)
      outcome := .legal },
    { name := "cancel-mismatch"
      child := (·.isCancellation)
      applies := fun _ => true
      outcome := .illegal .orphanedOrIncompatible none },
    { name := "critical-same-name"
      child := (· = .critical)
      applies := fun p => p.sameNameCritical?.isSome
      outcome := .illegal .duplicateName none },
    { name := "scan-in-loop"
      child := (· = .scan)
      applies := fun p => !p.parentIs (·.isLoopAssociated)
      outcome := .illegal .orphanedOrIncompatible (some .forLoop) } ]

/-- The row that decides a placement. -/
def Placement.rule? (p : Placement) : Option NestingRule :=
  nestingRules.find? (·.fits p)

end Directives
