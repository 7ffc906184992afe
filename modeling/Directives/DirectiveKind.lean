import Directives.Vocabulary
/-!
The kinds of directives and the families they belong to. A combined directive belongs to every
family that it combines.
-/

namespace Directives

/-- Kinds of directives. -/
inductive DirectiveKind where
  | parallel
  | forLoop
  | forSimd
  | simd
  | sections
  | sectionBlock
  | single
  | master
  | masked
  | critical
  | barrier
  | taskwait
  | taskyield
  | taskgroup
  | flush
  | ordered
  | atomic
  | task
  | taskloop
  | taskloopSimd
  | target
  | targetData
  | targetParallel
  | targetParallelFor
  | targetTeams
  | targetTeamsDistribute
  | teams
  | teamsDistribute
  | distribute
  | distributeParallelFor
  | distributeSimd
  | parallelFor
  | parallelForSimd
  | parallelSections
  | loop
  | scan
  | cancel
  | cancellationPoint
  deriving DecidableEq, Repr, Inhabited

instance : Vocabulary DirectiveKind where
  members := [.parallel, .forLoop, .forSimd, .simd, .sections, .sectionBlock, .single, .master,
    .masked, .critical, .barrier, .taskwait, .taskyield, .taskgroup, .flush, .ordered, .atomic,
    .task, .taskloop, .taskloopSimd, .target, .targetData, .targetParallel, .targetParallelFor,
    .targetTeams, .targetTeamsDistribute, .teams, .teamsDistribute, .distribute,
    .distributeParallelFor, .distributeSimd, .parallelFor, .parallelForSimd, .parallelSections,
    .loop, .scan, .cancel, .cancellationPoint]
  label
    | .parallel => "Parallel"
    | .forLoop => "For"
    | .forSimd => "ForSimd"
    | .simd => "Simd"
    | .sections => "Sections"
    | .sectionBlock => "Section"
    | .single => "Single"
    | .master => "Master"
    | .masked => "Masked"
    | .critical => "Critical"
    | .barrier => "Barrier"
    | .taskwait => "Taskwait"
    | .taskyield => "Taskyield"
    | .taskgroup => "Taskgroup"
    | .flush => "Flush"
    | .ordered => "Ordered"
    | .atomic => "Atomic"
    | .task => "Task"
    | .taskloop => "Taskloop"
    | .taskloopSimd => "TaskloopSimd"
    | .target => "Target"
    | .targetData => "TargetData"
    | .targetParallel => "TargetParallel"
    | .targetParallelFor => "TargetParallelFor"
    | .targetTeams => "TargetTeams"
    | .targetTeamsDistribute => "TargetTeamsDistribute"
    | .teams => "Teams"
    | .teamsDistribute => "TeamsDistribute"
    | .distribute => "Distribute"
    | .distributeParallelFor => "DistributeParallelFor"
    | .distributeSimd => "DistributeSimd"
    | .parallelFor => "ParallelFor"
    | .parallelForSimd => "ParallelForSimd"
    | .parallelSections => "ParallelSections"
    | .loop => "Loop"
    | .scan => "Scan"
    | .cancel => "Cancel"
    | .cancellationPoint => "CancellationPoint"

namespace DirectiveKind

/-- The words of the directive. -/
def spelling : DirectiveKind → String
  | .parallel => "parallel"
  | .forLoop => "for"
  | .forSimd => "for simd"
  | .simd => "simd"
  | .sections => "sections"
  | .sectionBlock => "section"
  | .single => "single"
  | .master => "master"
  | .masked => "masked"
  | .critical => "critical"
  | .barrier => "barrier"
  | .taskwait => "taskwait"
  | .taskyield => "taskyield"
  | .taskgroup => "taskgroup"
  | .flush => "flush"
  | .ordered => "ordered"
  | .atomic => "atomic"
  | .task => "task"
  | .taskloop => "taskloop"
  | .taskloopSimd => "taskloop simd"
  | .target => "target"
  | .targetData => "target data"
  | .targetParallel => "target parallel"
  | .targetParallelFor => "target parallel for"
  | .targetTeams => "target teams"
  | .targetTeamsDistribute => "target teams distribute"
  | .teams => "teams"
  | .teamsDistribute => "teams distribute"
  | .distribute => "distribute"
  | .distributeParallelFor => "distribute parallel for"
  | .distributeSimd => "distribute simd"
  | .parallelFor => "parallel for"
  | .parallelForSimd => "parallel for simd"
  | .parallelSections => "parallel sections"
  | .loop => "loop"
  | .scan => "scan"
  | .cancel => "cancel"
  | .cancellationPoint => "cancellation point"

/-- Creates a team of threads. -/
def isParallel : DirectiveKind → Bool
  | .parallel | .parallelFor | .parallelForSimd | .parallelSections | .targetParallel
  | .targetParallelFor | .distributeParallelFor => true
  | _ => false

/-- Creates a league of teams. -/
def isTeams : DirectiveKind → Bool
  | .teams | .targetTeams | .teamsDistribute | .targetTeamsDistribute => true
  | _ => false

/-- Creates a league of teams and distributes nothing over it. -/
def isTeamsRegion : DirectiveKind → Bool
  | .teams | .targetTeams => true
  | _ => false

/-- Creates explicit tasks. -/
def isTask : DirectiveKind → Bool
  | .task | .taskloop | .taskloopSimd => true
  | _ => false

/-- Runs on a device, to which its variables are mapped. -/
def isTarget : DirectiveKind → Bool
  | .target | .targetParallel | .targetParallelFor | .targetTeams | .targetTeamsDistribute => true
  | _ => false

/-- Takes `map` clauses. -/
def acceptsMap (k : DirectiveKind) : Bool :=
  k.isTarget || k = .targetData

/-- Runs iterations in vector lanes. -/
def isSimd : DirectiveKind → Bool
  | .simd | .forSimd | .parallelForSimd | .taskloopSimd | .distributeSimd => true
  | _ => false

/-- Shares its work among the threads of a team. -/
def isWorksharing : DirectiveKind → Bool
  | .forLoop | .forSimd | .sections | .single | .parallelFor | .parallelForSimd
  | .parallelSections | .targetParallelFor | .distributeParallelFor => true
  | _ => false

/-- Shares its work among a team that already exists. -/
def isPlainWorksharing (k : DirectiveKind) : Bool :=
  k.isWorksharing && !k.isParallel

/-- Shares the iterations of a loop among the threads of a team. -/
def isWorksharingLoop : DirectiveKind → Bool
  | .forLoop | .forSimd | .parallelFor | .parallelForSimd | .targetParallelFor
  | .distributeParallelFor => true
  | _ => false

/-- Applies to the loops that follow it. -/
def isLoopAssociated : DirectiveKind → Bool
  | .forLoop | .forSimd | .simd | .taskloop | .taskloopSimd | .targetParallelFor
  | .targetTeamsDistribute | .teamsDistribute | .distribute | .distributeParallelFor
  | .distributeSimd | .parallelFor | .parallelForSimd | .loop => true
  | _ => false

/-- Distributes iterations over a league of teams that already exists. -/
def isDistribute : DirectiveKind → Bool
  | .distribute | .distributeParallelFor | .distributeSimd => true
  | _ => false

def isSections : DirectiveKind → Bool
  | .sections | .parallelSections => true
  | _ => false

def isCancellation : DirectiveKind → Bool
  | .cancel | .cancellationPoint => true
  | _ => false

/-- Has no statement of its own. -/
def isStandalone : DirectiveKind → Bool
  | .barrier | .taskwait | .taskyield | .flush | .scan | .cancel | .cancellationPoint => true
  | _ => false

/-- Shares the variables that no clause mentions. -/
def sharesByDefault (k : DirectiveKind) : Bool :=
  k.isParallel || k.isTeams

/-- Ends the outward search of a task for the attribute that it inherits. -/
def isTaskBoundary (k : DirectiveKind) : Bool :=
  k.isParallel || k.isTeams || k.isTask

/-- Waits for other threads, in an order fixed by the program. -/
def isSynchronizing : DirectiveKind → Bool
  | .critical | .ordered => true
  | _ => false

/-- Is run by one distinguished thread. -/
def isMasterLike : DirectiveKind → Bool
  | .master | .masked => true
  | _ => false

end DirectiveKind

end Directives
