import Directives.Sharing
import Directives.DirectiveKind
/-!
Diagnostics: problems found in the analysed program, as a kind with typed arguments. Every kind
belongs to exactly one family.
-/

namespace Directives

/-- Why an attribute is invalid. -/
inductive ConflictReason where
  /-- Listed in two clauses that exclude each other. -/
  | conflictingClauses
  /-- Declared inside the region, in a clause that needs a value from outside. -/
  | localVariable
  /-- `const`, in a clause that writes the variable. -/
  | constVariable
  /-- Threadprivate, in a clause other than `copyin` and `copyprivate`. -/
  | threadprivate
  /-- Not threadprivate, in a `copyin` clause. -/
  | notThreadprivate
  /-- Already private in the enclosing parallel region. -/
  | privateInParallel
  /-- A loop counter, listed with an attribute that it cannot take. -/
  | loopCounter
  /-- A reduction item of the enclosing region, used in a task. -/
  | reductionInTask
  /-- In a clause that the directive does not take. -/
  | invalidForDirective
  /-- No pointer, in a clause for pointers. -/
  | notPointer
  deriving DecidableEq, Repr, Inhabited

instance : Vocabulary ConflictReason where
  members := [.conflictingClauses, .localVariable, .constVariable, .threadprivate,
    .notThreadprivate, .privateInParallel, .loopCounter, .reductionInTask, .invalidForDirective,
    .notPointer]
  label
    | .conflictingClauses => "ConflictingClauses"
    | .localVariable => "LocalVariable"
    | .constVariable => "ConstVariable"
    | .threadprivate => "Threadprivate"
    | .notThreadprivate => "NotThreadprivate"
    | .privateInParallel => "PrivateInParallel"
    | .loopCounter => "LoopCounter"
    | .reductionInTask => "ReductionInTask"
    | .invalidForDirective => "InvalidForDirective"
    | .notPointer => "NotPointer"

/-- What left a variable without attribute. -/
inductive UnresolvedContext where
  /-- `default(none)` -/
  | defaultNone
  /-- `default(private)` or `default(firstprivate)`, which leave out variables of file scope. -/
  | defaultPrivateStatic
  /-- `defaultmap(none)` -/
  | defaultmapNone
  deriving DecidableEq, Repr, Inhabited

instance : Vocabulary UnresolvedContext where
  members := [.defaultNone, .defaultPrivateStatic, .defaultmapNone]
  label
    | .defaultNone => "DefaultNone"
    | .defaultPrivateStatic => "DefaultPrivateStatic"
    | .defaultmapNone => "DefaultmapNone"

/-- Why a region may not stand where it does. -/
inductive NestingFailure where
  /-- It needs an enclosing region and has none. -/
  | orphaned
  /-- The enclosing region does not admit it. -/
  | incompatibleParent
  deriving DecidableEq, Repr, Inhabited

instance : Vocabulary NestingFailure where
  members := [.orphaned, .incompatibleParent]
  label
    | .orphaned => "Orphaned"
    | .incompatibleParent => "IncompatibleParent"

/-- What keeps a loop from being canonical. -/
inductive LoopPart where
  | init
  | condition
  | increment
  /-- There are fewer loops than the directive applies to. -/
  | nestDepth
  /-- There are statements between the loops. -/
  | notPerfectlyNested
  /-- The argument of `collapse` or `ordered` is no positive constant, or they do not fit. -/
  | clauseArgument
  | counterType
  deriving DecidableEq, Repr, Inhabited

instance : Vocabulary LoopPart where
  members := [.init, .condition, .increment, .nestDepth, .notPerfectlyNested, .clauseArgument,
    .counterType]
  label
    | .init => "Init"
    | .condition => "Condition"
    | .increment => "Increment"
    | .nestDepth => "NestDepth"
    | .notPerfectlyNested => "NotPerfectlyNested"
    | .clauseArgument => "ClauseArgument"
    | .counterType => "CounterType"

/-- Families of diagnostics. -/
inductive DiagnosticFamily where
  | attributeConflict
  | unresolvedUnderNoDefault
  | illegalNesting
  | duplicateNamedRegion
  | nonCanonicalLoop
  | incompatibleLoopDirection
  | nonRectangularUnsupported
  deriving DecidableEq, Repr, Inhabited

instance : Vocabulary DiagnosticFamily where
  members := [.attributeConflict, .unresolvedUnderNoDefault, .illegalNesting,
    .duplicateNamedRegion, .nonCanonicalLoop, .incompatibleLoopDirection,
    .nonRectangularUnsupported]
  label
    | .attributeConflict => "AttributeConflict"
    | .unresolvedUnderNoDefault => "UnresolvedUnderNoDefault"
    | .illegalNesting => "IllegalNesting"
    | .duplicateNamedRegion => "DuplicateNamedRegion"
    | .nonCanonicalLoop => "NonCanonicalLoop"
    | .incompatibleLoopDirection => "IncompatibleLoopDirection"
    | .nonRectangularUnsupported => "NonRectangularUnsupported"

/-- Kinds of diagnostics. -/
inductive DiagnosticKind where
  | attributeConflict (reason : ConflictReason)
  | unresolvedUnderNoDefault (context : UnresolvedContext)
  | illegalNesting (failure : NestingFailure)
  | duplicateNamedRegion
  | nonCanonicalLoop (part : LoopPart)
  | incompatibleLoopDirection
  | nonRectangularUnsupported
  deriving DecidableEq, Repr, Inhabited

/-- The family that the kind belongs to. -/
def DiagnosticKind.family : DiagnosticKind → DiagnosticFamily
  | .attributeConflict _ => .attributeConflict
  | .unresolvedUnderNoDefault _ => .unresolvedUnderNoDefault
  | .illegalNesting _ => .illegalNesting
  | .duplicateNamedRegion => .duplicateNamedRegion
  | .nonCanonicalLoop _ => .nonCanonicalLoop
  | .incompatibleLoopDirection => .incompatibleLoopDirection
  | .nonRectangularUnsupported => .nonRectangularUnsupported

/-- Arguments of diagnostics. -/
inductive DiagnosticArg where
  | var (id : DeclId)
  | directive (kind : DirectiveKind)
  | clause (tag : ClauseTag)
  | sharing (kind : Sharing)
  | location (at_ : Location)
  | name (s : String)
  | integer (v : Int)
  deriving DecidableEq, Repr, Inhabited

/-- A problem, where it is, and what a message about it needs. -/
structure Diagnostic where
  location : Location
  kind : DiagnosticKind
  args : List DiagnosticArg := []
  deriving DecidableEq, Repr, Inhabited

/-- The first variable among the arguments. -/
def Diagnostic.var? (d : Diagnostic) : Option DeclId :=
  d.args.findSome? fun | .var id => some id | _ => none

/-- The diagnostics of one family, in the order in which they were reported. -/
def ofFamily (family : DiagnosticFamily) (ds : List Diagnostic) : List Diagnostic :=
  ds.filter fun d => d.kind.family = family

/-- A diagnostic of this kind was reported. -/
def reported (kind : DiagnosticKind) (ds : List Diagnostic) : Bool :=
  ds.any fun d => d.kind = kind

end Directives
