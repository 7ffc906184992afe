import Directives.Registration
import Directives.Tree.Counted
/-!
Inference of implicit clauses: attributes of variables that the body of a region refers to and no
clause of the region lists.
-/

namespace Directives

/-- The clauses that a region behaves as if it had been written with. -/
structure ImplicitClauses where
  firstprivate : List DeclId := []
  priv : List DeclId := []
  shared : List DeclId := []
  map : SortedMap MapType (List DeclId) := .empty
  deriving DecidableEq, Inhabited

namespace ImplicitClauses

def isEmpty (c : ImplicitClauses) : Bool :=
  c.firstprivate.isEmpty && c.priv.isEmpty && c.shared.isEmpty && c.map.entries.isEmpty

/-- The variables that are mapped implicitly with a map type. -/
def mapped (c : ImplicitClauses) (type : MapType) : List DeclId := (c.map.get? type).getD []

/-- Adds a variable to the clause of its attribute. -/
def add (c : ImplicitClauses) (var : DeclId) (kind : Sharing) (modifier : Modifier) :
    ImplicitClauses :=
  match kind, modifier with
  | .firstprivate, _ => { c with firstprivate := c.firstprivate ++ [var] }
  | .priv, _ => { c with priv := c.priv ++ [var] }
  | .shared, _ => { c with shared := c.shared ++ [var] }
  | .mapped, .map type => { c with map := c.map.insert type (c.mapped type ++ [var]) }
  | _, _ => c

end ImplicitClauses

/-- What is inferred for a variable. -/
inductive Inference where
  | nothing
  | unresolved (context : UnresolvedContext)
  | reductionInTask
  | attr (kind : Sharing) (modifier : Modifier)
  deriving DecidableEq, Repr, Inhabited

/-- How a target region treats a variable of a category: scalars are copied in, pointers stay
device pointers, anything else is mapped both ways, unless a `defaultmap` clause says otherwise. -/
def inferMapping (category : Category) (behavior : MapBehavior) : Inference :=
  match behavior with
  | .none => .unresolved .defaultmapNone
  | .firstprivate => .attr .firstprivate .none
  | .default =>
    match category with
    | .scalar => .attr .firstprivate .none
    | .pointer => .attr .mapped (.map .alloc)
    | .aggregate => .attr .mapped (.map .tofrom)
  | .alloc => .attr .mapped (.map .alloc)
  | .to => .attr .mapped (.map .to)
  | .fromDevice => .attr .mapped (.map .fromDevice)
  | .tofrom => .attr .mapped (.map .tofrom)
  | .present => .attr .mapped (.map .present)

/-- The closest parallel, worksharing or teams region around the current one has the variable as a
reduction item. -/
def isEnclosingReductionItem (stack : FrameStack) (var : DeclId) : Bool :=
  (stack.suppress.innermost? fun f =>
    f.kind.isParallel || f.kind.isWorksharing || f.kind.isTeams).any fun found =>
      found.2.isReductionItem var

/-- The attribute that an attribute found by resolution becomes in the region itself: one that a
task inherits, and one that the region's own default gives. -/
def Attribute.inferred (a : Attribute) (current : Nat) : Inference :=
  if a.origin = .inherited || (a.origin = .default && a.frame = some current) then
    match a.kind with
    | .shared | .priv | .firstprivate => .attr a.kind .none
    | _ => .nothing
  else .nothing

/-- What is inferred for a referenced variable in the current region `frame`. -/
def infer (o : Options) (decls : DeclTable) (stack : FrameStack) (frame : Frame)
    (directive : DirectiveKind) (var : DeclId) (d : VarDecl) : Inference :=
  if d.threadprivate || frame.entries.contains var || frame.isRejected var then .nothing
  else
    let current := stack.depth - 1
    match resolve o decls stack.visible var, frame.defaultMode with
    | .rejected, _ => .nothing
    | .unresolved, .none => .unresolved .defaultNone
    | .unresolved, .priv | .unresolved, .firstprivate => .unresolved .defaultPrivateStatic
    | r, _ =>
      if r.attr?.any fun a => a.origin = .predetermined && a.frame = some current then .nothing
      else if directive.isTarget then
        if d.declareTarget then .nothing
        else inferMapping d.ty.category (frame.mapDefaults.get d.ty.category)
      else if directive.isTask && isEnclosingReductionItem stack var then .reductionInTask
      else
        match r with
        | .resolved a => a.inferred current
        | _ => .nothing

/-- Carries out what is inferred for a variable referred to at `location`. -/
def applyInference (directive : DirectiveKind) (frame : Frame) (var : DeclId) (location : Location) :
    Inference → Scope × ImplicitClauses → Scope × ImplicitClauses
  | .nothing, result => result
  | .unresolved context, (s, clauses) =>
    let s := s.report
      { location
        kind := .unresolvedUnderNoDefault context
        args := [.var var, .directive frame.kind] }
    (s.modifyCurrent (·.reject var), clauses)
  | .reductionInTask, (s, clauses) =>
    let s := s.report
      { location
        kind := .attributeConflict .reductionInTask
        args := [.var var, .directive directive] }
    (s.modifyCurrent (·.reject var), clauses)
  | .attr kind modifier, (s, clauses) =>
    let (copy, s) := s.copyFor kind
    (s.modifyCurrent fun f => (f.insertImplicit var { kind, modifier, copy, location }).1,
      clauses.add var kind modifier)

/-- Infers the attribute of one referenced variable. -/
def inferOccurrence (o : Options) (decls : DeclTable) (directive : DirectiveKind)
    (result : Scope × ImplicitClauses) (occ : Occurrence) : Scope × ImplicitClauses :=
  match decls.get? occ.1, result.1.stack.current? with
  | some d, some frame =>
    applyInference directive frame occ.1 occ.2
      (infer o decls result.1.stack frame directive occ.1 d) result
  | _, _ => result

/-- Infers the implicit clauses of a region, whose frame is the current one, and records them
there. -/
def inferClauses (o : Options) (decls : DeclTable) (r : Region) (s : Scope) :
    Scope × ImplicitClauses :=
  match r.body with
  | none => (s, {})
  | some body =>
    (referencedVariables decls body).foldl (inferOccurrence o decls r.kind) (s, {})

end Directives
