import Directives.Options
import Directives.Diagnostic
import Directives.FrameStack
import Directives.Resolution
import Directives.Tree.Expr
/-!
Registration of the clauses of a region in its frame, which is the innermost visible one. Each
listed variable is judged by itself: it is passed over, entered, or refused. A refused variable is
reported and marked, and the rest of the region is registered as usual.
-/

namespace Directives

/-- The open regions, and what has been reported so far. -/
structure Scope where
  stack : FrameStack := {}
  diagnostics : List Diagnostic := []
  deriving Inhabited

namespace Scope

/-- Reports a problem. -/
def report (s : Scope) (d : Diagnostic) : Scope :=
  { s with diagnostics := s.diagnostics ++ [d] }

/-- Changes the current frame. -/
def modifyCurrent (s : Scope) (change : Frame → Frame) : Scope :=
  { s with stack := s.stack.modifyCurrent change }

/-- Takes the next private copy for an attribute that needs one. -/
def copyFor (s : Scope) (kind : Sharing) : Option CopyId × Scope :=
  if kind.isPrivatizing then
    let (copy, stack) := s.stack.allocateCopy
    (some copy, { s with stack })
  else (none, s)

end Scope

/-- The attribute that a clause gives to the variables it lists. -/
def ClauseKind.sharing? : ClauseKind → Option (Sharing × Modifier)
  | .priv => some (.priv, .none)
  | .firstprivate | .isDevicePtr => some (.firstprivate, .none)
  | .lastprivate conditional => some (.lastprivate, if conditional then .conditional else .none)
  | .shared => some (.shared, .none)
  | .reduction op | .taskReduction op | .inReduction op => some (.reduction, .reduction op)
  | .linear step =>
    some (.linear, .linearStep (match step with | some e => e.literal? | none => some 1))
  | .map type => some (.mapped, .map type)
  | _ => none

/-- The directive takes clauses that give this attribute. -/
def DirectiveKind.takes (k : DirectiveKind) : Sharing → Bool
  | .mapped => k.acceptsMap
  | .linear => k.isLoopAssociated
  | _ => true

/-- The region writes the variable outside when it has this attribute. -/
def Sharing.writesOuter (o : Options) : Sharing → Bool
  | .lastprivate | .reduction | .linear => true
  | .priv => o.sharesConst
  | _ => false

/-- The attributes that exclude `kind` in a worksharing region when the variable has one of them
in the enclosing parallel region. -/
def Sharing.excludedInParallel : Sharing → List Sharing
  | .reduction => [.priv, .firstprivate, .lastprivate]
  | .firstprivate | .lastprivate => [.priv, .reduction]
  | _ => []

/-- Seen from around the current region, the enclosing parallel region or a region within gave the
variable an attribute that excludes `kind`. -/
def excludedByParallel (o : Options) (decls : DeclTable) (stack : FrameStack) (var : DeclId)
    (kind : Sharing) : Bool :=
  let outer := stack.suppress
  match outer.innermost? (·.kind.isParallel) with
  | none => false
  | some (parallel, _) =>
    match (resolve o decls outer.visible var).attr? with
    | none => false
    | some a => kind.excludedInParallel.contains a.kind && a.frame.any fun f => parallel ≤ f

/-- What is done with a listed variable. -/
inductive Judgement where
  /-- The clause records nothing for it. -/
  | pass
  /-- It is reported. -/
  | report (reason : ConflictReason)
  /-- It is reported and marked as rejected. -/
  | reject (reason : ConflictReason)
  | enter (kind : Sharing) (modifier : Modifier)
  deriving DecidableEq, Repr, Inhabited

/-- The judgement on the variable `var` with declaration `d`, listed in a clause of a directive. -/
def judge (o : Options) (decls : DeclTable) (stack : FrameStack) (directive : DirectiveKind)
    (clause : ClauseKind) (var : DeclId) (d : VarDecl) : Judgement :=
  match clause with
  | .copyin => if d.threadprivate then .pass else .report .notThreadprivate
  | .copyprivate => .pass
  | _ =>
    if d.threadprivate && clause.tag != .map then .reject .threadprivate
    else
      match clause.sharing? with
      | none => .pass
      | some (kind, modifier) =>
        if !directive.takes kind then .reject .invalidForDirective
        else if clause.tag = .isDevicePtr && !d.ty.isPointer then .reject .notPointer
        else if stack.current?.any (·.isLocal var) && clause.needsOuterValue
            && kind != .lastprivate then
          .reject .localVariable
        else if d.ty.isReadOnly && kind.writesOuter o then .reject .constVariable
        else if directive.isPlainWorksharing && excludedByParallel o decls stack var kind then
          .reject .privateInParallel
        else .enter kind modifier

/-- Enters a listed variable in the current frame, and reports an earlier entry that excludes it. -/
def enterItem (item : ClauseItem) (var : DeclId) (d : VarDecl) (kind : Sharing)
    (modifier : Modifier) (s : Scope) : Scope :=
  let (copy, s) := s.copyFor kind
  match s.stack.current? with
  | none => s
  | some frame =>
    let entry : Entry :=
      { kind, modifier, copy, location := item.location
        ofPointee := item.ofSection && d.ty.isPointer }
    match frame.insertExplicit var entry with
    | (_, .conflict old) =>
      s.report
        { location := item.location
          kind := .attributeConflict .conflictingClauses
          args := [.var var, .sharing old.kind, .sharing kind, .location old.location] }
    | (frame, _) => s.modifyCurrent fun _ => frame

/-- The report on a refused variable. -/
def refusal (item : ClauseItem) (var : DeclId) (tag : ClauseTag) (reason : ConflictReason) :
    Diagnostic :=
  { location := item.location, kind := .attributeConflict reason, args := [.var var, .clause tag] }

/-- Registers one listed variable. -/
def registerItem (o : Options) (decls : DeclTable) (directive : DirectiveKind) (clause : ClauseKind)
    (item : ClauseItem) (s : Scope) : Except Error Scope :=
  let var := decls.canonical item.decl
  match decls.decl var with
  | .error e => .error e
  | .ok d =>
    .ok <|
      match judge o decls s.stack directive clause var d with
      | .pass => s
      | .report reason => s.report (refusal item var clause.tag reason)
      | .reject reason =>
        (s.report (refusal item var clause.tag reason)).modifyCurrent (·.reject var)
      | .enter kind modifier => enterItem item var d kind modifier s

/-- Registers listed variables one after the other, up to the first that is not declared. What was
registered before it stays. -/
def registerItems (o : Options) (decls : DeclTable) (directive : DirectiveKind) :
    List (ClauseKind × ClauseItem) → Scope → Except (Error × Scope) Scope
  | [], s => .ok s
  | (clause, item) :: rest, s =>
    match registerItem o decls directive clause item s with
    | .error e => .error (e, s)
    | .ok s => registerItems o decls directive rest s

/-- Notes in the current frame what a clause says about the region as a whole. -/
def registerMode (directive : DirectiveKind) (s : Scope) (c : Clause) : Scope :=
  match c.kind with
  | .default mode => s.modifyCurrent fun f => { f with defaultMode := mode }
  | .defaultmap behavior category =>
    if directive.isTarget then
      s.modifyCurrent fun f => { f with mapDefaults := f.mapDefaults.set behavior category }
    else
      s.report
        { location := c.location
          kind := .attributeConflict .invalidForDirective
          args := [.clause .defaultmap, .directive directive] }
  | .nowait => s.modifyCurrent fun f => { f with flags := { f.flags with nowait := true } }
  | .untied => s.modifyCurrent fun f => { f with flags := { f.flags with untied := true } }
  | .ordered _ => s.modifyCurrent fun f => { f with flags := { f.flags with ordered := true } }
  | .order _ =>
    s.modifyCurrent fun f => { f with flags := { f.flags with orderConcurrent := true } }
  | _ => s

/-- Registers the clauses of a region in the current frame: first what concerns the region as a
whole, then the listed variables in source order. -/
def registerClauses (o : Options) (decls : DeclTable) (r : Region) (s : Scope) :
    Except (Error × Scope) Scope :=
  let s := if s.stack.current?.isSome then r.clauses.foldl (registerMode r.kind) s else s
  registerItems o decls r.kind (r.clauses.flatMap fun c => c.items.map (c.kind, ·)) s

/-- Registers a loop counter of the current region with the attribute that is fixed for it, and
reports a clause that gives it one it cannot take. -/
def registerCounter (decls : DeclTable) (counter : DeclId) (fixed : Sharing) (s : Scope) : Scope :=
  let var := decls.canonical counter
  match s.stack.current? with
  | none => s
  | some frame =>
    let s :=
      match frame.entryOf? var with
      | some e =>
        if !e.implicit && !Sharing.counterAccepts fixed e.kind then
          s.report
            { location := e.location
              kind := .attributeConflict .loopCounter
              args := [.var var, .sharing e.kind, .sharing fixed] }
        else s
      | none => s
    s.modifyCurrent (·.registerCounter var fixed)

end Directives
