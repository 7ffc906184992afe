import Directives.Analysis.Report
import Directives.Loop.Canonical
import Directives.Tree.Forest
/-!
The analysis of a program: a walk over the forest of its regions. A region that is entered gets a
frame; its clauses are registered, its loops canonicalized, its implicit clauses inferred and its
variables resolved; then the regions inside it are walked, and the frame is taken away. A region
that stands where it may not, or that is put off, is recorded and passed by.
-/

namespace Directives

/-- The state of a walk: `parents` holds the numbers of the entered regions, innermost first. -/
structure Walk where
  decls : DeclTable
  scope : Scope := {}
  regions : List RegionReport := []
  parents : List Nat := []

/-- A walk that was stopped by an error, in the state in which it was stopped. -/
abbrev Walk.Outcome := Except (Error × Walk) Walk

/-- Marks the variables with automatic storage that are declared inside a region. -/
def declareLocals (decls : DeclTable) (r : Region) (f : Frame) : Frame :=
  ((r.body.map (·.declared)).getD []).foldl
    (fun f id =>
      let var := decls.canonical id
      if (decls.get? var).any (·.isAutomatic) then f.declareLocal var else f)
    f

/-- The fixed attribute of the counters of a nest. -/
def DirectiveKind.counterSharing (k : DirectiveKind) (depth : Nat) : Sharing :=
  if k.isSimd then if depth = 1 then .linear else .lastprivate else .priv

/-- The variables that a region is asked about: the counters of its loops, those it lists, and
those its body refers to; each once, where it comes first. -/
def regionVariables (decls : DeclTable) (r : Region) (nest : Option LoopNest) : List DeclId :=
  let counters := (nest.map (·.levels)).getD [] |>.map (·.counter)
  let listed := r.items.map (·.decl)
  let referenced := (r.body.map (referencedVariables decls)).getD [] |>.map (·.1)
  distinct [] ((counters ++ listed ++ referenced).map decls.canonical)
where
  distinct (seen : List DeclId) : List DeclId → List DeclId
    | [] => []
    | v :: rest => if seen.contains v then distinct seen rest else v :: distinct (v :: seen) rest

/-- Sorts a variable by its resolution. -/
def RegionReport.record (report : RegionReport) (var : DeclId) : Resolution → RegionReport
  | .resolved a => { report with attributes := report.attributes ++ [⟨var, a⟩] }
  | .unresolved => { report with unresolved := report.unresolved ++ [var] }
  | .rejected => { report with rejected := report.rejected ++ [var] }

namespace Walk

/-- A walk that has not begun. -/
def start (decls : DeclTable) : Walk := { decls }

/-- The record of a region that is about to be entered, as yet without findings. -/
def blank (w : Walk) (r : Region) (verdict : Verdict) (status : RegionStatus) : RegionReport :=
  { id := w.regions.length, kind := r.kind, name := r.name, location := r.location
    parent := w.parents.head?, depth := w.scope.stack.depth, verdict, status }

/-- Adds a record. -/
def add (w : Walk) (report : RegionReport) : Walk := { w with regions := w.regions ++ [report] }

/-- Canonicalizes the loops of the current region and registers their counters. -/
def registerLoops (o : Options) (r : Region) (w : Walk) : Except Error (Option LoopNest) × Walk :=
  if r.kind.isLoopAssociated then
    let scope := match r.association with
      | .ok (some a) => w.scope.modifyCurrent fun f =>
        { f with associatedLoops := a.depth, orderedDepth := a.ordered }
      | _ => w.scope
    let (outcome, decls) := canonicalizeNest o r w.decls
    let scope := outcome.diagnostics.foldl Scope.report scope
    match outcome with
    | .noRoom => (.error .noRoom, { w with decls, scope })
    | .invalid _ | .deferred => (.ok none, { w with decls, scope })
    | .nest nest =>
      let fixed := r.kind.counterSharing nest.depth
      let scope := nest.levels.foldl (fun s l => registerCounter decls l.counter fixed s) scope
      (.ok (some nest), { w with decls, scope })
  else (.ok none, w)

/-- What became of a region at which the walk arrived. -/
inductive Arrival where
  /-- It was recorded and passed by. -/
  | passed (w : Walk)
  /-- It was entered, under a number. -/
  | entered (id : Nat) (w : Walk)
  /-- An error stopped the walk in it. -/
  | stopped (e : Error) (w : Walk)

/-- Analyses the region whose frame was just pushed. `report` is its record without findings. -/
def analyzeCurrent (o : Options) (r : Region) (report : RegionReport) (w : Walk) : Arrival :=
  let w := { w with scope := w.scope.modifyCurrent (declareLocals w.decls r) }
  match registerClauses o w.decls r w.scope with
  | .error (e, scope) => .stopped e { w with scope }
  | .ok scope =>
    match registerLoops o r { w with scope } with
    | (.error e, w) => .stopped e w
    | (.ok nest, w) =>
      let (scope, implicit) := inferClauses o w.decls r w.scope
      let w := { w with scope }
      let report := (regionVariables w.decls r nest).foldl
        (fun report var => report.record var (resolve o w.decls w.scope.stack.visible var)) report
      .entered report.id
        { w.add { report with implicit, nest } with parents := report.id :: w.parents }

/-- Arrives at a region. -/
def arrive (o : Options) (r : Region) (sole : Bool) (w : Walk) : Arrival :=
  if r.dependent && o.deferDependent then .passed (w.add (w.blank r .legal .deferred))
  else
    let placement := Placement.ofRegion r sole w.scope.stack.visible
    let verdict := placement.verdict
    match placement.diagnostic? r.location verdict with
    | some d =>
      .passed ({ w with scope := w.scope.report d }.add (w.blank r verdict .invalidNesting))
    | none =>
      let report := w.blank r verdict .analyzed
      let stack := if r.kind = .cancel then w.scope.stack.markCancel else w.scope.stack
      match stack.push { kind := r.kind, name := r.name, location := r.location } with
      | .error e => .stopped e { w with scope := { w.scope with stack } }
      | .ok stack => analyzeCurrent o r report { w with scope := { w.scope with stack } }

/-- Leaves the region with a number, and notes whether a cancellation names it. -/
def leave (id : Nat) (w : Walk) : Outcome :=
  let w := { w with parents := w.parents.tail }
  match w.scope.stack.pop with
  | .error e => .error (e, w)
  | .ok (frame, stack) =>
    .ok { w with
      scope := { w.scope with stack }
      regions := w.regions.modify id fun report =>
        { report with cancelPresent := frame.flags.cancelPresent } }

mutual

/-- Walks a region and the regions inside it. -/
def tree (o : Options) : RegionTree → Walk → Outcome
  | .node r sole children, w =>
    match w.arrive o r sole with
    | .passed w => .ok w
    | .stopped e w => .error (e, w)
    | .entered id w =>
      match forest o children w with
      | .error stopped => .error stopped
      | .ok w => w.leave id

/-- Walks regions that stand one after the other. -/
def forest (o : Options) : List RegionTree → Walk → Outcome
  | [], w => .ok w
  | t :: rest, w =>
    match tree o t w with
    | .error stopped => .error stopped
    | .ok w => forest o rest w

end

/-- Walks the regions of a statement. -/
def stmt (o : Options) (s : Stmt) (w : Walk) : Outcome := w.forest o (s.forest false)

/-- Walks a region. -/
def region (o : Options) (r : Region) (sole : Bool) (w : Walk) : Outcome := w.tree o (r.tree sole)

/-- Ends the walk, which has to have left every region. -/
def finish (w : Walk) : Except Error Report :=
  if w.scope.stack.total = 0 then .ok { regions := w.regions, decls := w.decls }
  else .error (.unbalancedStack w.scope.stack.total)

end Walk

/-- Analyses a program: its report, or the error that stopped the analysis, and what was reported
in either case. -/
def analyze (o : Options) (p : Program) : Except Error Report × List Diagnostic :=
  match o.validate with
  | .error e => (.error e, [])
  | .ok () =>
    match (Walk.start p.decls).forest o p.forest with
    | .error (e, w) => (.error e, w.scope.diagnostics)
    | .ok w => (w.finish, w.scope.diagnostics)

end Directives
