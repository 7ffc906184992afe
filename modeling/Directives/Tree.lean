import Directives.Location
import Directives.Ty
import Directives.Operator
import Directives.DirectiveKind
import Directives.ClauseTag
import Directives.DeclTable
/-!
The analysed tree: expressions, statements, and regions with their clauses. Every reference is
resolved to a declaration and every expression carries its type.
-/

namespace Directives

/-- What every expression carries. A dependent expression stands in a generic context that is not
instantiated yet. -/
structure ExprInfo where
  ty : Ty
  location : Location
  dependent : Bool := false
  deriving DecidableEq, Repr, Inhabited

/-- A variable listed in a clause; `ofSection` when a section of it is listed, as in `p[lo:len]`. -/
structure ClauseItem where
  decl : DeclId
  location : Location
  ofSection : Bool := false
  deriving DecidableEq, Repr, Inhabited

mutual

/-- Expressions. -/
inductive Expr where
  | intLit (info : ExprInfo) (value : Int)
  | boolLit (info : ExprInfo) (value : Bool)
  | ref (info : ExprInfo) (decl : DeclId)
  | binary (info : ExprInfo) (op : BinaryOp) (lhs rhs : Expr)
  | unary (info : ExprInfo) (op : UnaryOp) (operand : Expr)
  | assign (info : ExprInfo) (lhs rhs : Expr)
  | compound (info : ExprInfo) (op : BinaryOp) (lhs rhs : Expr)
  | conditional (info : ExprInfo) (cond thenExpr elseExpr : Expr)
  /-- A conversion that the type checker inserted. -/
  | cast (info : ExprInfo) (inner : Expr)
  | paren (info : ExprInfo) (inner : Expr)
  /-- A call of a constructor. -/
  | construct (info : ExprInfo) (args : List Expr)
  | subscript (info : ExprInfo) (base index : Expr)
  | call (info : ExprInfo) (callee : String) (args : List Expr)
  /-- A function without a name; its body runs where it is invoked. -/
  | closure (info : ExprInfo) (body : Stmt)

/-- Statements. -/
inductive Stmt where
  | expr (location : Location) (e : Expr)
  | decl (location : Location) (inits : List DeclInit)
  | block (location : Location) (stmts : List Stmt)
  | forLoop (location : Location) (init : Option Stmt) (cond inc : Option Expr) (body : Stmt)
  | whileLoop (location : Location) (cond : Expr) (body : Stmt)
  | branch (location : Location) (cond : Expr) (thenStmt : Stmt) (elseStmt : Option Stmt)
  | region (location : Location) (r : Region)
  | null (location : Location)

/-- One declared variable of a declaration statement. -/
structure DeclInit where
  decl : DeclId
  init : Option Expr

/-- A region: a directive with its clauses and the statement it applies to. The name is that of a
`critical` construct; the cancel target is the construct that `cancel` names. -/
structure Region where
  kind : DirectiveKind
  name : Option String := none
  cancelTarget : Option DirectiveKind := none
  clauses : List Clause := []
  body : Option Stmt := none
  location : Location
  dependent : Bool := false

/-- A clause and the variables that it lists. -/
structure Clause where
  kind : ClauseKind
  items : List ClauseItem
  location : Location

/-- Clauses with their arguments. -/
inductive ClauseKind where
  | priv
  | firstprivate
  | lastprivate (conditional : Bool)
  | shared
  | reduction (op : ReductionOp)
  | taskReduction (op : ReductionOp)
  | inReduction (op : ReductionOp)
  | linear (step : Option Expr)
  | copyin
  | copyprivate
  | map (type : MapType)
  | isDevicePtr
  | default (mode : DefaultMode)
  | defaultmap (behavior : MapBehavior) (category : Option Category)
  | collapse (count : Expr)
  | ordered (count : Option Expr)
  | order (kind : OrderKind)
  | nowait
  | untied
  | simd
  | threads
  | mergeable
  | cond (e : Expr)
  | numThreads (e : Expr)
  | final (e : Expr)

end

/-- A translation unit: its declarations, and its statements in source order. -/
structure Program where
  decls : DeclTable
  body : List Stmt

instance : Inhabited Expr := ⟨.boolLit default false⟩

instance : Inhabited Stmt := ⟨.null default⟩

namespace Stmt

def location : Stmt → Location
  | .expr l _ | .decl l _ | .block l _ | .forLoop l _ _ _ _ | .whileLoop l _ _ | .branch l _ _ _
  | .region l _ | .null l => l

end Stmt

namespace ClauseKind

/-- The name of the clause. -/
def tag : ClauseKind → ClauseTag
  | .priv => .priv
  | .firstprivate => .firstprivate
  | .lastprivate _ => .lastprivate
  | .shared => .shared
  | .reduction _ => .reduction
  | .taskReduction _ => .taskReduction
  | .inReduction _ => .inReduction
  | .linear _ => .linear
  | .copyin => .copyin
  | .copyprivate => .copyprivate
  | .map _ => .map
  | .isDevicePtr => .isDevicePtr
  | .default _ => .default
  | .defaultmap _ _ => .defaultmap
  | .collapse _ => .collapse
  | .ordered _ => .ordered
  | .order _ => .order
  | .nowait => .nowait
  | .untied => .untied
  | .simd => .simd
  | .threads => .threads
  | .mergeable => .mergeable
  | .cond _ => .cond
  | .numThreads _ => .numThreads
  | .final _ => .final

/-- The clause needs the value that its items have outside the region. -/
def needsOuterValue (k : ClauseKind) : Bool := k.tag != .priv

end ClauseKind

namespace Region

/-- The mode of the last `default` clause. -/
def defaultMode (r : Region) : DefaultMode :=
  r.clauses.foldl (fun mode c => match c.kind with | .default m => m | _ => mode) .unspecified

/-- The argument of the first `collapse` clause. -/
def collapse? (r : Region) : Option Expr :=
  r.clauses.findSome? fun c => match c.kind with | .collapse e => some e | _ => none

/-- The first `ordered` clause; within, its argument. -/
def ordered? (r : Region) : Option (Option Expr) :=
  r.clauses.findSome? fun c => match c.kind with | .ordered e => some e | _ => none

def hasTag (r : Region) (t : ClauseTag) : Bool := r.clauses.any fun c => c.kind.tag = t

/-- The iterations may run in any order. -/
def isOrderConcurrent (r : Region) : Bool := r.hasTag .order

def hasSimdClause (r : Region) : Bool := r.hasTag .simd

/-- The variables that the clauses list, in source order. -/
def items (r : Region) : List ClauseItem := r.clauses.flatMap (·.items)

end Region

end Directives
