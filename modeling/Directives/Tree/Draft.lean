import Directives.Tree.Expr
/-!
Drafts: trees made by hand. A draft hands out positions line by line, so that every part of a tree
that needs one has its own.
-/

namespace Directives

/-- The declarations made so far, and the last line that was used. -/
structure Draft where
  decls : DeclTable := {}
  line : Nat := 0
  deriving DecidableEq, Repr, Inhabited

/-- Making a part of a draft. -/
abbrev Drafting (α : Type) := StateM Draft α

namespace Draft

/-- The first column of the next unused line. -/
def locate : Drafting Location := fun d => (⟨d.line + 1, 1⟩, { d with line := d.line + 1 })

/-- Declares a variable. -/
def declare (name : String) (ty : Ty) (storage : StorageClass) (scope : DeclScope) :
    Drafting DeclId := do
  let location ← locate
  modifyGet fun d =>
    let (id, decls) := d.decls.declare name ty storage scope location
    (id, { d with decls })

/-- A variable of a function. -/
def functionLocal (name : String) (ty : Ty) : Drafting DeclId := declare name ty .automatic .function

/-- A variable of a block. -/
def blockLocal (name : String) (ty : Ty) : Drafting DeclId := declare name ty .automatic .block

/-- A variable of file scope. -/
def global (name : String) (ty : Ty) : Drafting DeclId := declare name ty .static .file

/-- A variable of a block that lives as long as the program. -/
def staticLocal (name : String) (ty : Ty) : Drafting DeclId := declare name ty .static .block

/-- A data member. -/
def member (name : String) (ty : Ty) : Drafting DeclId := declare name ty .automatic .member

/-- Changes a declaration. -/
def amend (id : DeclId) (change : VarDecl → VarDecl) : Drafting Unit :=
  modify fun d => { d with decls := d.decls.modify id change }

/-- A variable of file scope, of which each thread has its own. -/
def threadprivate (name : String) (ty : Ty) : Drafting DeclId := do
  let id ← global name ty
  amend id fun d => { d with threadprivate := true }
  return id

/-- A variable of file scope that lives on the device too. -/
def declareTarget (name : String) (ty : Ty) : Drafting DeclId := do
  let id ← global name ty
  amend id fun d => { d with declareTarget := true }
  return id

/-- A placeholder for a variable. -/
def capture (of : DeclId) (d : Draft) : Except Error (DeclId × Draft) :=
  (d.decls.capture of).map fun (id, decls) => (id, { d with decls })

/-- A reference to a variable, of the type that it is declared with. -/
def var (id : DeclId) : Drafting Expr := do
  let ty := (((← get).decls.get? id).map (·.ty)).getD (.void false)
  return .ofDecl id ty (← locate)

/-- A literal of a type. -/
def typedInt (value : Int) (ty : Ty) : Drafting Expr := do
  return .ofInt value ty (← locate)

/-- A literal of 32 bits. -/
def int (value : Int) : Drafting Expr := typedInt value .int32

/-- The assignment of a value to a variable. -/
def assign (id : DeclId) (value : Expr) : Drafting Expr := do
  return .mkAssign (← var id) value

/-- A compound assignment to a variable. -/
def compound (op : BinaryOp) (id : DeclId) (value : Expr) : Drafting Expr := do
  return .mkCompound op (← var id) value

/-- An operator applied to a variable. -/
def unary (op : UnaryOp) (id : DeclId) : Drafting Expr := do
  return .mkUnary op (← var id)

/-- The call `use(a, b, ...)`, which reads every listed variable. -/
def useExpr (ids : List DeclId) : Drafting Expr := do
  let args ← ids.mapM var
  return .call { ty := .void false, location := ← locate } "use" args

/-- A function without a name. -/
def closure (body : Stmt) : Drafting Expr := do
  return .closure { ty := .void false, location := ← locate } body

/-- An expression as a statement. -/
def exprStmt (e : Expr) : Drafting Stmt := do
  return .expr (← locate) e

/-- A statement that reads every listed variable. -/
def useVars (ids : List DeclId) : Drafting Stmt := do
  exprStmt (← useExpr ids)

/-- A declaration statement. -/
def declStmt (decl : DeclId) (init : Option Expr) : Drafting Stmt := do
  return .decl (← locate) [{ decl, init }]

/-- A block. -/
def block (stmts : List Stmt) : Drafting Stmt := do
  return .block (← locate) stmts

/-- A loop whose header has every part. -/
def forLoop (init : Stmt) (cond inc : Expr) (body : Stmt) : Drafting Stmt := do
  return .forLoop (← locate) (some init) (some cond) (some inc) body

/-- The loop `for (counter = lower; counter < upper; counter++)`. -/
def countedLoop (counter : DeclId) (lower upper : Expr) (body : Stmt) : Drafting Stmt := do
  let init ← exprStmt (← assign counter lower)
  let cond := Expr.mkBinary .lt (← var counter) upper
  let inc ← unary .postInc counter
  forLoop init cond inc body

/-- A region, filled in from what has only a kind and a position. -/
def region (kind : DirectiveKind) (fill : Region → Region) : Drafting Stmt := do
  let r := fill { kind, location := ← locate }
  return .region r.location r

/-- The program that is made from nothing. -/
def program (make : Drafting (List Stmt)) : Program :=
  let (body, d) := make.run {}
  { decls := d.decls, body }

end Draft

namespace Region

/-- The region with one more clause. -/
def withClause (r : Region) (c : Clause) : Region := { r with clauses := r.clauses ++ [c] }

/-- The region with one more clause, at its own position, that lists variables. -/
def withList (r : Region) (kind : ClauseKind) (ids : List DeclId) : Region :=
  r.withClause {
    kind
    items := ids.map fun decl => { decl, location := r.location }
    location := r.location }

/-- The region with one more clause that lists nothing. -/
def withMark (r : Region) (kind : ClauseKind) : Region := r.withList kind []

/-- A literal at the position of the region, for its clauses. -/
def literal (r : Region) (value : Int) : Expr := .ofInt value .int32 r.location

end Region

end Directives
