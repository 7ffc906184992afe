import Directives.Exchange.Tree
/-!
Reading trees and programs out of JSON values. One layer of a tree is read with readers for what is
inside it; as many layers are tied together as the value is high.
-/

namespace Directives

open Json

/-- Readers of expressions and statements. -/
structure TreeReaders where
  expr : Reader Expr
  stmt : Reader Stmt

namespace TreeReaders

/-- Two operands and an operator. -/
def operation (r : TreeReaders) : Reader (BinaryOp × Expr × Expr) := fun j => do
  let fields ← record? 3 j
  return (← fields.required 0 "op" .member, ← fields.required 1 "lhs" r.expr,
    ← fields.required 2 "rhs" r.expr)

/-- Two operands with their names. -/
def pair (r : TreeReaders) (first second : String) : Reader (Expr × Expr) := fun j => do
  let fields ← record? 2 j
  return (← fields.required 0 first r.expr, ← fields.required 1 second r.expr)

/-- The form of an expression. -/
def exprForm (r : TreeReaders) (i : ExprInfo) : Reader Expr := fun j => do
  match ← alternative? j with
  | ("IntLiteral", some j) => return .intLit i (← Reader.wide j)
  | ("BoolLiteral", some j) => return .boolLit i (← Reader.bool j)
  | ("DeclRef", some j) => return .ref i (← DeclId.ofJson? j)
  | ("Binary", some j) => (r.operation j).map fun (op, a, b) => .binary i op a b
  | ("Unary", some j) =>
    let fields ← record? 2 j
    return .unary i (← fields.required 0 "op" .member) (← fields.required 1 "operand" r.expr)
  | ("Assign", some j) => (r.pair "lhs" "rhs" j).map fun (a, b) => .assign i a b
  | ("CompoundAssign", some j) => (r.operation j).map fun (op, a, b) => .compound i op a b
  | ("Conditional", some j) =>
    let fields ← record? 3 j
    return .conditional i (← fields.required 0 "cond" r.expr)
      (← fields.required 1 "then_expr" r.expr) (← fields.required 2 "else_expr" r.expr)
  | ("Cast", some j) => return .cast i (← r.expr j)
  | ("Paren", some j) => return .paren i (← r.expr j)
  | ("Construct", some j) => return .construct i (← Reader.list r.expr j)
  | ("Subscript", some j) => (r.pair "base" "index" j).map fun (a, b) => .subscript i a b
  | ("Call", some j) =>
    let fields ← record? 2 j
    return .call i (← fields.required 0 "callee" .string)
      (← fields.required 1 "args" (.list r.expr))
  | ("Closure", some j) => return .closure i (← (← record? 1 j).required 0 "body" r.stmt)
  | _ => none

/-- An expression. -/
def exprLayer (r : TreeReaders) : Reader Expr := fun j => do
  let fields ← record? 4 j
  let info : ExprInfo := {
    ty := ← fields.required 1 "ty" Ty.ofJson?
    location := ← fields.required 2 "location" Location.ofJson?
    dependent := ← fields.defaulted 3 "dependent" .bool false }
  fields.required 0 "kind" (r.exprForm info)

/-- A declared variable with its initializer. -/
def init (r : TreeReaders) : Reader DeclInit := fun j => do
  let fields ← record? 2 j
  return {
    decl := ← fields.required 0 "decl" DeclId.ofJson?
    init := ← fields.optional 1 "init" r.expr }

/-- What a clause says. -/
def clauseKind (r : TreeReaders) : Reader ClauseKind := fun j => do
  match ← alternative? j with
  | ("Lastprivate", some j) =>
    return .lastprivate (← (← record? 1 j).required 0 "conditional" .bool)
  | ("Reduction", some j) => return .reduction (← Reader.member j)
  | ("TaskReduction", some j) => return .taskReduction (← Reader.member j)
  | ("InReduction", some j) => return .inReduction (← Reader.member j)
  | ("Linear", some j) => return .linear (← (← record? 1 j).optional 0 "step" r.expr)
  | ("Map", some j) => return .map (← Reader.member j)
  | ("Default", some j) => return .default (← Reader.member j)
  | ("Defaultmap", some j) =>
    let fields ← record? 2 j
    return .defaultmap (← fields.required 0 "behavior" .member)
      (← fields.optional 1 "category" .member)
  | ("Collapse", some j) => return .collapse (← r.expr j)
  | ("Ordered", some j) => return .ordered (← Reader.option r.expr j)
  | ("Order", some j) => return .order (← Reader.member j)
  | ("If", some j) => return .cond (← r.expr j)
  | ("NumThreads", some j) => return .numThreads (← r.expr j)
  | ("Final", some j) => return .final (← r.expr j)
  | (name, contents) => if isBare contents then plain? name else none
where
  /-- The clauses that have no arguments. -/
  plain? : String → Option ClauseKind
    | "Private" => some .priv
    | "Firstprivate" => some .firstprivate
    | "Shared" => some .shared
    | "Copyin" => some .copyin
    | "Copyprivate" => some .copyprivate
    | "IsDevicePtr" => some .isDevicePtr
    | "Nowait" => some .nowait
    | "Untied" => some .untied
    | "Simd" => some .simd
    | "Threads" => some .threads
    | "Mergeable" => some .mergeable
    | _ => none

/-- A clause. -/
def clause (r : TreeReaders) : Reader Clause := fun j => do
  let fields ← record? 3 j
  return {
    kind := ← fields.required 0 "kind" r.clauseKind
    items := ← fields.required 1 "items" (.list ClauseItem.ofJson?)
    location := ← fields.required 2 "location" Location.ofJson? }

/-- A region. -/
def region (r : TreeReaders) : Reader Region := fun j => do
  let fields ← record? 7 j
  return {
    kind := ← fields.required 0 "kind" .member
    name := ← fields.defaulted 1 "name" (.option .string) none
    cancelTarget := ← fields.defaulted 2 "cancel_target" (.option .member) none
    clauses := ← fields.defaulted 3 "clauses" (.list r.clause) []
    body := ← fields.defaulted 4 "body" (.option r.stmt) none
    location := ← fields.required 5 "location" Location.ofJson?
    dependent := ← fields.defaulted 6 "dependent" .bool false }

/-- The form of a statement. -/
def stmtForm (r : TreeReaders) (l : Location) : Reader Stmt := fun j => do
  match ← alternative? j with
  | ("Expr", some j) => return .expr l (← r.expr j)
  | ("Decl", some j) => return .decl l (← Reader.list r.init j)
  | ("Compound", some j) => return .block l (← Reader.list r.stmt j)
  | ("For", some j) =>
    let fields ← record? 4 j
    return .forLoop l (← fields.optional 0 "init" r.stmt) (← fields.optional 1 "cond" r.expr)
      (← fields.optional 2 "inc" r.expr) (← fields.required 3 "body" r.stmt)
  | ("While", some j) =>
    let fields ← record? 2 j
    return .whileLoop l (← fields.required 0 "cond" r.expr) (← fields.required 1 "body" r.stmt)
  | ("If", some j) =>
    let fields ← record? 3 j
    return .branch l (← fields.required 0 "cond" r.expr)
      (← fields.required 1 "then_branch" r.stmt) (← fields.optional 2 "else_branch" r.stmt)
  | ("Region", some j) => return .region l (← r.region j)
  | ("Null", contents) => if isBare contents then some (.null l) else none
  | _ => none

/-- A statement. -/
def stmtLayer (r : TreeReaders) : Reader Stmt := fun j => do
  let fields ← record? 2 j
  fields.required 0 "kind" (r.stmtForm (← fields.required 1 "location" Location.ofJson?))

/-- Readers of trees with at most `n` layers. -/
def within : Nat → TreeReaders
  | 0 => ⟨fun _ => none, fun _ => none⟩
  | n + 1 => ⟨(within n).exprLayer, (within n).stmtLayer⟩

/-- Readers of trees that may have every layer of the value. -/
def readingAll (j : Json) : TreeReaders := within (j.height + 1)

end TreeReaders

def Expr.ofJson? : Reader Expr := fun j => (TreeReaders.readingAll j).expr j

def Stmt.ofJson? : Reader Stmt := fun j => (TreeReaders.readingAll j).stmt j

def Region.ofJson? : Reader Region := fun j => (TreeReaders.readingAll j).region j

def Clause.ofJson? : Reader Clause := fun j => (TreeReaders.readingAll j).clause j

namespace Program

def ofJson? : Reader Program := fun j => do
  let r ← record? 2 j
  return {
    decls := ← r.required 0 "decls" DeclTable.ofJson?
    body := ← r.required 1 "body" (.list Stmt.ofJson?) }

end Program

end Directives
