import Directives.Tree.Expr
/-!
Variables in a tree: every reference with its position, and the variables that statements declare.
-/

namespace Directives

/-- A variable and where it occurs. -/
abbrev Occurrence := DeclId × Location

mutual

/-- The references in an expression, in source order, bodies of closures included. -/
def Expr.refs : Expr → List Occurrence
  | .intLit _ _ | .boolLit _ _ => []
  | .ref i d => [(d, i.location)]
  | .binary _ _ a b | .assign _ a b | .compound _ _ a b | .subscript _ a b => a.refs ++ b.refs
  | .unary _ _ a | .cast _ a | .paren _ a => a.refs
  | .conditional _ c a b => c.refs ++ a.refs ++ b.refs
  | .construct _ args | .call _ _ args => refsOfExprs args
  | .closure _ body => body.refs

/-- The references in a list of expressions. -/
def refsOfExprs : List Expr → List Occurrence
  | [] => []
  | e :: rest => e.refs ++ refsOfExprs rest

/-- The references in an expression that may be absent. -/
def refsOfExpr? : Option Expr → List Occurrence
  | none => []
  | some e => e.refs

/-- The references in a statement, in source order. Of a region these are the listed variables
and the references in its body; arguments of clauses do not count. -/
def Stmt.refs : Stmt → List Occurrence
  | .expr _ e => e.refs
  | .decl _ inits => refsOfInits inits
  | .block _ stmts => refsOfStmts stmts
  | .forLoop _ init cond inc body =>
    refsOfStmt? init ++ refsOfExpr? cond ++ refsOfExpr? inc ++ body.refs
  | .whileLoop _ cond body => cond.refs ++ body.refs
  | .branch _ cond a b => cond.refs ++ a.refs ++ refsOfStmt? b
  | .region _ { clauses, body, .. } =>
    (clauses.flatMap (·.items)).map (fun i => (i.decl, i.location)) ++ refsOfStmt? body
  | .null _ => []

/-- The references in the initializers of a declaration statement. -/
def refsOfInits : List DeclInit → List Occurrence
  | [] => []
  | { init, .. } :: rest => refsOfExpr? init ++ refsOfInits rest

/-- The references in a list of statements. -/
def refsOfStmts : List Stmt → List Occurrence
  | [] => []
  | s :: rest => s.refs ++ refsOfStmts rest

/-- The references in a statement that may be absent. -/
def refsOfStmt? : Option Stmt → List Occurrence
  | none => []
  | some s => s.refs

end

/-- The expression refers to the variable. -/
def Expr.references (e : Expr) (d : DeclId) : Bool :=
  e.refs.any fun o => o.1 = d

mutual

/-- The variables that declaration statements inside a statement declare, in source order. Bodies
of regions count; expressions, and so bodies of closures, do not. -/
def Stmt.declared : Stmt → List DeclId
  | .decl _ inits => inits.map (·.decl)
  | .block _ stmts => declaredInStmts stmts
  | .forLoop _ init _ _ body => declaredInStmt? init ++ body.declared
  | .whileLoop _ _ body => body.declared
  | .branch _ _ a b => a.declared ++ declaredInStmt? b
  | .region _ { body, .. } => declaredInStmt? body
  | .expr _ _ | .null _ => []

/-- The variables declared in a list of statements. -/
def declaredInStmts : List Stmt → List DeclId
  | [] => []
  | s :: rest => s.declared ++ declaredInStmts rest

/-- The variables declared in a statement that may be absent. -/
def declaredInStmt? : Option Stmt → List DeclId
  | none => []
  | some s => s.declared

end

/-- What stands inside blocks that hold exactly one statement. -/
def Stmt.single : Stmt → Stmt
  | .block _ [s] => s.single
  | s => s

/-- The region that a statement is, behind blocks of one statement. -/
def Stmt.region? (s : Stmt) : Option Region :=
  match s.single with
  | .region _ r => some r
  | _ => none

end Directives
