import Directives.Tree
/-!
The regions of a program as a forest: under each region stand the regions directly inside it, in
source order. Regions inside headers, initializers, operands and bodies of closures count; arguments
of clauses do not.
-/

namespace Directives

/-- A region and the regions directly inside it; `sole` says that it is the only statement of the
region around it. -/
inductive RegionTree where
  | node (region : Region) (sole : Bool) (children : List RegionTree)

namespace RegionTree

def region : RegionTree → Region
  | .node r _ _ => r

def sole : RegionTree → Bool
  | .node _ s _ => s

def children : RegionTree → List RegionTree
  | .node _ _ c => c

end RegionTree

mutual

/-- The regions inside an expression. -/
def Expr.forest : Expr → List RegionTree
  | .intLit _ _ | .boolLit _ _ | .ref _ _ => []
  | .binary _ _ a b | .assign _ a b | .compound _ _ a b | .subscript _ a b => a.forest ++ b.forest
  | .unary _ _ a | .cast _ a | .paren _ a => a.forest
  | .conditional _ c a b => c.forest ++ a.forest ++ b.forest
  | .construct _ args | .call _ _ args => forestOfExprs args
  | .closure _ body => body.forest false

/-- The regions inside a list of expressions. -/
def forestOfExprs : List Expr → List RegionTree
  | [] => []
  | e :: rest => e.forest ++ forestOfExprs rest

/-- The regions inside an expression that may be absent. -/
def forestOfExpr? : Option Expr → List RegionTree
  | none => []
  | some e => e.forest

/-- The regions inside a statement; `sole` says that the statement is all there is in the region
around it, which blocks of one statement hand on. -/
def Stmt.forest (sole : Bool) : Stmt → List RegionTree
  | .expr _ e => e.forest
  | .decl _ inits => forestOfInits inits
  | .block _ stmts => forestOfStmts (sole && stmts.length = 1) stmts
  | .forLoop _ init cond inc body =>
    forestOfStmt? false init ++ forestOfExpr? cond ++ forestOfExpr? inc ++ body.forest false
  | .whileLoop _ cond body => cond.forest ++ body.forest false
  | .branch _ cond a b => cond.forest ++ a.forest false ++ forestOfStmt? false b
  | .region _ r => [r.tree sole]
  | .null _ => []

/-- The regions inside the initializers of a declaration statement. -/
def forestOfInits : List DeclInit → List RegionTree
  | [] => []
  | { init, .. } :: rest => forestOfExpr? init ++ forestOfInits rest

/-- The regions inside a list of statements. -/
def forestOfStmts (sole : Bool) : List Stmt → List RegionTree
  | [] => []
  | s :: rest => s.forest sole ++ forestOfStmts sole rest

/-- The regions inside a statement that may be absent. -/
def forestOfStmt? (sole : Bool) : Option Stmt → List RegionTree
  | none => []
  | some s => s.forest sole

/-- The tree of a region. -/
def Region.tree (sole : Bool) : Region → RegionTree
  | ⟨kind, name, cancelTarget, clauses, body, location, dependent⟩ =>
    .node ⟨kind, name, cancelTarget, clauses, body, location, dependent⟩ sole
      (forestOfStmt? true body)

end

/-- The regions of a program. -/
def Program.forest (p : Program) : List RegionTree := forestOfStmts false p.body

end Directives
