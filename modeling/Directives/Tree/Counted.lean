import Directives.Tree.References
/-!
The references in the body of a region that reach the region itself. A nested region that lists a
variable in a `private` clause has a copy of its own, so references to it in that region's body do
not count. Its other clauses refer to the variables that they list, and so do the clause arguments
that are evaluated where the nested region stands.
-/

namespace Directives

/-- The occurrence as one of the variable it stands for, unless that variable is `hidden`. -/
def countOccurrence (canon : DeclId → DeclId) (hidden : List DeclId) (o : Occurrence) :
    List Occurrence :=
  if hidden.contains (canon o.1) then [] else [(canon o.1, o.2)]

/-- The items of a clause that count where the region stands. -/
def countItems (canon : DeclId → DeclId) (hidden : List DeclId) (tag : ClauseTag)
    (items : List ClauseItem) : List Occurrence :=
  if tag = .priv then []
  else items.flatMap fun i => countOccurrence canon hidden (i.decl, i.location)

/-- The variables that `private` clauses list. -/
def privateItems (canon : DeclId → DeclId) (clauses : List Clause) : List DeclId :=
  clauses.flatMap fun c => if c.kind.tag = .priv then c.items.map fun i => canon i.decl else []

mutual

/-- The counted references in an expression, in source order. -/
def Expr.counted (canon : DeclId → DeclId) (hidden : List DeclId) : Expr → List Occurrence
  | .intLit _ _ | .boolLit _ _ => []
  | .ref i d => countOccurrence canon hidden (d, i.location)
  | .binary _ _ a b | .assign _ a b | .compound _ _ a b | .subscript _ a b =>
    a.counted canon hidden ++ b.counted canon hidden
  | .unary _ _ a | .cast _ a | .paren _ a => a.counted canon hidden
  | .conditional _ c a b =>
    c.counted canon hidden ++ a.counted canon hidden ++ b.counted canon hidden
  | .construct _ args | .call _ _ args => countedInExprs canon hidden args
  | .closure _ body => body.counted canon hidden

/-- The counted references in a list of expressions. -/
def countedInExprs (canon : DeclId → DeclId) (hidden : List DeclId) : List Expr → List Occurrence
  | [] => []
  | e :: rest => e.counted canon hidden ++ countedInExprs canon hidden rest

/-- The counted references in an expression that may be absent. -/
def countedInExpr? (canon : DeclId → DeclId) (hidden : List DeclId) :
    Option Expr → List Occurrence
  | none => []
  | some e => e.counted canon hidden

/-- The counted references in a statement, in source order. -/
def Stmt.counted (canon : DeclId → DeclId) (hidden : List DeclId) : Stmt → List Occurrence
  | .expr _ e => e.counted canon hidden
  | .decl _ inits => countedInInits canon hidden inits
  | .block _ stmts => countedInStmts canon hidden stmts
  | .forLoop _ init cond inc body =>
    countedInStmt? canon hidden init ++ countedInExpr? canon hidden cond
      ++ countedInExpr? canon hidden inc ++ body.counted canon hidden
  | .whileLoop _ cond body => cond.counted canon hidden ++ body.counted canon hidden
  | .branch _ cond a b =>
    cond.counted canon hidden ++ a.counted canon hidden ++ countedInStmt? canon hidden b
  | .region _ { clauses, body, .. } =>
    countedInClauses canon hidden clauses
      ++ countedInStmt? canon (hidden ++ privateItems canon clauses) body
  | .null _ => []

/-- The counted references in the initializers of a declaration statement. -/
def countedInInits (canon : DeclId → DeclId) (hidden : List DeclId) :
    List DeclInit → List Occurrence
  | [] => []
  | { init, .. } :: rest => countedInExpr? canon hidden init ++ countedInInits canon hidden rest

/-- The counted references in a list of statements. -/
def countedInStmts (canon : DeclId → DeclId) (hidden : List DeclId) : List Stmt → List Occurrence
  | [] => []
  | s :: rest => s.counted canon hidden ++ countedInStmts canon hidden rest

/-- The counted references in a statement that may be absent. -/
def countedInStmt? (canon : DeclId → DeclId) (hidden : List DeclId) :
    Option Stmt → List Occurrence
  | none => []
  | some s => s.counted canon hidden

/-- The counted references in the clauses of a nested region. -/
def countedInClauses (canon : DeclId → DeclId) (hidden : List DeclId) :
    List Clause → List Occurrence
  | [] => []
  | { kind, items, .. } :: rest =>
    countItems canon hidden kind.tag items ++ countedInArgument canon hidden kind
      ++ countedInClauses canon hidden rest

/-- The counted references in a clause argument that is evaluated where the region stands. -/
def countedInArgument (canon : DeclId → DeclId) (hidden : List DeclId) :
    ClauseKind → List Occurrence
  | .cond e | .numThreads e | .final e => e.counted canon hidden
  | _ => []

end

/-- The occurrences of variables that did not occur before, where `seen` occurred already. -/
def firstOccurrences (seen : List DeclId) : List Occurrence → List Occurrence
  | [] => []
  | o :: rest =>
    if seen.contains o.1 then firstOccurrences seen rest
    else o :: firstOccurrences (o.1 :: seen) rest

/-- The variables that the body of a region refers to, each where it is first referred to. -/
def referencedVariables (decls : DeclTable) (body : Stmt) : List Occurrence :=
  firstOccurrences [] (body.counted decls.canonical [])

end Directives
