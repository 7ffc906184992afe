import Directives.Exchange.Decl
import Directives.Tree
/-!
Trees and programs as JSON values.
-/

namespace Directives

open Json

namespace ClauseItem

def toJson (i : ClauseItem) : Json :=
  .obj [("decl", i.decl.toJson), ("location", i.location.toJson), ("section", .bool i.ofSection)]

def ofJson? : Reader ClauseItem := fun j => do
  let r ← record? 3 j
  return {
    decl := ← r.required 0 "decl" DeclId.ofJson?
    location := ← r.required 1 "location" Location.ofJson?
    ofSection := ← r.defaulted 2 "section" .bool false }

end ClauseItem

/-- An expression with its form and what every expression carries. -/
def ExprInfo.around (i : ExprInfo) (form : Json) : Json :=
  .obj [
    ("kind", form),
    ("ty", i.ty.toJson),
    ("location", i.location.toJson),
    ("dependent", .bool i.dependent)]

/-- A statement with its form and its position. -/
def Location.around (l : Location) (form : Json) : Json :=
  .obj [("kind", form), ("location", l.toJson)]

mutual

def Expr.toJson : Expr → Json
  | .intLit i v => i.around (tagged "IntLiteral" (.int v))
  | .boolLit i b => i.around (tagged "BoolLiteral" (.bool b))
  | .ref i d => i.around (tagged "DeclRef" d.toJson)
  | .binary i op a b =>
    i.around (tagged "Binary" (.obj [("op", ofMember op), ("lhs", a.toJson), ("rhs", b.toJson)]))
  | .unary i op a => i.around (tagged "Unary" (.obj [("op", ofMember op), ("operand", a.toJson)]))
  | .assign i a b => i.around (tagged "Assign" (.obj [("lhs", a.toJson), ("rhs", b.toJson)]))
  | .compound i op a b =>
    i.around (tagged "CompoundAssign"
      (.obj [("op", ofMember op), ("lhs", a.toJson), ("rhs", b.toJson)]))
  | .conditional i c a b =>
    i.around (tagged "Conditional"
      (.obj [("cond", c.toJson), ("then_expr", a.toJson), ("else_expr", b.toJson)]))
  | .cast i a => i.around (tagged "Cast" a.toJson)
  | .paren i a => i.around (tagged "Paren" a.toJson)
  | .construct i args => i.around (tagged "Construct" (.arr (exprsToJson args)))
  | .subscript i a b =>
    i.around (tagged "Subscript" (.obj [("base", a.toJson), ("index", b.toJson)]))
  | .call i callee args =>
    i.around (tagged "Call" (.obj [("callee", .str callee), ("args", .arr (exprsToJson args))]))
  | .closure i body => i.around (tagged "Closure" (.obj [("body", body.toJson)]))

/-- The values of a list of expressions. -/
def exprsToJson : List Expr → List Json
  | [] => []
  | e :: rest => e.toJson :: exprsToJson rest

/-- The value of an expression that may be absent. -/
def exprToJson? : Option Expr → Json
  | none => .null
  | some e => e.toJson

def Stmt.toJson : Stmt → Json
  | .expr l e => l.around (tagged "Expr" e.toJson)
  | .decl l inits => l.around (tagged "Decl" (.arr (initsToJson inits)))
  | .block l stmts => l.around (tagged "Compound" (.arr (stmtsToJson stmts)))
  | .forLoop l init cond inc body =>
    l.around (tagged "For"
      (.obj [
        ("init", stmtToJson? init),
        ("cond", exprToJson? cond),
        ("inc", exprToJson? inc),
        ("body", body.toJson)]))
  | .whileLoop l cond body =>
    l.around (tagged "While" (.obj [("cond", cond.toJson), ("body", body.toJson)]))
  | .branch l cond a b =>
    l.around (tagged "If"
      (.obj [("cond", cond.toJson), ("then_branch", a.toJson), ("else_branch", stmtToJson? b)]))
  | .region l r => l.around (tagged "Region" r.toJson)
  | .null l => l.around (.str "Null")

/-- The values of the initializers of a declaration statement. -/
def initsToJson : List DeclInit → List Json
  | [] => []
  | { decl, init } :: rest =>
    .obj [("decl", decl.toJson), ("init", exprToJson? init)] :: initsToJson rest

/-- The values of a list of statements. -/
def stmtsToJson : List Stmt → List Json
  | [] => []
  | s :: rest => s.toJson :: stmtsToJson rest

/-- The value of a statement that may be absent. -/
def stmtToJson? : Option Stmt → Json
  | none => .null
  | some s => s.toJson

def Region.toJson : Region → Json
  | { kind, name, cancelTarget, clauses, body, location, dependent } =>
    .obj [
      ("kind", ofMember kind),
      ("name", ofOption .str name),
      ("cancel_target", ofOption ofMember cancelTarget),
      ("clauses", .arr (clausesToJson clauses)),
      ("body", stmtToJson? body),
      ("location", location.toJson),
      ("dependent", .bool dependent)]

/-- The values of a list of clauses. -/
def clausesToJson : List Clause → List Json
  | [] => []
  | c :: rest => c.toJson :: clausesToJson rest

def Clause.toJson : Clause → Json
  | { kind, items, location } =>
    .obj [
      ("kind", kind.toJson),
      ("items", ofList ClauseItem.toJson items),
      ("location", location.toJson)]

def ClauseKind.toJson : ClauseKind → Json
  | .priv => .str "Private"
  | .firstprivate => .str "Firstprivate"
  | .lastprivate conditional =>
    tagged "Lastprivate" (.obj [("conditional", .bool conditional)])
  | .shared => .str "Shared"
  | .reduction op => tagged "Reduction" (ofMember op)
  | .taskReduction op => tagged "TaskReduction" (ofMember op)
  | .inReduction op => tagged "InReduction" (ofMember op)
  | .linear step => tagged "Linear" (.obj [("step", exprToJson? step)])
  | .copyin => .str "Copyin"
  | .copyprivate => .str "Copyprivate"
  | .map type => tagged "Map" (ofMember type)
  | .isDevicePtr => .str "IsDevicePtr"
  | .default mode => tagged "Default" (ofMember mode)
  | .defaultmap behavior category =>
    tagged "Defaultmap"
      (.obj [("behavior", ofMember behavior), ("category", ofOption ofMember category)])
  | .collapse e => tagged "Collapse" e.toJson
  | .ordered e => tagged "Ordered" (exprToJson? e)
  | .order kind => tagged "Order" (ofMember kind)
  | .nowait => .str "Nowait"
  | .untied => .str "Untied"
  | .simd => .str "Simd"
  | .threads => .str "Threads"
  | .mergeable => .str "Mergeable"
  | .cond e => tagged "If" e.toJson
  | .numThreads e => tagged "NumThreads" e.toJson
  | .final e => tagged "Final" e.toJson

end

namespace Program

def toJson (p : Program) : Json :=
  .obj [("decls", p.decls.toJson), ("body", ofList Stmt.toJson p.body)]

end Program

end Directives
