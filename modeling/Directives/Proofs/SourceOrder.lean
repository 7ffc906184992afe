import Directives.Tree.Expr
import Directives.Tree.Forest
/-!
The regions of a program in source order: every region comes before the regions inside it, and these
come before what follows it. The order is given by the direct parts of expressions and statements;
arguments of clauses are no parts. The forest that a walk follows stands in this order.
-/

namespace Directives

/-- What an expression or a statement consists of. -/
inductive Part where
  | expr (e : Expr)
  | stmt (s : Stmt)

/-- The direct parts of an expression, in source order: its operands, or the body of a closure. -/
def Expr.parts : Expr → List Part
  | .closure _ body => [.stmt body]
  | e => e.operands.map .expr

/-- The direct parts of a statement, in source order. -/
def Stmt.parts : Stmt → List Part
  | .expr _ e => [.expr e]
  | .decl _ inits => (inits.filterMap (·.init)).map .expr
  | .block _ stmts => stmts.map .stmt
  | .forLoop _ init cond inc body =>
    init.toList.map .stmt ++ cond.toList.map .expr ++ inc.toList.map .expr ++ [.stmt body]
  | .whileLoop _ cond body => [.expr cond, .stmt body]
  | .branch _ cond a b => [.expr cond, .stmt a] ++ b.toList.map .stmt
  | .region _ r => r.body.toList.map .stmt
  | .null _ => []

namespace Part

def parts : Part → List Part
  | .expr e => e.parts
  | .stmt s => s.parts

/-- The region that the part is. -/
def region? : Part → Option Region
  | .stmt (.region _ r) => some r
  | _ => none

end Part

theorem Expr.sizeOf_lt_of_mem_operands {e a : Expr} (h : a ∈ e.operands) : sizeOf a < sizeOf e := by
  have args {l : List Expr} (h : a ∈ l) := List.sizeOf_lt_of_mem h
  cases e <;> simp [operands] at h <;> grind

namespace Part

theorem sizeOf_lt_of_mem_parts {p q : Part} (h : q ∈ p.parts) : sizeOf q < sizeOf p := by
  match p with
  | .expr e =>
    cases e with
    | closure =>
      cases List.mem_singleton.mp h
      simp only [expr.sizeOf_spec, stmt.sizeOf_spec, Expr.closure.sizeOf_spec]
      omega
    | _ =>
      obtain ⟨a, ha, rfl⟩ := List.mem_map.mp h
      have := Expr.sizeOf_lt_of_mem_operands ha
      simp only [expr.sizeOf_spec]
      omega
  | .stmt s =>
    cases s with
    | expr =>
      cases List.mem_singleton.mp h
      simp only [expr.sizeOf_spec, stmt.sizeOf_spec, Stmt.expr.sizeOf_spec]
      omega
    | decl _ inits =>
      obtain ⟨e, he, rfl⟩ := List.mem_map.mp h
      obtain ⟨⟨d, init⟩, hi, rfl⟩ := List.mem_filterMap.mp he
      have := List.sizeOf_lt_of_mem hi
      simp only [expr.sizeOf_spec, stmt.sizeOf_spec, Stmt.decl.sizeOf_spec, DeclInit.mk.sizeOf_spec,
        Option.some.sizeOf_spec] at this ⊢
      omega
    | block _ stmts =>
      obtain ⟨s, hs, rfl⟩ := List.mem_map.mp h
      have := List.sizeOf_lt_of_mem hs
      simp only [stmt.sizeOf_spec, Stmt.block.sizeOf_spec]
      omega
    | forLoop =>
      simp only [parts, Stmt.parts, List.mem_append, List.mem_map, Option.mem_toList,
        List.mem_singleton] at h
      rcases h with ((⟨_, rfl, rfl⟩ | ⟨_, rfl, rfl⟩) | ⟨_, rfl, rfl⟩) | rfl <;>
        simp only [expr.sizeOf_spec, stmt.sizeOf_spec, Stmt.forLoop.sizeOf_spec,
          Option.some.sizeOf_spec] <;>
        omega
    | whileLoop =>
      simp only [parts, Stmt.parts, List.mem_cons, List.not_mem_nil, or_false] at h
      rcases h with rfl | rfl <;>
        simp only [expr.sizeOf_spec, stmt.sizeOf_spec, Stmt.whileLoop.sizeOf_spec] <;> omega
    | branch =>
      simp only [parts, Stmt.parts, List.mem_append, List.mem_cons, List.not_mem_nil, or_false,
        List.mem_map, Option.mem_toList] at h
      rcases h with (rfl | rfl) | ⟨_, rfl, rfl⟩ <;>
        simp only [expr.sizeOf_spec, stmt.sizeOf_spec, Stmt.branch.sizeOf_spec,
          Option.some.sizeOf_spec] <;>
        omega
    | region _ r =>
      obtain ⟨s, hs, rfl⟩ := List.mem_map.mp h
      obtain ⟨_, _, _, _, body, _, _⟩ := r
      cases Option.mem_toList.mp hs
      simp only [stmt.sizeOf_spec, Stmt.region.sizeOf_spec, Region.mk.sizeOf_spec,
        Option.some.sizeOf_spec]
      omega
    | null => cases h

/-- What holds of a part whenever it holds of its parts holds of all parts. -/
theorem partInduction {motive : Part → Prop} (step : ∀ p, (∀ q ∈ p.parts, motive q) → motive p)
    (p : Part) : motive p :=
  step p fun q _ => partInduction step q
termination_by sizeOf p
decreasing_by exact sizeOf_lt_of_mem_parts ‹_›

end Part

/-- The forest of parts that stand one after the other: for every region among them a tree, in which
stands the forest of its own parts, and in the place of any other part the forest of its parts. -/
inductive ForestOf : List Part → List RegionTree → Prop where
  | nil : ForestOf [] []
  | region {p r sole rest ts us} (is : p.region? = some r) (inside : ForestOf p.parts ts)
      (after : ForestOf rest us) : ForestOf (p :: rest) (.node r sole ts :: us)
  | other {p rest ts us} (is : p.region? = none) (inside : ForestOf p.parts ts)
      (after : ForestOf rest us) : ForestOf (p :: rest) (ts ++ us)

namespace ForestOf

variable {p : Part} {ps qs : List Part} {ts us : List RegionTree}

theorem append (h : ForestOf ps ts) (h' : ForestOf qs us) : ForestOf (ps ++ qs) (ts ++ us) := by
  induction h with
  | nil => exact h'
  | region is inside _ _ ih => exact .region is inside ih
  | other is inside _ _ ih =>
    rw [List.append_assoc]
    exact .other is inside ih

theorem cons (h : ForestOf [p] ts) (h' : ForestOf ps us) : ForestOf (p :: ps) (ts ++ us) :=
  h.append h'

theorem single (is : p.region? = none) (h : ForestOf p.parts ts) : ForestOf [p] ts := by
  rw [← List.append_nil ts]
  exact .other is h .nil

end ForestOf

mutual

theorem Expr.forestOf_forest (e : Expr) : ForestOf [.expr e] e.forest := by
  match e with
  | .intLit _ _ | .boolLit _ _ | .ref _ _ => exact .single rfl .nil
  | .binary _ _ a b | .assign _ a b | .compound _ _ a b | .subscript _ a b =>
    exact .single rfl (a.forestOf_forest.append b.forestOf_forest)
  | .unary _ _ a | .cast _ a | .paren _ a => exact .single rfl a.forestOf_forest
  | .conditional _ c a b =>
    exact .single rfl ((c.forestOf_forest.append a.forestOf_forest).append b.forestOf_forest)
  | .construct _ args | .call _ _ args => exact .single rfl (forestOf_forestOfExprs args)
  | .closure _ body => exact .single rfl (body.forestOf_forest false)

theorem forestOf_forestOfExprs (args : List Expr) :
    ForestOf (args.map .expr) (forestOfExprs args) := by
  match args with
  | [] => exact .nil
  | e :: rest => exact e.forestOf_forest.cons (forestOf_forestOfExprs rest)

theorem forestOf_forestOfExpr? (e : Option Expr) :
    ForestOf (e.toList.map .expr) (forestOfExpr? e) := by
  match e with
  | none => exact .nil
  | some e => exact e.forestOf_forest

theorem Stmt.forestOf_forest (s : Stmt) (sole : Bool) : ForestOf [.stmt s] (s.forest sole) := by
  match s with
  | .expr _ e => exact .single rfl e.forestOf_forest
  | .decl _ inits => exact .single rfl (forestOf_forestOfInits inits)
  | .block _ stmts => exact .single rfl (forestOf_forestOfStmts stmts _)
  | .forLoop _ init cond inc body =>
    exact .single rfl ((((forestOf_forestOfStmt? init false).append (forestOf_forestOfExpr? cond)).append
      (forestOf_forestOfExpr? inc)).append (body.forestOf_forest false))
  | .whileLoop _ cond body => exact .single rfl (cond.forestOf_forest.cons (body.forestOf_forest false))
  | .branch _ cond a b =>
    exact .single rfl ((cond.forestOf_forest.cons (a.forestOf_forest false)).append
      (forestOf_forestOfStmt? b false))
  | .region _ ⟨_, _, _, _, body, _, _⟩ => exact .region rfl (forestOf_forestOfStmt? body true) .nil
  | .null _ => exact .single rfl .nil

theorem forestOf_forestOfInits (inits : List DeclInit) :
    ForestOf ((inits.filterMap (·.init)).map .expr) (forestOfInits inits) := by
  match inits with
  | [] => exact .nil
  | ⟨_, none⟩ :: rest => exact forestOf_forestOfInits rest
  | ⟨_, some e⟩ :: rest => exact e.forestOf_forest.cons (forestOf_forestOfInits rest)

theorem forestOf_forestOfStmts (stmts : List Stmt) (sole : Bool) :
    ForestOf (stmts.map .stmt) (forestOfStmts sole stmts) := by
  match stmts with
  | [] => exact .nil
  | s :: rest => exact (s.forestOf_forest sole).cons (forestOf_forestOfStmts rest sole)

theorem forestOf_forestOfStmt? (s : Option Stmt) (sole : Bool) :
    ForestOf (s.toList.map .stmt) (forestOfStmt? sole s) := by
  match s with
  | none => exact .nil
  | some s => exact s.forestOf_forest sole

end

/-- The forest that a walk follows is that of the statements of the program. -/
theorem Program.forestOf_forest (p : Program) : ForestOf (p.body.map .stmt) p.forest :=
  forestOf_forestOfStmts p.body false

mutual

/-- The regions of a tree, each before those inside it. -/
def RegionTree.regions : RegionTree → List Region
  | .node r _ inside => r :: regionsOfForest inside

/-- The regions of trees that stand one after the other. -/
def regionsOfForest : List RegionTree → List Region
  | [] => []
  | t :: rest => t.regions ++ regionsOfForest rest

end

/-- The regions of a program in source order. -/
def Program.regions (p : Program) : List Region := regionsOfForest p.forest

end Directives
