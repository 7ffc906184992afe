import Directives.Tree.Forest
import Directives.Tree.References
/-!
The marks in a forest: a tree is marked as the only statement of the region around it only where the
body of that region is the region of the tree, alone or in blocks of one statement.
-/

namespace Directives

/-- The body of the region is no more than the region `inner`, in blocks of one statement at most. -/
def Region.HasSole (r inner : Region) : Prop :=
  ∃ body location, r.body = some body ∧ body.single = .region location inner

/-- Each tree is that of its region, and the property holds of those that are marked as the only
statement of the region around them. -/
def Marks (property : Region → Prop) (ts : List RegionTree) : Prop :=
  ∀ t ∈ ts, t = t.region.tree t.sole ∧ (t.sole = true → property t.region)

section
variable {property : Region → Prop} {ts us : List RegionTree}

theorem marks_nil : Marks property [] := by
  intro t ht
  cases ht

theorem Marks.append (h : Marks property ts) (h' : Marks property us) : Marks property (ts ++ us) :=
  List.forall_mem_append.mpr ⟨h, h'⟩

theorem Marks.mono {property' : Region → Prop} (h : Marks property ts)
    (weaker : ∀ r, property r → property' r) : Marks property' ts := by
  intro t ht
  obtain ⟨tree, marked⟩ := h t ht
  exact ⟨tree, fun sole => weaker _ (marked sole)⟩

theorem marks_tree (r : Region) (sole : Bool) (marked : sole = true → property r) :
    Marks property [r.tree sole] := by
  cases r
  exact List.forall_mem_singleton.mpr ⟨rfl, marked⟩

mutual

theorem Expr.marks_forest (e : Expr) : Marks property e.forest := by
  match e with
  | .intLit _ _ | .boolLit _ _ | .ref _ _ => exact marks_nil
  | .binary _ _ a b | .assign _ a b | .compound _ _ a b | .subscript _ a b =>
    exact a.marks_forest.append b.marks_forest
  | .unary _ _ a | .cast _ a | .paren _ a => exact a.marks_forest
  | .conditional _ c a b => exact (c.marks_forest.append a.marks_forest).append b.marks_forest
  | .construct _ args | .call _ _ args => exact marks_forestOfExprs args
  | .closure _ body => exact body.marks_forest false nofun

theorem marks_forestOfExprs (args : List Expr) : Marks property (forestOfExprs args) := by
  match args with
  | [] => exact marks_nil
  | e :: rest => exact e.marks_forest.append (marks_forestOfExprs rest)

theorem marks_forestOfExpr? (e : Option Expr) : Marks property (forestOfExpr? e) := by
  match e with
  | none => exact marks_nil
  | some e => exact e.marks_forest

theorem Stmt.marks_forest (s : Stmt) (sole : Bool)
    (marked : sole = true → ∀ l r, s.single = .region l r → property r) :
    Marks property (s.forest sole) := by
  match s with
  | .expr _ e => exact e.marks_forest
  | .decl _ inits => exact marks_forestOfInits inits
  | .block _ stmts =>
    refine marks_forestOfStmts stmts _ fun alone s hs l r is => ?_
    -- The mark is handed on to a statement that is alone in its block.
    obtain ⟨sole, one⟩ := Bool.and_eq_true_iff.mp alone
    obtain ⟨only, rfl⟩ := List.length_eq_one_iff.mp (of_decide_eq_true one)
    cases List.mem_singleton.mp hs
    exact marked sole l r is
  | .forLoop _ init cond inc body =>
    exact (((marks_forestOfStmt? init false nofun).append (marks_forestOfExpr? cond)).append
      (marks_forestOfExpr? inc)).append (body.marks_forest false nofun)
  | .whileLoop _ cond body => exact cond.marks_forest.append (body.marks_forest false nofun)
  | .branch _ cond a b =>
    exact (cond.marks_forest.append (a.marks_forest false nofun)).append
      (marks_forestOfStmt? b false nofun)
  | .region l r => exact marks_tree r sole fun h => marked h l r rfl
  | .null _ => exact marks_nil

theorem marks_forestOfInits (inits : List DeclInit) : Marks property (forestOfInits inits) := by
  match inits with
  | [] => exact marks_nil
  | ⟨_, init⟩ :: rest => exact (marks_forestOfExpr? init).append (marks_forestOfInits rest)

theorem marks_forestOfStmts (stmts : List Stmt) (sole : Bool)
    (marked : sole = true → ∀ s ∈ stmts, ∀ l r, s.single = .region l r → property r) :
    Marks property (forestOfStmts sole stmts) := by
  match stmts with
  | [] => exact marks_nil
  | s :: rest =>
    exact (s.marks_forest sole fun h => marked h s List.mem_cons_self).append
      (marks_forestOfStmts rest sole fun h s hs => marked h s (List.mem_cons_of_mem _ hs))

theorem marks_forestOfStmt? (s : Option Stmt) (sole : Bool)
    (marked : sole = true → ∀ body, s = some body → ∀ l r, body.single = .region l r → property r) :
    Marks property (forestOfStmt? sole s) := by
  match s with
  | none => exact marks_nil
  | some s => exact s.marks_forest sole fun h => marked h s rfl

end

end

/-- The marks in the body of a region are right. -/
theorem Region.marks_children (r : Region) (sole : Bool) :
    Marks r.HasSole (r.tree sole).children := by
  obtain ⟨kind, name, cancelTarget, clauses, body, location, dependent⟩ := r
  exact marks_forestOfStmt? body true fun _ s is l inner single => ⟨s, l, is, single⟩

/-- No region of a program is marked that stands in no other region. -/
theorem Program.marks_forest (p : Program) {property : Region → Prop} : Marks property p.forest :=
  marks_forestOfStmts p.body false nofun

end Directives
