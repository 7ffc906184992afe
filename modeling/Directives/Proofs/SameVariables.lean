import Directives.Proofs.Completion
import Directives.Proofs.Renaming
/-!
A placeholder is the variable it stands for. Two programs that differ only in the placeholders by
which their variables are listed and referred to, outside headers of loops, have the same analysis:
with names that stand for the same variables, a walk does at every region what it did before.
-/

namespace Directives

/-- Under `f` every identity stands for the variable it stood for, also when declarations are added
to the table. -/
def DeclTable.KeptBy (t : DeclTable) (f : DeclId → DeclId) : Prop :=
  ∀ t' : DeclTable, t.GrowsTo t' → ∀ d, t'.canonical (f d) = t'.canonical d

theorem DeclTable.keptBy_canonical (t : DeclTable) : t.KeptBy t.canonical :=
  fun _ grows d => grows.canonical_canonical d

variable {o : Options} {f : DeclId → DeclId} {decls : DeclTable} {r : Region}

/-! ## The work at one region -/

theorem ClauseKind.sharing?_rename (k : ClauseKind) : (k.rename f).sharing? = k.sharing? := by
  cases k with
  | linear step =>
    cases step with
    | none => rfl
    | some e => simp only [rename, renameInExpr?, sharing?, e.literal?_rename]
  | _ => rfl

theorem judge_rename (stack : FrameStack) (directive : DirectiveKind) (k : ClauseKind)
    (var : DeclId) (d : VarDecl) :
    judge o decls stack directive (k.rename f) var d = judge o decls stack directive k var d := by
  cases k with
  | linear step =>
    have sharing := (ClauseKind.linear step).sharing?_rename (f := f)
    rw [ClauseKind.rename] at sharing ⊢
    rw [judge, judge, sharing]
    · rfl
    all_goals exact nofun
  | _ => rfl

theorem registerItem_rename (same : ∀ d, decls.canonical (f d) = decls.canonical d)
    (directive : DirectiveKind) (k : ClauseKind) (item : ClauseItem) (s : Scope) :
    registerItem o decls directive (k.rename f) { item with decl := f item.decl } s =
      registerItem o decls directive k item s := by
  simp only [registerItem, same, judge_rename, ClauseKind.tag_rename]
  rfl

theorem registerItems_rename (same : ∀ d, decls.canonical (f d) = decls.canonical d)
    (directive : DirectiveKind) (items : List (ClauseKind × ClauseItem)) (s : Scope) :
    registerItems o decls directive
        (items.map fun i => (i.1.rename f, { i.2 with decl := f i.2.decl })) s =
      registerItems o decls directive items s := by
  induction items generalizing s with
  | nil => rfl
  | cons item rest ih =>
    obtain ⟨k, item⟩ := item
    simp only [List.map_cons, registerItems, registerItem_rename same, ih]

theorem registerMode_rename (directive : DirectiveKind) (s : Scope) (c : Clause) :
    registerMode directive s (c.rename f) = registerMode directive s c := by
  obtain ⟨kind, _, _⟩ := c
  cases kind <;> rfl

theorem registerClauses_rename (same : ∀ d, decls.canonical (f d) = decls.canonical d) (r : Region)
    (s : Scope) : registerClauses o decls (r.rename f) s = registerClauses o decls r s := by
  have kind : (r.rename f).kind = r.kind := by cases r; rfl
  have items : ((r.rename f).clauses.flatMap fun c => c.items.map (c.kind, ·)) =
      (r.clauses.flatMap fun c => c.items.map (c.kind, ·)).map
        fun i => (i.1.rename f, { i.2 with decl := f i.2.decl }) := by
    rw [r.clauses_rename, List.flatMap_map, List.map_flatMap]
    simp only [Clause.rename, List.map_map, Function.comp_def]
  rw [registerClauses, registerClauses, items, registerItems_rename same, kind, r.clauses_rename,
    List.foldl_map]
  simp only [registerMode_rename]

theorem declareLocals_rename (r : Region) (frame : Frame) :
    declareLocals decls (r.rename f) frame = declareLocals decls r frame := by
  rw [declareLocals, declareLocals, r.body_rename, Option.map_map]
  simp only [Function.comp_def, Stmt.declared_rename]

theorem inferClauses_rename (same : ∀ d, decls.canonical (f d) = decls.canonical d) (r : Region)
    (s : Scope) : inferClauses o decls (r.rename f) s = inferClauses o decls r s := by
  have kind : (r.rename f).kind = r.kind := by cases r; rfl
  rw [inferClauses, inferClauses, r.body_rename]
  cases r.body with
  | none => rfl
  | some body => simp only [Option.map_some, referencedVariables_rename same, kind]

theorem regionVariables_rename (same : ∀ d, decls.canonical (f d) = decls.canonical d) (r : Region)
    (nest : Option LoopNest) :
    regionVariables decls (r.rename f) nest = regionVariables decls r nest := by
  have items : (r.rename f).items.map (decls.canonical ·.decl) =
      r.items.map (decls.canonical ·.decl) := by
    rw [Region.items, r.clauses_rename, List.flatMap_map, Region.items, List.map_flatMap,
      List.map_flatMap]
    simp only [Clause.rename, List.map_map, Function.comp_def, same]
  have referenced : (r.rename f).body.map (referencedVariables decls) =
      r.body.map (referencedVariables decls) := by
    rw [r.body_rename, Option.map_map]
    simp only [Function.comp_def, referencedVariables_rename same]
  rw [regionVariables, regionVariables]
  simp only [referenced, List.map_append, List.map_map, Function.comp_def, items]

namespace Walk

variable {w w' : Walk} {sole : Bool}

theorem registerLoops_rename (o : Options) (r : Region) (w : Walk) :
    w.registerLoops o (r.rename f) = w.registerLoops o r := by
  have kind : (r.rename f).kind = r.kind := by cases r; rfl
  simp only [registerLoops, kind, r.association_rename, canonicalizeNest_rename]

theorem analyzeCurrent_rename (kept : w.decls.KeptBy f) (r : Region) (report : RegionReport) :
    w.analyzeCurrent o (r.rename f) report = w.analyzeCurrent o r report := by
  have locals : declareLocals w.decls (r.rename f) = declareLocals w.decls r :=
    funext (declareLocals_rename r)
  unfold analyzeCurrent
  simp only [locals, registerClauses_rename (kept w.decls (.refl _)), registerLoops_rename]
  split
  · rfl
  · rename_i scope _
    split
    · rfl
    · rename_i found
      have after := kept _ (growsTo_registerLoops (w := { w with scope }) found)
      simp only [inferClauses_rename after, regionVariables_rename after]

/-- A walk does at the region under other names what it does at the region. -/
theorem arrive_rename (kept : w.decls.KeptBy f) (r : Region) (sole : Bool) :
    w.arrive o (r.rename f) sole = w.arrive o r sole := by
  have placement (enclosing : List Frame) :
      Placement.ofRegion (r.rename f) sole enclosing = Placement.ofRegion r sole enclosing := by
    rw [Placement.ofRegion, Region.hasSimdClause, r.hasTag_rename]
    cases r
    rfl
  have current (stack : FrameStack) (verdict : Verdict) (status : RegionStatus) :
      analyzeCurrent o (r.rename f) (w.blank r verdict status)
          { w with scope := { w.scope with stack } } =
        analyzeCurrent o r (w.blank r verdict status) { w with scope := { w.scope with stack } } :=
    analyzeCurrent_rename (w := { w with scope := { w.scope with stack } }) kept r _
  have same : (r.rename f).kind = r.kind ∧ (r.rename f).name = r.name ∧
      (r.rename f).location = r.location ∧ (r.rename f).dependent = r.dependent := by
    cases r
    exact ⟨rfl, rfl, rfl, rfl⟩
  obtain ⟨kind, name, location, dependent⟩ := same
  have blank (verdict : Verdict) (status : RegionStatus) :
      w.blank (r.rename f) verdict status = w.blank r verdict status := by
    rw [Walk.blank, Walk.blank, kind, name, location]
  unfold arrive
  simp only [placement, blank, kind, name, location, dependent, current]

end Walk

/-! ## The walk over the forest -/

/-- The second forest is the first with other names in some of its regions: those inside headers of
loops stay as they are. -/
inductive RenamedForest (f : DeclId → DeclId) : List RegionTree → List RegionTree → Prop where
  | nil : RenamedForest f [] []
  | kept {t ts us} (after : RenamedForest f ts us) : RenamedForest f (t :: ts) (t :: us)
  | renamed {r sole inner inner' ts us} (inside : RenamedForest f inner inner')
      (after : RenamedForest f ts us) :
      RenamedForest f (.node r sole inner :: ts) (.node (r.rename f) sole inner' :: us)

namespace RenamedForest

variable {ts us ts' us' : List RegionTree}

theorem refl (ts : List RegionTree) : RenamedForest f ts ts := by
  induction ts with
  | nil => exact .nil
  | cons t rest ih => exact .kept ih

theorem append (h : RenamedForest f ts us) (h' : RenamedForest f ts' us') :
    RenamedForest f (ts ++ ts') (us ++ us') := by
  induction h with
  | nil => exact h'
  | kept _ ih => exact .kept ih
  | renamed inside _ _ ih => exact .renamed inside ih

end RenamedForest

theorem length_renameInStmts (stmts : List Stmt) :
    (renameInStmts f stmts).length = stmts.length := by
  induction stmts with
  | nil => rfl
  | cons s rest ih => rw [renameInStmts, List.length_cons, List.length_cons, ih]

mutual

theorem Expr.renamedForest_forest (e : Expr) : RenamedForest f e.forest (e.rename f).forest := by
  match e with
  | .intLit _ _ | .boolLit _ _ | .ref _ _ => exact .nil
  | .binary _ _ a b | .assign _ a b | .compound _ _ a b | .subscript _ a b =>
    exact a.renamedForest_forest.append b.renamedForest_forest
  | .unary _ _ a | .cast _ a | .paren _ a => exact a.renamedForest_forest
  | .conditional _ c a b =>
    exact (c.renamedForest_forest.append a.renamedForest_forest).append b.renamedForest_forest
  | .construct _ args | .call _ _ args => exact renamedForest_forestOfExprs args
  | .closure _ body => exact body.renamedForest_forest false

theorem renamedForest_forestOfExprs (args : List Expr) :
    RenamedForest f (forestOfExprs args) (forestOfExprs (renameInExprs f args)) := by
  match args with
  | [] => exact .nil
  | e :: rest => exact e.renamedForest_forest.append (renamedForest_forestOfExprs rest)

theorem renamedForest_forestOfExpr? (e : Option Expr) :
    RenamedForest f (forestOfExpr? e) (forestOfExpr? (renameInExpr? f e)) := by
  match e with
  | none => exact .nil
  | some e => exact e.renamedForest_forest

theorem Stmt.renamedForest_forest (s : Stmt) (sole : Bool) :
    RenamedForest f (s.forest sole) ((s.rename f).forest sole) := by
  match s with
  | .expr _ e => exact e.renamedForest_forest
  | .decl _ inits => exact renamedForest_forestOfInits inits
  | .block _ stmts =>
    rw [Stmt.rename, Stmt.forest, Stmt.forest, length_renameInStmts]
    exact renamedForest_forestOfStmts stmts _
  | .forLoop _ init cond inc body =>
    exact (RenamedForest.refl (forestOfStmt? false init ++ forestOfExpr? cond ++ forestOfExpr? inc)).append
      (body.renamedForest_forest false)
  | .whileLoop _ cond body =>
    exact cond.renamedForest_forest.append (body.renamedForest_forest false)
  | .branch _ cond a b =>
    exact (cond.renamedForest_forest.append (a.renamedForest_forest false)).append
      (renamedForest_forestOfStmt? b false)
  | .region _ ⟨_, _, _, _, body, _, _⟩ => exact .renamed (renamedForest_forestOfStmt? body true) .nil
  | .null _ => exact .nil

theorem renamedForest_forestOfInits (inits : List DeclInit) :
    RenamedForest f (forestOfInits inits) (forestOfInits (renameInInits f inits)) := by
  match inits with
  | [] => exact .nil
  | ⟨_, init⟩ :: rest =>
    exact (renamedForest_forestOfExpr? init).append (renamedForest_forestOfInits rest)

theorem renamedForest_forestOfStmts (stmts : List Stmt) (sole : Bool) :
    RenamedForest f (forestOfStmts sole stmts) (forestOfStmts sole (renameInStmts f stmts)) := by
  match stmts with
  | [] => exact .nil
  | s :: rest => exact (s.renamedForest_forest sole).append (renamedForest_forestOfStmts rest sole)

theorem renamedForest_forestOfStmt? (s : Option Stmt) (sole : Bool) :
    RenamedForest f (forestOfStmt? sole s) (forestOfStmt? sole (renameInStmt? f s)) := by
  match s with
  | none => exact .nil
  | some s => exact s.renamedForest_forest sole

end

theorem DeclTable.KeptBy.grown {t t' : DeclTable} (kept : t.KeptBy f) (grows : t.GrowsTo t') :
    t'.KeptBy f :=
  fun t'' grows' => kept t'' (grows.trans grows')

namespace Walk

variable {w : Walk}

/-- Walks over forests agree if they agree at the first tree, and after it. -/
theorem forest_cons_congr {t u : RegionTree} {ts us : List RegionTree}
    (hidden : w.scope.stack.hidden = 0) (first : w.tree o u = w.tree o t)
    (after : ∀ w', w.BackAt w' → w'.forest o us = w'.forest o ts) :
    w.forest o (u :: us) = w.forest o (t :: ts) := by
  rw [forest, forest, first]
  cases walked : w.tree o t with
  | error stopped => rfl
  | ok w' => exact after w' ((Runs.of_tree t hidden walked .done).backAt hidden)

/-- A walk over the regions under other names comes to what it comes to over the regions. -/
theorem forest_renamed {ts us : List RegionTree} (h : RenamedForest f ts us)
    (hidden : w.scope.stack.hidden = 0) (kept : w.decls.KeptBy f) :
    w.forest o us = w.forest o ts := by
  induction h generalizing w with
  | nil => rfl
  | kept _ ih =>
    exact forest_cons_congr hidden rfl fun w' back => ih back.hidden (kept.grown back.decls)
  | @renamed r sole inner inner' _ _ _ _ ihInside ihAfter =>
    refine forest_cons_congr hidden ?_ fun w' back => ihAfter back.hidden (kept.grown back.decls)
    have arrives := arrives_arrive o r sole hidden
    rw [tree, tree, arrive_rename kept]
    cases arrived : w.arrive o r sole with
    | passed | stopped => rfl
    | entered id w₁ =>
      rw [arrived] at arrives
      cases arrives with
      | entered enters =>
        obtain ⟨_, current⟩ := enters.exists_current
        dsimp only
        rw [ihInside current.inside.hidden (kept.grown current.decls)]

end Walk

theorem analyze_rename (p : Program) (kept : p.decls.KeptBy f) :
    analyze o (p.rename f) = analyze o p := by
  have walked : (Walk.start p.decls).forest o (p.rename f).forest =
      (Walk.start p.decls).forest o p.forest :=
    Walk.forest_renamed (renamedForest_forestOfStmts p.body false) rfl kept
  have decls : (p.rename f).decls = p.decls := rfl
  rw [analyze, analyze, decls, walked]

/-! ## Placeholders -/

/-- The program with every placeholder that is listed or referred to outside headers of loops
replaced by the variable it stands for. -/
def Program.withoutPlaceholders (p : Program) : Program := p.rename p.decls.canonical

/-- The programs have the same declarations, and differ at most in which of the identities that
stand for one variable they use outside headers of loops. -/
def Program.SameVariables (p q : Program) : Prop :=
  p.withoutPlaceholders = q.withoutPlaceholders

theorem analyze_withoutPlaceholders (o : Options) (p : Program) :
    analyze o p.withoutPlaceholders = analyze o p :=
  analyze_rename p p.decls.keptBy_canonical

/-- Programs with the same variables have the same report, or fail in the same way, and the same is
reported on them, in the same order. -/
theorem analyze_eq_of_sameVariables (o : Options) {p q : Program} (same : p.SameVariables q) :
    analyze o p = analyze o q := by
  rw [← analyze_withoutPlaceholders o p, same, analyze_withoutPlaceholders]

/-- A variable is listed in a task and referred to inside, each by its own name or by that of a
placeholder. -/
theorem analyze_eq_of_sameVariables_captured :
    let program (named : DeclId → DeclId → DeclId) := Draft.program do
      let x ← Draft.functionLocal "x" .int32
      let captured ← Draft.functionLocal "x" .int32
      Draft.amend captured fun d => { d with captureOf := some x }
      let task ← Draft.region .task fun r =>
        { r.withList .firstprivate [named x captured] with body := some (.null r.location) }
      let use ← Draft.useVars [named x captured, named captured x]
      let body ← Draft.block [task, use]
      return [← Draft.region .parallel fun r =>
        { r.withMark (.default .none) with body := some body }]
    (program fun x _ => x).SameVariables (program fun _ captured => captured) ∧
      (analyze {} (program fun x _ => x)).1.isOk ∧
      analyze {} (program fun x _ => x) = analyze {} (program fun _ captured => captured) := by
  intro program
  have same : (program fun x _ => x).SameVariables (program fun _ captured => captured) := by cbv
  exact ⟨same, by decide +kernel, analyze_eq_of_sameVariables {} same⟩

end Directives
