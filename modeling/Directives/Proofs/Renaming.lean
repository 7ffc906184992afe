import Directives.Proofs.Value
import Directives.Loop.Canonical
import Directives.Tree.Counted
/-!
Other names for variables: a tree in which every listed variable and every reference is given by
another identity. Headers of loops stay as they are written, and so do declarations. Where the new
identities stand for the same variables as the old ones, the same variables are counted; and loops
and their arguments are what they were, because no variable has a value in them.
-/

namespace Directives

mutual

/-- The expression with `f` applied to every variable it refers to. -/
def Expr.rename (f : DeclId → DeclId) : Expr → Expr
  | .intLit i v => .intLit i v
  | .boolLit i v => .boolLit i v
  | .ref i d => .ref i (f d)
  | .binary i op a b => .binary i op (a.rename f) (b.rename f)
  | .unary i op a => .unary i op (a.rename f)
  | .assign i a b => .assign i (a.rename f) (b.rename f)
  | .compound i op a b => .compound i op (a.rename f) (b.rename f)
  | .conditional i c a b => .conditional i (c.rename f) (a.rename f) (b.rename f)
  | .cast i a => .cast i (a.rename f)
  | .paren i a => .paren i (a.rename f)
  | .construct i args => .construct i (renameInExprs f args)
  | .subscript i a b => .subscript i (a.rename f) (b.rename f)
  | .call i callee args => .call i callee (renameInExprs f args)
  | .closure i body => .closure i (body.rename f)

/-- The expressions with other names for their variables. -/
def renameInExprs (f : DeclId → DeclId) : List Expr → List Expr
  | [] => []
  | e :: rest => e.rename f :: renameInExprs f rest

/-- The expression, if there is one, with other names for its variables. -/
def renameInExpr? (f : DeclId → DeclId) : Option Expr → Option Expr
  | none => none
  | some e => some (e.rename f)

/-- The statement with `f` applied to every variable that is listed or referred to outside headers
of loops. -/
def Stmt.rename (f : DeclId → DeclId) : Stmt → Stmt
  | .expr l e => .expr l (e.rename f)
  | .decl l inits => .decl l (renameInInits f inits)
  | .block l stmts => .block l (renameInStmts f stmts)
  | .forLoop l init cond inc body => .forLoop l init cond inc (body.rename f)
  | .whileLoop l cond body => .whileLoop l (cond.rename f) (body.rename f)
  | .branch l cond a b => .branch l (cond.rename f) (a.rename f) (renameInStmt? f b)
  | .region l r => .region l (r.rename f)
  | .null l => .null l

/-- The initializers with other names for their variables. -/
def renameInInits (f : DeclId → DeclId) : List DeclInit → List DeclInit
  | [] => []
  | ⟨decl, init⟩ :: rest => ⟨decl, renameInExpr? f init⟩ :: renameInInits f rest

/-- The statements with other names for their variables. -/
def renameInStmts (f : DeclId → DeclId) : List Stmt → List Stmt
  | [] => []
  | s :: rest => s.rename f :: renameInStmts f rest

/-- The statement, if there is one, with other names for its variables. -/
def renameInStmt? (f : DeclId → DeclId) : Option Stmt → Option Stmt
  | none => none
  | some s => some (s.rename f)

/-- The region with other names for the variables of its clauses and its body. -/
def Region.rename (f : DeclId → DeclId) : Region → Region
  | ⟨kind, name, cancelTarget, clauses, body, location, dependent⟩ =>
    ⟨kind, name, cancelTarget, renameInClauses f clauses, renameInStmt? f body, location, dependent⟩

/-- The clauses with other names for their variables. -/
def renameInClauses (f : DeclId → DeclId) : List Clause → List Clause
  | [] => []
  | ⟨kind, items, location⟩ :: rest =>
    ⟨kind.rename f, items.map fun i => { i with decl := f i.decl }, location⟩
      :: renameInClauses f rest

/-- The clause with other names for the variables of its argument. -/
def ClauseKind.rename (f : DeclId → DeclId) : ClauseKind → ClauseKind
  | .linear step => .linear (renameInExpr? f step)
  | .collapse count => .collapse (count.rename f)
  | .ordered count => .ordered (renameInExpr? f count)
  | .cond e => .cond (e.rename f)
  | .numThreads e => .numThreads (e.rename f)
  | .final e => .final (e.rename f)
  | kind => kind

end

/-- The program with other names for its variables, which are declared as they were. -/
def Program.rename (f : DeclId → DeclId) (p : Program) : Program :=
  { p with body := renameInStmts f p.body }

variable {f canon : DeclId → DeclId}

theorem ClauseKind.tag_rename (k : ClauseKind) : (k.rename f).tag = k.tag := by
  cases k <;> rfl

/-- The clause with other names for its variables. -/
def Clause.rename (f : DeclId → DeclId) (c : Clause) : Clause :=
  ⟨c.kind.rename f, c.items.map fun i => { i with decl := f i.decl }, c.location⟩

theorem renameInClauses_eq_map (clauses : List Clause) :
    renameInClauses f clauses = clauses.map (·.rename f) := by
  induction clauses with
  | nil => rfl
  | cons c rest ih =>
    obtain ⟨_, _, _⟩ := c
    exact congrArg (_ :: ·) ih

theorem Region.clauses_rename (r : Region) :
    (r.rename f).clauses = r.clauses.map (·.rename f) := by
  cases r
  exact renameInClauses_eq_map _

theorem Region.body_rename (r : Region) : (r.rename f).body = r.body.map (·.rename f) := by
  obtain ⟨_, _, _, _, body, _, _⟩ := r
  cases body <;> rfl

/-! ## Counted references -/

theorem countItems_rename (same : ∀ d, canon (f d) = canon d) (hidden : List DeclId)
    (tag : ClauseTag) (items : List ClauseItem) :
    countItems canon hidden tag (items.map fun i => { i with decl := f i.decl }) =
      countItems canon hidden tag items := by
  unfold countItems countOccurrence
  simp only [List.flatMap_map, same]

theorem privateItems_rename (same : ∀ d, canon (f d) = canon d) (clauses : List Clause) :
    privateItems canon (renameInClauses f clauses) = privateItems canon clauses := by
  unfold privateItems
  rw [renameInClauses_eq_map, List.flatMap_map]
  simp only [Clause.rename, ClauseKind.tag_rename, List.map_map, Function.comp_def, same]

mutual

theorem Expr.counted_rename (same : ∀ d, canon (f d) = canon d) (hidden : List DeclId) (e : Expr) :
    (e.rename f).counted canon hidden = e.counted canon hidden := by
  match e with
  | .intLit _ _ | .boolLit _ _ => rfl
  | .ref _ d => simp only [Expr.rename, Expr.counted, countOccurrence, same]
  | .binary _ _ a b | .assign _ a b | .compound _ _ a b | .subscript _ a b =>
    rw [Expr.rename, Expr.counted, Expr.counted, a.counted_rename same, b.counted_rename same]
  | .unary _ _ a | .cast _ a | .paren _ a =>
    rw [Expr.rename, Expr.counted, Expr.counted, a.counted_rename same]
  | .conditional _ c a b =>
    rw [Expr.rename, Expr.counted, Expr.counted, c.counted_rename same, a.counted_rename same,
      b.counted_rename same]
  | .construct _ args | .call _ _ args =>
    rw [Expr.rename, Expr.counted, Expr.counted, countedInExprs_rename same]
  | .closure _ body => rw [Expr.rename, Expr.counted, Expr.counted, body.counted_rename same]

theorem countedInExprs_rename (same : ∀ d, canon (f d) = canon d) (hidden : List DeclId)
    (args : List Expr) :
    countedInExprs canon hidden (renameInExprs f args) = countedInExprs canon hidden args := by
  match args with
  | [] => rfl
  | e :: rest =>
    rw [renameInExprs, countedInExprs, countedInExprs, e.counted_rename same,
      countedInExprs_rename same]

theorem countedInExpr?_rename (same : ∀ d, canon (f d) = canon d) (hidden : List DeclId)
    (e : Option Expr) :
    countedInExpr? canon hidden (renameInExpr? f e) = countedInExpr? canon hidden e := by
  match e with
  | none => rfl
  | some e => exact e.counted_rename same hidden

theorem Stmt.counted_rename (same : ∀ d, canon (f d) = canon d) (hidden : List DeclId) (s : Stmt) :
    (s.rename f).counted canon hidden = s.counted canon hidden := by
  match s with
  | .expr _ e => exact e.counted_rename same hidden
  | .decl _ inits => exact countedInInits_rename same hidden inits
  | .block _ stmts => exact countedInStmts_rename same hidden stmts
  | .forLoop _ _ _ _ body => rw [Stmt.rename, Stmt.counted, Stmt.counted, body.counted_rename same]
  | .whileLoop _ cond body =>
    rw [Stmt.rename, Stmt.counted, Stmt.counted, cond.counted_rename same, body.counted_rename same]
  | .branch _ cond a b =>
    rw [Stmt.rename, Stmt.counted, Stmt.counted, cond.counted_rename same, a.counted_rename same,
      countedInStmt?_rename same]
  | .region _ ⟨_, _, _, clauses, body, _, _⟩ =>
    rw [Stmt.rename, Region.rename, Stmt.counted, Stmt.counted, countedInClauses_rename same,
      privateItems_rename same, countedInStmt?_rename same]
  | .null _ => rfl

theorem countedInInits_rename (same : ∀ d, canon (f d) = canon d) (hidden : List DeclId)
    (inits : List DeclInit) :
    countedInInits canon hidden (renameInInits f inits) = countedInInits canon hidden inits := by
  match inits with
  | [] => rfl
  | ⟨_, init⟩ :: rest =>
    rw [renameInInits, countedInInits, countedInInits, countedInExpr?_rename same,
      countedInInits_rename same]

theorem countedInStmts_rename (same : ∀ d, canon (f d) = canon d) (hidden : List DeclId)
    (stmts : List Stmt) :
    countedInStmts canon hidden (renameInStmts f stmts) = countedInStmts canon hidden stmts := by
  match stmts with
  | [] => rfl
  | s :: rest =>
    rw [renameInStmts, countedInStmts, countedInStmts, s.counted_rename same,
      countedInStmts_rename same]

theorem countedInStmt?_rename (same : ∀ d, canon (f d) = canon d) (hidden : List DeclId)
    (s : Option Stmt) :
    countedInStmt? canon hidden (renameInStmt? f s) = countedInStmt? canon hidden s := by
  match s with
  | none => rfl
  | some s => exact s.counted_rename same hidden

theorem countedInClauses_rename (same : ∀ d, canon (f d) = canon d) (hidden : List DeclId)
    (clauses : List Clause) :
    countedInClauses canon hidden (renameInClauses f clauses) =
      countedInClauses canon hidden clauses := by
  match clauses with
  | [] => rfl
  | ⟨kind, _, _⟩ :: rest =>
    rw [renameInClauses, countedInClauses, countedInClauses, kind.tag_rename,
      countItems_rename same, countedInArgument_rename same, countedInClauses_rename same]

theorem countedInArgument_rename (same : ∀ d, canon (f d) = canon d) (hidden : List DeclId)
    (kind : ClauseKind) :
    countedInArgument canon hidden (kind.rename f) = countedInArgument canon hidden kind := by
  match kind with
  | .cond e | .numThreads e | .final e => exact e.counted_rename same hidden
  | .priv | .firstprivate | .lastprivate _ | .shared | .reduction _ | .taskReduction _
  | .inReduction _ | .linear _ | .copyin | .copyprivate | .map _ | .isDevicePtr | .default _
  | .defaultmap _ _ | .collapse _ | .ordered _ | .order _ | .nowait | .untied | .simd | .threads
  | .mergeable => rfl

end

theorem referencedVariables_rename {decls : DeclTable}
    (same : ∀ d, decls.canonical (f d) = decls.canonical d) (body : Stmt) :
    referencedVariables decls (body.rename f) = referencedVariables decls body := by
  rw [referencedVariables, body.counted_rename same, referencedVariables]

/-! ## Declarations -/

mutual

theorem Stmt.declared_rename (s : Stmt) : (s.rename f).declared = s.declared := by
  match s with
  | .decl _ inits =>
    rw [Stmt.rename, Stmt.declared, Stmt.declared]
    exact declarations_rename inits
  | .block _ stmts => exact declaredInStmts_rename stmts
  | .forLoop _ _ _ _ body => rw [Stmt.rename, Stmt.declared, Stmt.declared, body.declared_rename]
  | .whileLoop _ _ body => exact body.declared_rename
  | .branch _ _ a b =>
    rw [Stmt.rename, Stmt.declared, Stmt.declared, a.declared_rename, declaredInStmt?_rename]
  | .region _ ⟨_, _, _, _, body, _, _⟩ => exact declaredInStmt?_rename body
  | .expr _ _ | .null _ => rfl
where
  declarations_rename (inits : List DeclInit) :
      (renameInInits f inits).map (·.decl) = inits.map (·.decl) := by
    induction inits with
    | nil => rfl
    | cons d rest ih =>
      obtain ⟨_, _⟩ := d
      exact congrArg (_ :: ·) ih

theorem declaredInStmts_rename (stmts : List Stmt) :
    declaredInStmts (renameInStmts f stmts) = declaredInStmts stmts := by
  match stmts with
  | [] => rfl
  | s :: rest =>
    rw [renameInStmts, declaredInStmts, declaredInStmts, s.declared_rename,
      declaredInStmts_rename rest]

theorem declaredInStmt?_rename (s : Option Stmt) :
    declaredInStmt? (renameInStmt? f s) = declaredInStmt? s := by
  match s with
  | none => rfl
  | some s => exact s.declared_rename

end

/-! ## Constants and dependence -/

namespace Expr

theorem info_rename (e : Expr) : (e.rename f).info = e.info := by
  cases e <;> rfl

theorem location_rename (e : Expr) : (e.rename f).location = e.location :=
  congrArg ExprInfo.location e.info_rename

mutual

theorem isDependent_rename (e : Expr) : (e.rename f).isDependent = e.isDependent := by
  match e with
  | .intLit _ _ | .boolLit _ _ | .ref _ _ | .closure _ _ => rfl
  | .binary _ _ a b | .assign _ a b | .compound _ _ a b | .subscript _ a b =>
    rw [rename, isDependent, isDependent, a.isDependent_rename, b.isDependent_rename]
  | .unary _ _ a | .cast _ a | .paren _ a =>
    rw [rename, isDependent, isDependent, a.isDependent_rename]
  | .conditional _ c a b =>
    rw [rename, isDependent, isDependent, c.isDependent_rename, a.isDependent_rename,
      b.isDependent_rename]
  | .construct _ args | .call _ _ args =>
    rw [rename, isDependent, isDependent, anyDependent_rename args]

theorem anyDependent_rename (args : List Expr) :
    anyDependent (renameInExprs f args) = anyDependent args := by
  match args with
  | [] => rfl
  | e :: rest =>
    rw [renameInExprs, anyDependent, anyDependent, e.isDependent_rename, anyDependent_rename rest]

end

/-- A literal is one under any names. -/
theorem literal?_rename (e : Expr) : (e.rename f).literal? = e.literal? := by
  induction e using literal?.induct with
  | case1 => rfl
  | case2 _ e ih =>
    rw [rename, literal?, literal?, ih]
  | case3 _ e ih | case4 _ e ih =>
    rw [rename, literal?, literal?, ih]
  | case5 _ e ih =>
    rw [rename, renameInExprs, renameInExprs, literal?, literal?, ih]
  | case6 e _ notNegated notCast notParen notSingle =>
    cases e with
    | unary i op a =>
      cases op with
      | neg => exact (notNegated i a rfl).elim
      | _ => rfl
    | cast i a => exact (notCast i a rfl).elim
    | paren i a => exact (notParen i a rfl).elim
    | construct i args =>
      match args with
      | [a] => exact (notSingle i a rfl).elim
      | [] | _ :: _ :: _ => rfl
    | _ => rfl

theorem isValueless_rename (e : Expr) : (e.rename f).isValueless = e.isValueless := by
  cases e with
  | construct i args =>
    match args with
    | [] | [_] | _ :: _ :: _ => rfl
  | _ => rfl

/-- Where no variable has a value, names do not matter. -/
theorem constant?_rename (e : Expr) : (e.rename f).constant? = e.constant? := by
  unfold constant? eval
  induction e using valueInduction with
  | intLit | boolLit | ref => rfl
  | cast _ e ih | paren _ e ih | construct _ e ih => exact ih
  | unary _ op e ih => simp only [rename, evalIn, ih]
  | binary _ op a b iha ihb => simp only [rename, evalIn, iha, ihb]
  | conditional _ c a b ihc iha ihb => simp only [rename, evalIn, ihc, iha, ihb]
  | valueless e he =>
    rw [evalIn_of_isValueless he, evalIn_of_isValueless (e.isValueless_rename.trans he)]

end Expr

/-! ## Loops -/

namespace Stmt

theorem location_rename (s : Stmt) : (s.rename f).location = s.location := by
  cases s <;> rfl

theorem single_rename (s : Stmt) : (s.rename f).single = s.single.rename f := by
  induction s using single.induct with
  | case1 _ s ih =>
    rw [rename, renameInStmts, renameInStmts, single, single, ih]
  | case2 s notSingle =>
    cases s with
    | block l stmts =>
      match stmts with
      | [s] => exact (notSingle l s rfl).elim
      | [] | _ :: _ :: _ => rfl
    | _ => rfl

mutual

theorem containsLoop_rename (s : Stmt) : (s.rename f).containsLoop = s.containsLoop := by
  match s with
  | .block _ stmts => exact anyContainsLoop_rename stmts
  | .expr _ _ | .decl _ _ | .forLoop _ _ _ _ _ | .whileLoop _ _ _ | .branch _ _ _ _ | .region _ _
  | .null _ => rfl

theorem anyContainsLoop_rename (stmts : List Stmt) :
    anyContainsLoop (renameInStmts f stmts) = anyContainsLoop stmts := by
  match stmts with
  | [] => rfl
  | s :: rest =>
    rw [renameInStmts, anyContainsLoop, anyContainsLoop, s.containsLoop_rename,
      anyContainsLoop_rename rest]

end

theorem noLoop_rename (s : Stmt) : (s.rename f).noLoop = s.noLoop := by
  rw [noLoop, noLoop, s.containsLoop_rename, s.location_rename]

end Stmt

theorem canonicalizeFrom_rename (o : Options) (remaining level : Nat) (s : Stmt)
    (outer : List LoopLevel) (failures : List (Nat × LoopFailure)) (decls : DeclTable) :
    canonicalizeFrom o remaining level (s.rename f) outer failures decls =
      canonicalizeFrom o remaining level s outer failures decls := by
  induction remaining generalizing level s outer failures decls with
  | zero => rfl
  | succ remaining ih =>
    have noLoop := s.noLoop_rename (f := f)
    cases s with
    | forLoop l init cond inc body =>
      unfold canonicalizeFrom
      simp only [Stmt.rename, Stmt.single_rename, ih]
      rfl
    | _ =>
      exact congrArg (fun failure => (NestOutcome.invalid (failures ++ [(level, failure)]), decls))
        noLoop

namespace Region

theorem hasTag_rename (r : Region) (tag : ClauseTag) : (r.rename f).hasTag tag = r.hasTag tag := by
  rw [hasTag, clauses_rename, List.any_map]
  simp only [Function.comp_def, Clause.rename, ClauseKind.tag_rename]
  rfl

theorem collapse?_rename (r : Region) : (r.rename f).collapse? = r.collapse?.map (·.rename f) := by
  rw [collapse?, clauses_rename, collapse?]
  induction r.clauses with
  | nil => rfl
  | cons c rest ih =>
    obtain ⟨kind, _, _⟩ := c
    cases kind with
    | collapse => rfl
    | _ => exact ih

theorem ordered?_rename (r : Region) :
    (r.rename f).ordered? = r.ordered?.map (·.map (·.rename f)) := by
  rw [ordered?, clauses_rename, ordered?]
  induction r.clauses with
  | nil => rfl
  | cons c rest ih =>
    obtain ⟨kind, _, _⟩ := c
    cases kind with
    | ordered count => cases count <;> rfl
    | _ => exact ih

end Region

theorem Expr.positive?_rename (e : Expr) : (e.rename f).positive? = e.positive? := by
  rw [positive?, positive?, constant?_rename, location_rename]

theorem Region.association_rename (r : Region) : (r.rename f).association = r.association := by
  have collapseDepth : (r.rename f).collapseDepth = r.collapseDepth := by
    rw [collapseDepth, collapseDepth, collapse?_rename]
    cases r.collapse? with
    | none => rfl
    | some e => simp only [Option.map_some, Expr.isDependent_rename, Expr.positive?_rename]
  rw [association, association, collapseDepth, ordered?_rename]
  rcases r.ordered? with - | - | e
  · rfl
  · rfl
  · simp only [Option.map_some, Expr.isDependent_rename, Expr.positive?_rename,
      Expr.location_rename]

theorem canonicalizeNest_rename (o : Options) (r : Region) (decls : DeclTable) :
    canonicalizeNest o (r.rename f) decls = canonicalizeNest o r decls := by
  have location : (r.rename f).location = r.location := by cases r; rfl
  rw [canonicalizeNest, canonicalizeNest, r.association_rename, r.body_rename, location]
  cases r.body with
  | none => rfl
  | some body =>
    simp only [Option.map_some, canonicalizeLoops, Stmt.single_rename, canonicalizeFrom_rename]

end Directives
