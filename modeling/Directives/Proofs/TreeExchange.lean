import Directives.Exchange.TreeReader
import Directives.Proofs.DeclExchange
/-!
Trees are read as they were written, where their numbers are in the range of their fields. A tree is
read with as many layers as its value is high, which is more than it has: every layer stands in an
object and under the name of its form.
-/

namespace Directives

open Json

/-! ## Vocabularies of trees -/

instance : LawfulVocabulary BinaryOp where
  complete a := by cases a <;> simp [Vocabulary.members]
  distinct := by simp [Vocabulary.members, label]

instance : LawfulVocabulary UnaryOp where
  complete a := by cases a <;> simp [Vocabulary.members]
  distinct := by simp [Vocabulary.members, label]

instance : LawfulVocabulary ReductionOp where
  complete a := by cases a <;> simp [Vocabulary.members]
  distinct := by simp [Vocabulary.members, label]

instance : LawfulVocabulary MapType where
  complete a := by cases a <;> simp [Vocabulary.members]
  distinct := by simp [Vocabulary.members, label]

instance : LawfulVocabulary DefaultMode where
  complete a := by cases a <;> simp [Vocabulary.members]
  distinct := by simp [Vocabulary.members, label]

instance : LawfulVocabulary MapBehavior where
  complete a := by cases a <;> simp [Vocabulary.members]
  distinct := by simp [Vocabulary.members, label]

instance : LawfulVocabulary Category where
  complete a := by cases a <;> simp [Vocabulary.members]
  distinct := by simp [Vocabulary.members, label]

instance : LawfulVocabulary OrderKind where
  complete a := by
    cases a
    simp [Vocabulary.members]
  distinct := by simp [Vocabulary.members, label]

instance : LawfulVocabulary DirectiveKind where
  complete a := by cases a <;> simp [Vocabulary.members]
  distinct := by simp [Vocabulary.members, label]

/-! ## Trees whose numbers are in range -/

def ExprInfo.fits (i : ExprInfo) : Bool := i.ty.fits && i.location.fits

def ClauseItem.fits (i : ClauseItem) : Bool := i.decl.fits && i.location.fits

mutual

/-- The numbers of the expression are in the range of their fields; literals have 128 bits. -/
def Expr.fits : Expr → Bool
  | .intLit i v => i.fits && Wide.fits v
  | .boolLit i _ => i.fits
  | .ref i d => i.fits && d.fits
  | .binary i _ a b | .assign i a b | .compound i _ a b | .subscript i a b =>
    i.fits && (a.fits && b.fits)
  | .unary i _ a | .cast i a | .paren i a => i.fits && a.fits
  | .conditional i c a b => i.fits && (c.fits && (a.fits && b.fits))
  | .construct i args | .call i _ args => i.fits && exprsFit args
  | .closure i body => i.fits && body.fits

def exprsFit : List Expr → Bool
  | [] => true
  | e :: rest => e.fits && exprsFit rest

def optionalExprFits : Option Expr → Bool
  | none => true
  | some e => e.fits

/-- The numbers of the statement are in the range of their fields. -/
def Stmt.fits : Stmt → Bool
  | .expr l e => l.fits && e.fits
  | .decl l inits => l.fits && initsFit inits
  | .block l stmts => l.fits && stmtsFit stmts
  | .forLoop l init cond inc body =>
    l.fits &&
      (optionalStmtFits init && (optionalExprFits cond && (optionalExprFits inc && body.fits)))
  | .whileLoop l cond body => l.fits && (cond.fits && body.fits)
  | .branch l cond a b => l.fits && (cond.fits && (a.fits && optionalStmtFits b))
  | .region l r => l.fits && r.fits
  | .null l => l.fits

def initsFit : List DeclInit → Bool
  | [] => true
  | { decl, init } :: rest => (decl.fits && optionalExprFits init) && initsFit rest

def stmtsFit : List Stmt → Bool
  | [] => true
  | s :: rest => s.fits && stmtsFit rest

def optionalStmtFits : Option Stmt → Bool
  | none => true
  | some s => s.fits

/-- The numbers of the region are in the range of their fields. -/
def Region.fits : Region → Bool
  | { clauses, body, location, .. } => clausesFit clauses && (optionalStmtFits body && location.fits)

def clausesFit : List Clause → Bool
  | [] => true
  | c :: rest => c.fits && clausesFit rest

def Clause.fits : Clause → Bool
  | { kind, items, location } => kind.fits && (items.all (·.fits) && location.fits)

def ClauseKind.fits : ClauseKind → Bool
  | .linear e | .ordered e => optionalExprFits e
  | .collapse e | .cond e | .numThreads e | .final e => e.fits
  | _ => true

end

/-- The numbers of the program are in the range of their fields. -/
def Program.fits (p : Program) : Bool := p.decls.fits && p.body.all (·.fits)

/-! ## Layers -/

theorem ClauseItem.means {i : ClauseItem} (fits : i.fits) : Means ofJson? i.toJson i := by
  rw [ClauseItem.fits, Bool.and_eq_true] at fits
  have decl := DeclId.means fits.1
  have location := Location.means fits.2
  constructor
  · have names : ["decl", "location", "section"].Nodup := by decide
    refine bind_of_some rfl ?_
    refine bind_of_some (Record.required_eq names rfl decl) ?_
    refine bind_of_some (Record.required_eq names rfl location) ?_
    refine bind_of_some (Record.defaulted_eq names rfl (means_bool _)) ?_
    rfl
  · exact ⟨decl.readable, location.readable, trivial, trivial⟩

namespace TreeReaders

variable {n : Nat} {form : Json}

theorem means_expr {i : ExprInfo} {e : Expr} (fits : i.fits)
    (h : Means ((within n).exprForm i) form e) : Means (within (n + 1)).expr (i.around form) e := by
  rw [ExprInfo.fits, Bool.and_eq_true] at fits
  have ty := Ty.means fits.1
  have location := Location.means fits.2
  constructor
  · change (within n).exprLayer (i.around form) = some e
    have names : ["kind", "ty", "location", "dependent"].Nodup := by decide
    refine bind_of_some rfl ?_
    refine bind_of_some (Record.required_eq names rfl ty) ?_
    refine bind_of_some (Record.required_eq names rfl location) ?_
    refine bind_of_some (Record.defaulted_eq names rfl (means_bool _)) ?_
    exact Record.required_eq names rfl h
  · exact ⟨h.readable, ty.readable, location.readable, trivial, trivial⟩

theorem means_stmt {l : Location} {s : Stmt} (fits : l.fits)
    (h : Means ((within n).stmtForm l) form s) : Means (within (n + 1)).stmt (l.around form) s := by
  have location := Location.means fits
  constructor
  · change (within n).stmtLayer (l.around form) = some s
    have names : ["kind", "location"].Nodup := by decide
    refine bind_of_some rfl ?_
    refine bind_of_some (Record.required_eq names rfl location) ?_
    exact Record.required_eq names rfl h
  · exact ⟨h.readable, location.readable, trivial⟩

theorem expr_null (n : Nat) : (within n).expr .null = none := by
  cases n <;> rfl

theorem stmt_null (n : Nat) : (within n).stmt .null = none := by
  cases n <;> rfl

section
variable {r : TreeReaders} {i : ExprInfo} {j : Json}

/-! Literals and references, for whatever the values inside them are read as. -/

theorem exprForm_intLit {v : Int} (value : Reader.wide j = some v) :
    r.exprForm i (tagged "IntLiteral" j) = some (.intLit i v) :=
  some_of_one (f := Expr.intLit i) value

theorem exprForm_ref {d : DeclId} (decl : DeclId.ofJson? j = some d) :
    r.exprForm i (tagged "DeclRef" j) = some (.ref i d) :=
  some_of_one (f := Expr.ref i) decl

theorem operation_eq {op : BinaryOp} {a b : Expr} (left : r.expr a.toJson = some a)
    (right : r.expr b.toJson = some b) :
    r.operation (.obj [("op", ofMember op), ("lhs", a.toJson), ("rhs", b.toJson)]) =
      some (op, a, b) :=
  some_of_three (f := fun op a b => (op, a, b)) (means_member op).read left right

end

end TreeReaders

/-! The contents of a form are lower than the expression or the statement by two layers. -/

theorem height_lt_of_tagged {name : String} {j : Json} {n : Nat}
    (low : (tagged name j).height < n) : j.height < n := by
  simp only [tagged, height, membersHeight] at low
  omega

theorem ExprInfo.height_lt_of_around {i : ExprInfo} {name : String} {j : Json} {n : Nat}
    (low : (i.around (tagged name j)).height < n + 1) : j.height < n := by
  simp only [ExprInfo.around, tagged, height, membersHeight] at low
  omega

theorem Location.height_lt_of_around {l : Location} {name : String} {j : Json} {n : Nat}
    (low : (l.around (tagged name j)).height < n + 1) : j.height < n := by
  simp only [Location.around, tagged, height, membersHeight] at low
  omega

open TreeReaders

mutual

theorem Expr.means_within (e : Expr) {n : Nat} (fits : e.fits) (low : e.toJson.height < n) :
    Means (within n).expr e.toJson e := by
  obtain ⟨n, rfl⟩ : ∃ m, n = m + 1 := ⟨n - 1, by omega⟩
  match e with
  | .intLit i v =>
    rw [Expr.fits, Bool.and_eq_true] at fits
    have value := means_wide fits.2
    exact means_expr fits.1 ⟨exprForm_intLit value.read, value.readable, trivial⟩
  | .boolLit i b => exact means_expr fits ⟨rfl, trivial, trivial⟩
  | .ref i d =>
    rw [Expr.fits, Bool.and_eq_true] at fits
    have decl := DeclId.means fits.2
    exact means_expr fits.1 ⟨exprForm_ref decl.read, decl.readable, trivial⟩
  | .binary i op a b =>
    simp only [Expr.fits, Bool.and_eq_true] at fits
    have low := ExprInfo.height_lt_of_around low
    simp only [height, membersHeight] at low
    have left := a.means_within (n := n) fits.2.1 (by omega)
    have right := b.means_within (n := n) fits.2.2 (by omega)
    refine means_expr fits.1 ⟨?_, ⟨trivial, left.readable, right.readable, trivial⟩, trivial⟩
    exact congrArg (Option.map fun (op, a, b) => Expr.binary i op a b)
      (operation_eq left.read right.read)
  | .unary i op a =>
    simp only [Expr.fits, Bool.and_eq_true] at fits
    have low := ExprInfo.height_lt_of_around low
    simp only [height, membersHeight] at low
    have operand := a.means_within (n := n) fits.2 (by omega)
    refine means_expr fits.1 ⟨?_, ⟨trivial, operand.readable, trivial⟩, trivial⟩
    exact some_of_two (f := Expr.unary i) (means_member op).read operand.read
  | .assign i a b =>
    simp only [Expr.fits, Bool.and_eq_true] at fits
    have low := ExprInfo.height_lt_of_around low
    simp only [height, membersHeight] at low
    have left := a.means_within (n := n) fits.2.1 (by omega)
    have right := b.means_within (n := n) fits.2.2 (by omega)
    refine means_expr fits.1 ⟨?_, ⟨left.readable, right.readable, trivial⟩, trivial⟩
    exact congrArg (Option.map fun (a, b) => Expr.assign i a b)
      (some_of_two (f := Prod.mk) left.read right.read)
  | .compound i op a b =>
    simp only [Expr.fits, Bool.and_eq_true] at fits
    have low := ExprInfo.height_lt_of_around low
    simp only [height, membersHeight] at low
    have left := a.means_within (n := n) fits.2.1 (by omega)
    have right := b.means_within (n := n) fits.2.2 (by omega)
    refine means_expr fits.1 ⟨?_, ⟨trivial, left.readable, right.readable, trivial⟩, trivial⟩
    exact congrArg (Option.map fun (op, a, b) => Expr.compound i op a b)
      (operation_eq left.read right.read)
  | .conditional i c a b =>
    simp only [Expr.fits, Bool.and_eq_true] at fits
    have low := ExprInfo.height_lt_of_around low
    simp only [height, membersHeight] at low
    have cond := c.means_within (n := n) fits.2.1 (by omega)
    have first := a.means_within (n := n) fits.2.2.1 (by omega)
    have second := b.means_within (n := n) fits.2.2.2 (by omega)
    refine means_expr fits.1
      ⟨?_, ⟨cond.readable, first.readable, second.readable, trivial⟩, trivial⟩
    exact some_of_three (f := Expr.conditional i) cond.read first.read second.read
  | .cast i a =>
    simp only [Expr.fits, Bool.and_eq_true] at fits
    have low := ExprInfo.height_lt_of_around low
    have inner := a.means_within (n := n) fits.2 low
    refine means_expr fits.1 ⟨?_, inner.readable, trivial⟩
    exact some_of_one (f := Expr.cast i) inner.read
  | .paren i a =>
    simp only [Expr.fits, Bool.and_eq_true] at fits
    have low := ExprInfo.height_lt_of_around low
    have inner := a.means_within (n := n) fits.2 low
    refine means_expr fits.1 ⟨?_, inner.readable, trivial⟩
    exact some_of_one (f := Expr.paren i) inner.read
  | .construct i args =>
    simp only [Expr.fits, Bool.and_eq_true] at fits
    have low := ExprInfo.height_lt_of_around low
    simp only [height] at low
    have args := means_exprs args (n := n) fits.2 (by omega)
    refine means_expr fits.1 ⟨?_, args.readable, trivial⟩
    exact some_of_one (f := Expr.construct i) args.read
  | .subscript i a b =>
    simp only [Expr.fits, Bool.and_eq_true] at fits
    have low := ExprInfo.height_lt_of_around low
    simp only [height, membersHeight] at low
    have base := a.means_within (n := n) fits.2.1 (by omega)
    have index := b.means_within (n := n) fits.2.2 (by omega)
    refine means_expr fits.1 ⟨?_, ⟨base.readable, index.readable, trivial⟩, trivial⟩
    exact congrArg (Option.map fun (a, b) => Expr.subscript i a b)
      (some_of_two (f := Prod.mk) base.read index.read)
  | .call i callee args =>
    simp only [Expr.fits, Bool.and_eq_true] at fits
    have low := ExprInfo.height_lt_of_around low
    simp only [height, membersHeight] at low
    have args := means_exprs args (n := n) fits.2 (by omega)
    refine means_expr fits.1 ⟨?_, ⟨trivial, args.readable, trivial⟩, trivial⟩
    exact some_of_two (f := Expr.call i) (means_string callee).read args.read
  | .closure i body =>
    simp only [Expr.fits, Bool.and_eq_true] at fits
    have low := ExprInfo.height_lt_of_around low
    simp only [height, membersHeight] at low
    have body := body.means_within (n := n) fits.2 (by omega)
    refine means_expr fits.1 ⟨?_, ⟨body.readable, trivial⟩, trivial⟩
    exact some_of_one (f := Expr.closure i) body.read

theorem means_exprs (l : List Expr) {n : Nat} (fits : exprsFit l)
    (low : itemsHeight (exprsToJson l) < n) :
    Means (.list (within n).expr) (.arr (exprsToJson l)) l := by
  match l with
  | [] => exact means_nil
  | e :: rest =>
    rw [exprsFit, Bool.and_eq_true] at fits
    rw [exprsToJson, itemsHeight] at low
    exact means_cons (e.means_within fits.1 (by omega)) (means_exprs rest fits.2 (by omega))

theorem means_optionalExpr (e : Option Expr) {n : Nat} (fits : optionalExprFits e)
    (low : (exprToJson? e).height < n) : Means (.option (within n).expr) (exprToJson? e) e := by
  match e with
  | none => exact means_none
  | some e => exact means_some (expr_null n) (e.means_within fits low)

theorem Stmt.means_within (s : Stmt) {n : Nat} (fits : s.fits) (low : s.toJson.height < n) :
    Means (within n).stmt s.toJson s := by
  obtain ⟨n, rfl⟩ : ∃ m, n = m + 1 := ⟨n - 1, by omega⟩
  match s with
  | .expr l e =>
    simp only [Stmt.fits, Bool.and_eq_true] at fits
    have low := Location.height_lt_of_around low
    have e := e.means_within (n := n) fits.2 low
    refine means_stmt fits.1 ⟨?_, e.readable, trivial⟩
    exact some_of_one (f := Stmt.expr l) e.read
  | .decl l inits =>
    simp only [Stmt.fits, Bool.and_eq_true] at fits
    have low := Location.height_lt_of_around low
    simp only [height] at low
    have inits := means_inits inits (n := n) fits.2 (by omega)
    refine means_stmt fits.1 ⟨?_, inits.readable, trivial⟩
    exact some_of_one (f := Stmt.decl l) inits.read
  | .block l stmts =>
    simp only [Stmt.fits, Bool.and_eq_true] at fits
    have low := Location.height_lt_of_around low
    simp only [height] at low
    have stmts := means_stmts stmts (n := n) fits.2 (by omega)
    refine means_stmt fits.1 ⟨?_, stmts.readable, trivial⟩
    exact some_of_one (f := Stmt.block l) stmts.read
  | .forLoop l init cond inc body =>
    simp only [Stmt.fits, Bool.and_eq_true] at fits
    have low := Location.height_lt_of_around low
    simp only [height, membersHeight] at low
    have init := means_optionalStmt init (n := n) fits.2.1 (by omega)
    have cond := means_optionalExpr cond (n := n) fits.2.2.1 (by omega)
    have inc := means_optionalExpr inc (n := n) fits.2.2.2.1 (by omega)
    have body := body.means_within (n := n) fits.2.2.2.2 (by omega)
    refine means_stmt fits.1
      ⟨?_, ⟨init.readable, cond.readable, inc.readable, body.readable, trivial⟩, trivial⟩
    exact some_of_four (f := Stmt.forLoop l) init.read cond.read inc.read body.read
  | .whileLoop l cond body =>
    simp only [Stmt.fits, Bool.and_eq_true] at fits
    have low := Location.height_lt_of_around low
    simp only [height, membersHeight] at low
    have cond := cond.means_within (n := n) fits.2.1 (by omega)
    have body := body.means_within (n := n) fits.2.2 (by omega)
    refine means_stmt fits.1 ⟨?_, ⟨cond.readable, body.readable, trivial⟩, trivial⟩
    exact some_of_two (f := Stmt.whileLoop l) cond.read body.read
  | .branch l cond a b =>
    simp only [Stmt.fits, Bool.and_eq_true] at fits
    have low := Location.height_lt_of_around low
    simp only [height, membersHeight] at low
    have cond := cond.means_within (n := n) fits.2.1 (by omega)
    have first := a.means_within (n := n) fits.2.2.1 (by omega)
    have second := means_optionalStmt b (n := n) fits.2.2.2 (by omega)
    refine means_stmt fits.1
      ⟨?_, ⟨cond.readable, first.readable, second.readable, trivial⟩, trivial⟩
    exact some_of_three (f := Stmt.branch l) cond.read first.read second.read
  | .region l r =>
    simp only [Stmt.fits, Bool.and_eq_true] at fits
    have low := Location.height_lt_of_around low
    have r := r.means_region (n := n) fits.2 low
    refine means_stmt fits.1 ⟨?_, r.readable, trivial⟩
    exact some_of_one (f := Stmt.region l) r.read
  | .null l => exact means_stmt fits ⟨rfl, trivial⟩

theorem means_inits (l : List DeclInit) {n : Nat} (fits : initsFit l)
    (low : itemsHeight (initsToJson l) < n) :
    Means (.list (within n).init) (.arr (initsToJson l)) l := by
  match l with
  | [] => exact means_nil
  | { decl, init } :: rest =>
    simp only [initsFit, Bool.and_eq_true] at fits
    simp only [initsToJson, itemsHeight, height, membersHeight] at low
    have id := DeclId.means fits.1.1
    have value := means_optionalExpr init (n := n) fits.1.2 (by omega)
    refine means_cons ⟨?_, id.readable, value.readable, trivial⟩ (means_inits rest fits.2 (by omega))
    have names : ["decl", "init"].Nodup := by decide
    refine bind_of_some rfl ?_
    refine bind_of_some (Record.required_eq names rfl id) ?_
    refine bind_of_some (Record.optional_eq names rfl value) ?_
    rfl

theorem means_stmts (l : List Stmt) {n : Nat} (fits : stmtsFit l)
    (low : itemsHeight (stmtsToJson l) < n) :
    Means (.list (within n).stmt) (.arr (stmtsToJson l)) l := by
  match l with
  | [] => exact means_nil
  | s :: rest =>
    rw [stmtsFit, Bool.and_eq_true] at fits
    rw [stmtsToJson, itemsHeight] at low
    exact means_cons (s.means_within fits.1 (by omega)) (means_stmts rest fits.2 (by omega))

theorem means_optionalStmt (s : Option Stmt) {n : Nat} (fits : optionalStmtFits s)
    (low : (stmtToJson? s).height < n) : Means (.option (within n).stmt) (stmtToJson? s) s := by
  match s with
  | none => exact means_none
  | some s => exact means_some (stmt_null n) (s.means_within fits low)

theorem Region.means_region (r : Region) {n : Nat} (fits : r.fits) (low : r.toJson.height < n) :
    Means (within n).region r.toJson r := by
  match r with
  | { kind, name, cancelTarget, clauses, body, location, dependent } =>
    simp only [Region.fits, Bool.and_eq_true] at fits
    simp only [Region.toJson, height, membersHeight] at low
    have is := means_member kind
    have named : Means (.option .string) (ofOption .str name) name :=
      means_option rfl means_string
    have target : Means (.option .member) (ofOption ofMember cancelTarget) cancelTarget :=
      means_option rfl means_member
    have clauses := means_clauses clauses (n := n) fits.1 (by omega)
    have body := means_optionalStmt body (n := n) fits.2.1 (by omega)
    have place := Location.means fits.2.2
    constructor
    · have names : ["kind", "name", "cancel_target", "clauses", "body", "location",
          "dependent"].Nodup := by decide
      refine bind_of_some rfl ?_
      refine bind_of_some (Record.required_eq names rfl is) ?_
      refine bind_of_some (Record.defaulted_eq names rfl named) ?_
      refine bind_of_some (Record.defaulted_eq names rfl target) ?_
      refine bind_of_some (Record.defaulted_eq names rfl clauses) ?_
      refine bind_of_some (Record.defaulted_eq names rfl body) ?_
      refine bind_of_some (Record.required_eq names rfl place) ?_
      refine bind_of_some (Record.defaulted_eq names rfl (means_bool _)) ?_
      rfl
    · exact ⟨is.readable, named.readable, target.readable, clauses.readable, body.readable,
        place.readable, trivial, trivial⟩

theorem means_clauses (l : List Clause) {n : Nat} (fits : clausesFit l)
    (low : itemsHeight (clausesToJson l) < n) :
    Means (.list (within n).clause) (.arr (clausesToJson l)) l := by
  match l with
  | [] => exact means_nil
  | c :: rest =>
    rw [clausesFit, Bool.and_eq_true] at fits
    rw [clausesToJson, itemsHeight] at low
    exact means_cons (c.means_clause fits.1 (by omega)) (means_clauses rest fits.2 (by omega))

theorem Clause.means_clause (c : Clause) {n : Nat} (fits : c.fits) (low : c.toJson.height < n) :
    Means (within n).clause c.toJson c := by
  match c with
  | { kind, items, location } =>
    simp only [Clause.fits, Bool.and_eq_true] at fits
    simp only [Clause.toJson, height, membersHeight] at low
    have means := kind.means_kind (n := n) fits.1 (by omega)
    have listed : Means (.list ClauseItem.ofJson?) (ofList ClauseItem.toJson items) items :=
      means_list (fun _ => ClauseItem.means) fits.2.1
    have place := Location.means fits.2.2
    constructor
    · have names : ["kind", "items", "location"].Nodup := by decide
      refine bind_of_some rfl ?_
      refine bind_of_some (Record.required_eq names rfl means) ?_
      refine bind_of_some (Record.required_eq names rfl listed) ?_
      refine bind_of_some (Record.required_eq names rfl place) ?_
      rfl
    · exact ⟨means.readable, listed.readable, place.readable, trivial⟩

theorem ClauseKind.means_kind (k : ClauseKind) {n : Nat} (fits : k.fits)
    (low : k.toJson.height < n) : Means (within n).clauseKind k.toJson k := by
  match k with
  | .priv | .firstprivate | .shared | .copyin | .copyprivate | .isDevicePtr | .nowait | .untied
  | .simd | .threads | .mergeable => exact ⟨rfl, trivial⟩
  | .lastprivate c => exact ⟨rfl, ⟨trivial, trivial⟩, trivial⟩
  | .reduction op =>
    exact ⟨some_of_one (f := ClauseKind.reduction) (means_member op).read, trivial, trivial⟩
  | .taskReduction op =>
    exact ⟨some_of_one (f := ClauseKind.taskReduction) (means_member op).read, trivial, trivial⟩
  | .inReduction op =>
    exact ⟨some_of_one (f := ClauseKind.inReduction) (means_member op).read, trivial, trivial⟩
  | .map type => exact ⟨some_of_one (f := ClauseKind.map) (means_member type).read, trivial, trivial⟩
  | .default mode =>
    exact ⟨some_of_one (f := ClauseKind.default) (means_member mode).read, trivial, trivial⟩
  | .order kind =>
    exact ⟨some_of_one (f := ClauseKind.order) (means_member kind).read, trivial, trivial⟩
  | .defaultmap behavior category =>
    have selected := means_member behavior
    have limited : Means (.option .member) (ofOption ofMember category) category :=
      means_option rfl means_member
    exact ⟨some_of_two (f := ClauseKind.defaultmap) selected.read limited.read,
      ⟨selected.readable, limited.readable, trivial⟩, trivial⟩
  | .linear step =>
    simp only [ClauseKind.toJson, tagged, height, membersHeight] at low
    have step := means_optionalExpr step (n := n) fits (by omega)
    exact ⟨some_of_one (f := ClauseKind.linear) step.read, ⟨step.readable, trivial⟩, trivial⟩
  | .ordered e =>
    have e := means_optionalExpr e (n := n) fits (height_lt_of_tagged low)
    exact ⟨some_of_one (f := ClauseKind.ordered) e.read, e.readable, trivial⟩
  | .collapse e =>
    have e := e.means_within (n := n) fits (height_lt_of_tagged low)
    exact ⟨some_of_one (f := ClauseKind.collapse) e.read, e.readable, trivial⟩
  | .cond e =>
    have e := e.means_within (n := n) fits (height_lt_of_tagged low)
    exact ⟨some_of_one (f := ClauseKind.cond) e.read, e.readable, trivial⟩
  | .numThreads e =>
    have e := e.means_within (n := n) fits (height_lt_of_tagged low)
    exact ⟨some_of_one (f := ClauseKind.numThreads) e.read, e.readable, trivial⟩
  | .final e =>
    have e := e.means_within (n := n) fits (height_lt_of_tagged low)
    exact ⟨some_of_one (f := ClauseKind.final) e.read, e.readable, trivial⟩

end

theorem Expr.means {e : Expr} (fits : e.fits) : Means ofJson? e.toJson e :=
  have within := e.means_within fits (Nat.lt_succ_self _)
  ⟨within.read, within.readable⟩

theorem Stmt.means {s : Stmt} (fits : s.fits) : Means ofJson? s.toJson s :=
  have within := s.means_within fits (Nat.lt_succ_self _)
  ⟨within.read, within.readable⟩

theorem Program.means {p : Program} (fits : p.fits) : Means ofJson? p.toJson p := by
  rw [Program.fits, Bool.and_eq_true] at fits
  have decls := DeclTable.means fits.1
  have body : Means (.list Stmt.ofJson?) (ofList Stmt.toJson p.body) p.body :=
    means_list (fun _ => Stmt.means) fits.2
  exact ⟨some_of_two (f := Program.mk) decls.read body.read, decls.readable, body.readable, trivial⟩

end Directives
