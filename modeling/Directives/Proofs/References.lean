import Directives.Proofs.Affine
import Directives.Proofs.SourceOrder
/-!
References in expressions: an expression refers to what its operands refer to. Where a variable is
replaced, references to others stay, and in an expression that is affine in it none to it is left.
-/

namespace Directives

theorem refsOfExprs_eq_flatMap (l : List Expr) : refsOfExprs l = l.flatMap (·.refs) := by
  induction l with
  | nil => rfl
  | cons e rest ih => rw [refsOfExprs, ih, List.flatMap_cons]

theorem refsOfExpr?_eq_flatMap (e : Option Expr) : refsOfExpr? e = e.toList.flatMap (·.refs) := by
  cases e <;> simp [refsOfExpr?]

theorem refsOfStmts_eq_flatMap (l : List Stmt) : refsOfStmts l = l.flatMap (·.refs) := by
  induction l with
  | nil => rfl
  | cons s rest ih => rw [refsOfStmts, ih, List.flatMap_cons]

theorem refsOfStmt?_eq_flatMap (s : Option Stmt) : refsOfStmt? s = s.toList.flatMap (·.refs) := by
  cases s <;> simp [refsOfStmt?]

theorem refsOfInits_eq_flatMap (l : List DeclInit) :
    refsOfInits l = (l.filterMap (·.init)).flatMap (·.refs) := by
  induction l with
  | nil => rfl
  | cons i rest ih =>
    obtain ⟨d, init⟩ := i
    cases init <;> simp [refsOfInits, refsOfExpr?, ih]

namespace Expr

variable {e r : Expr} {c d : DeclId} {k : Nat}

/-- What holds of an expression whenever it holds of its operands holds of all expressions. -/
theorem operandInduction {motive : Expr → Prop}
    (step : ∀ e, (∀ a ∈ e.operands, motive a) → motive e) (e : Expr) : motive e :=
  step e fun a _ => operandInduction step a
termination_by sizeOf e
decreasing_by exact sizeOf_lt_of_mem_operands ‹_›

/-- The variables to which an expression refers without its operands. -/
def ownRefs : Expr → List DeclId
  | .ref _ d => [d]
  | .closure _ body => body.refs.map (·.1)
  | _ => []

theorem references_iff :
    e.references c = true ↔ c ∈ e.ownRefs ∨ ∃ a ∈ e.operands, a.references c = true := by
  have split : e.refs.map (·.1) = e.ownRefs ++ e.operands.flatMap fun a => a.refs.map (·.1) := by
    cases e <;> simp [refs, ownRefs, operands, refsOfExprs_eq_flatMap, List.map_flatMap]
  have mem (a : Expr) : a.references c = true ↔ c ∈ a.refs.map (·.1) := by
    simp [references]
  simp only [mem, split, List.mem_append, List.mem_flatMap]

@[simp] theorem references_castTo (e : Expr) (ty : Ty) (c : DeclId) :
    (e.castTo ty).references c = e.references c := by
  unfold castTo
  split <;> rfl

@[simp] theorem references_ofInt (v : Int) (ty : Ty) (l : Location) (c : DeclId) :
    (ofInt v ty l).references c = false := rfl

@[simp] theorem references_binary (i : ExprInfo) (op : BinaryOp) (a b : Expr) (c : DeclId) :
    (binary i op a b).references c = (a.references c || b.references c) := by
  simp [references, refs]

@[simp] theorem references_mkBinary (op : BinaryOp) (a b : Expr) (c : DeclId) :
    (mkBinary op a b).references c = (a.references c || b.references c) :=
  references_binary ..

@[simp] theorem references_arith (op : BinaryOp) (a b : Expr) (ty : Ty) (c : DeclId) :
    (arith op a b ty).references c = (a.references c || b.references c) := by
  simp [arith]

@[simp] theorem references_mkConditional (e a b : Expr) (c : DeclId) :
    (mkConditional e a b).references c = (e.references c || a.references c || b.references c) := by
  simp [mkConditional, references, refs, Bool.or_assoc]

theorem substituteAll_eq_map (l : List Expr) (d : DeclId) (r : Expr) :
    substituteAll l d r = l.map (·.substitute d r) := by
  induction l with
  | nil => rfl
  | cons e rest ih => rw [substituteAll, ih, List.map_cons]

/-- Replacement is carried out in the operands, except that a reference is replaced as a whole. -/
theorem substitute_cases (e : Expr) (d : DeclId) (r : Expr) :
    (∃ i, e = .ref i d ∧ e.substitute d r = r.castTo i.ty) ∨
      ((e.substitute d r).ownRefs = e.ownRefs ∧
        (e.substitute d r).operands = e.operands.map (·.substitute d r)) := by
  cases e with
  | ref i v =>
    by_cases same : v = d
    · subst same
      exact .inl ⟨i, rfl, if_pos rfl⟩
    · rw [substitute, if_neg same]
      exact .inr ⟨rfl, rfl⟩
  | _ => exact .inr (by simp [substitute, ownRefs, operands, substituteAll_eq_map])

/-- Whatever the replaced expression refers to, it referred to before or the replacement does. -/
theorem references_of_substitute (h : (e.substitute d r).references c = true) :
    e.references c = true ∨ r.references c = true := by
  induction e using operandInduction with
  | step e ih =>
    obtain ⟨i, rfl, same⟩ | ⟨own, inside⟩ := e.substitute_cases d r
    · rw [same, references_castTo] at h
      exact .inr h
    · rw [references_iff, own, inside] at h
      rw [references_iff]
      rcases h with h | ⟨_, mem, h⟩
      · exact .inl (.inl h)
      · obtain ⟨a, ha, rfl⟩ := List.mem_map.mp mem
        exact (ih a ha h).imp_left fun h => .inr ⟨a, ha, h⟩

/-- References to other variables stay. -/
theorem references_substitute_of_ne (other : c ≠ d) (h : e.references c = true) :
    (e.substitute d r).references c = true := by
  induction e using operandInduction with
  | step e ih =>
    obtain ⟨i, rfl, same⟩ | ⟨own, inside⟩ := e.substitute_cases d r
    · simp [references, refs] at h
      exact absurd h.symm other
    · rw [references_iff] at h
      rw [references_iff, own, inside]
      rcases h with h | ⟨a, ha, h⟩
      · exact .inl h
      · exact .inr ⟨_, List.mem_map_of_mem ha, ih a ha h⟩

/-- In an expression that shows a degree in the variable, every reference to it is replaced. -/
theorem references_substitute_self (h : ShowsDegree d e k) (free : r.references d = false) :
    (e.substitute d r).references d = false := by
  induction h with
  | free absent =>
    refine Bool.eq_false_iff.mpr fun left => ?_
    obtain referred | referred := references_of_substitute left
    · rw [absent] at referred
      cases referred
    · rw [free] at referred
      cases referred
  | ref => rw [substitute, if_pos rfl, references_castTo, free]
  | cast _ ih | paren _ ih | neg _ ih => rwa [substitute]
  | construct _ ih => simpa [substitute, substituteAll, references, refs, refsOfExprs] using ih
  | sum _ _ _ ih₁ ih₂ | product _ _ ih₁ ih₂ => rw [substitute, references_binary, ih₁, ih₂, Bool.or_false]

end Expr

end Directives
