import Directives.Loop.Eval
/-!
Values of expressions, in 128 bits and over unbounded integers. A value in 128 bits is the exact
one; a value depends only on the variables that the expression refers to; and replacing a variable
is the same as giving it the value of what replaces it.
-/

namespace Directives

namespace Bindings

/-- The bindings with one variable changed. -/
def set (env : Bindings) (d : DeclId) (v : Int) : Bindings :=
  fun x => if x = d then some v else env x

@[simp] theorem set_self (env : Bindings) (d : DeclId) (v : Int) : env.set d v d = some v := by
  simp [set]

theorem set_of_ne (env : Bindings) {d x : DeclId} (v : Int) (h : x ≠ d) :
    env.set d v x = env x := by
  simp [set, h]

@[simp] theorem set_set (env : Bindings) (d : DeclId) (v w : Int) :
    (env.set d v).set d w = env.set d w := by
  funext x
  by_cases h : x = d <;> simp [set, h]

theorem set_of_eq {env : Bindings} {d : DeclId} {v : Int} (h : env d = some v) :
    env.set d v = env := by
  funext x
  by_cases hx : x = d
  · rw [hx, set_self, h]
  · rw [set_of_ne _ _ hx]

theorem ofList_cons (d : DeclId) (v : Int) (b : List (DeclId × Int)) :
    ofList ((d, v) :: b) = (ofList b).set d v := by
  funext x
  by_cases hx : d = x
  · simp [ofList, set, hx]
  · simp [ofList, set, hx, Ne.symm hx]

end Bindings

namespace Wide

/-- The value is one of 128 bits. -/
def InRange (v : Int) : Prop := least ≤ v ∧ v ≤ greatest

theorem check_of_inRange {v : Int} (h : InRange v) : check v = some v :=
  check_eq_some.mpr ⟨rfl, h⟩

theorem inRange_of_check {v w : Int} (h : check v = some w) : InRange w := by
  obtain ⟨rfl, hr⟩ := check_eq_some.mp h
  exact hr

/-- A value in range wraps to itself. -/
theorem wrap_of_inRange {v : Int} (h : InRange v) : wrap v = v := by
  have half : (capacity 128 : Int) = 2 * capacity 127 := by decide
  have ends : -(capacity 127 : Int) ≤ v ∧ v ≤ capacity 127 - 1 := h
  exact Int.bmod_eq_of_le_mul_two (by omega) (by omega)

/-- What was wrapped before the sign is turned makes no difference after. -/
theorem wrap_neg_wrap (v : Int) : wrap (-wrap v) = wrap (-v) := Int.bmod_neg_bmod

theorem inRange_of_between {a b v : Int} (ha : InRange a) (hb : InRange b) (hav : a ≤ v)
    (hvb : v ≤ b) : InRange v :=
  ⟨Int.le_trans ha.1 hav, Int.le_trans hvb hb.2⟩

/-- A remainder lies between zero and the dividend. -/
theorem inRange_tmod {a : Int} (ha : InRange a) (b : Int) : InRange (a.tmod b) := by
  have size : (a.tmod b).natAbs ≤ a.natAbs := by
    rw [Int.natAbs_tmod]
    exact Nat.mod_le _ _
  have zero : InRange 0 := ⟨by decide, by decide⟩
  rcases Int.le_total 0 a with h | h
  · have := Int.tmod_nonneg b h
    exact inRange_of_between zero ha this (by omega)
  · have := Int.tmod_nonneg b (show 0 ≤ -a by omega)
    rw [Int.neg_tmod] at this
    exact inRange_of_between ha zero (by omega) (by omega)

theorem inRange_ofTruth (b : Bool) : InRange (ofTruth b) := by
  cases b <;> exact ⟨by decide, by decide⟩

end Wide

/-- The value of an operation over unbounded integers. -/
def BinaryOp.exact : BinaryOp → Int → Int → Option Int
  | .add, a, b => some (a + b)
  | .sub, a, b => some (a - b)
  | .mul, a, b => some (a * b)
  | .div, a, b => if b = 0 then none else some (a.tdiv b)
  | .rem, a, b => if b = 0 then none else some (a.tmod b)
  | op, a, b => op.apply a b

/-- The value of an operation with one operand over unbounded integers. -/
def UnaryOp.exact : UnaryOp → Int → Option Int
  | .neg, a => some (-a)
  | op, a => op.apply a

/-- Arithmetic of unbounded integers. -/
def Arithmetic.exact : Arithmetic := ⟨some, UnaryOp.exact, BinaryOp.exact⟩

/-- The value of an expression over unbounded integers. -/
def Expr.value (env : Bindings) (e : Expr) : Option Int := e.evalIn .exact env

/-- What has a value in `m` has the same in `m'`. -/
structure Arithmetic.Refines (m m' : Arithmetic) : Prop where
  literal : ∀ {v w}, m.literal v = some w → m'.literal v = some w
  unary : ∀ {op v w}, m.unary op v = some w → m'.unary op v = some w
  binary : ∀ {op v w x}, m.binary op v w = some x → m'.binary op v w = some x

theorem Arithmetic.Refines.refl (m : Arithmetic) : m.Refines m := ⟨id, id, id⟩

theorem UnaryOp.exact_of_apply {op : UnaryOp} {a v : Int} (h : op.apply a = some v) :
    op.exact a = some v := by
  cases op with
  | neg => exact congrArg some (Wide.check_eq_some.mp h).1.symm
  | _ => exact h

theorem BinaryOp.exact_of_apply {op : BinaryOp} {a b v : Int} (h : op.apply a b = some v) :
    op.exact a b = some v := by
  cases op with
  | add | sub | mul => exact congrArg some (Wide.check_eq_some.mp h).1.symm
  | div =>
    simp only [apply, Wide.div] at h
    split at h
    · cases h
    · rename_i hb
      rw [exact, if_neg hb, (Wide.check_eq_some.mp h).1]
  | rem =>
    simp only [apply, Wide.rem, Wide.div] at h
    split at h
    · cases h
    · rename_i hb
      obtain ⟨_, _, rfl⟩ := Option.map_eq_some_iff.mp h
      rw [exact, if_neg hb]
  | _ => exact h

theorem UnaryOp.inRange_of_apply {op : UnaryOp} {a v : Int} (h : op.apply a = some v) :
    Wide.InRange v := by
  cases op with
  | neg => exact Wide.inRange_of_check h
  | not => cases h; exact Wide.inRange_ofTruth _
  | _ => cases h

theorem BinaryOp.inRange_of_apply {op : BinaryOp} {a b v : Int} (ha : Wide.InRange a)
    (h : op.apply a b = some v) :
    Wide.InRange v := by
  cases op with
  | add | sub | mul => exact Wide.inRange_of_check h
  | div =>
    simp only [apply, Wide.div] at h
    split at h
    · cases h
    · exact Wide.inRange_of_check h
  | rem =>
    obtain ⟨_, _, rfl⟩ := Option.map_eq_some_iff.mp h
    exact Wide.inRange_tmod ha b
  | _ => cases h; exact Wide.inRange_ofTruth _

/-- A value in 128 bits is the exact one. -/
theorem Arithmetic.wide_refines : wide.Refines exact where
  literal h := congrArg some (Wide.check_eq_some.mp h).1.symm
  unary h := UnaryOp.exact_of_apply h
  binary h := BinaryOp.exact_of_apply h

namespace Expr

/-- Expressions of this form have no value. -/
def isValueless : Expr → Bool
  | .construct _ [_] => false
  | .assign _ _ _ | .compound _ _ _ _ | .construct _ _ | .subscript _ _ _ | .call _ _ _
  | .closure _ _ => true
  | _ => false

theorem evalIn_of_isValueless {e : Expr} (h : e.isValueless = true) (m : Arithmetic)
    (env : Bindings) : e.evalIn m env = none := by
  cases e with
  | construct i args =>
    match args with
    | [] => rfl
    | [_] => cases h
    | _ :: _ :: _ => rfl
  | assign | compound | subscript | call | closure => rfl
  | _ => cases h

/-- Induction over what an expression has its value from. -/
@[elab_as_elim]
theorem valueInduction {motive : Expr → Prop}
    (intLit : ∀ i v, motive (.intLit i v))
    (boolLit : ∀ i b, motive (.boolLit i b))
    (ref : ∀ i d, motive (.ref i d))
    (cast : ∀ i e, motive e → motive (.cast i e))
    (paren : ∀ i e, motive e → motive (.paren i e))
    (construct : ∀ i e, motive e → motive (.construct i [e]))
    (unary : ∀ i op e, motive e → motive (.unary i op e))
    (binary : ∀ i op a b, motive a → motive b → motive (.binary i op a b))
    (conditional : ∀ i c a b, motive c → motive a → motive b → motive (.conditional i c a b))
    (valueless : ∀ e : Expr, e.isValueless = true → motive e) (e : Expr) : motive e := by
  induction e using evalIn.induct with
  | case1 i v => exact intLit i v
  | case2 i b => exact boolLit i b
  | case3 i d => exact ref i d
  | case4 i e ih => exact cast i e ih
  | case5 i e ih => exact paren i e ih
  | case6 i e ih => exact construct i e ih
  | case7 i op e ih => exact unary i op e ih
  | case8 i op a b iha ihb => exact binary i op a b iha ihb
  | case9 i c a b ihc iha ihb => exact conditional i c a b ihc iha ihb
  | case10 e =>
    apply valueless e
    cases e with
    | construct i args =>
      match args with
      | [] => rfl
      | [e] => grind
      | _ :: _ :: _ => rfl
    | assign | compound | subscript | call | closure => rfl
    | _ => grind

/-! ## More bindings, finer arithmetic -/

/-- Further bindings and a finer arithmetic leave a value that there is already. -/
theorem evalIn_mono {m m' : Arithmetic} (hm : m.Refines m') {env env' : Bindings}
    (he : ∀ d v, env d = some v → env' d = some v) {e : Expr} {v : Int}
    (h : e.evalIn m env = some v) : e.evalIn m' env' = some v := by
  induction e using valueInduction generalizing v with
  | intLit => exact hm.literal h
  | boolLit => exact h
  | ref _ d => exact he d v h
  | cast _ e ih | paren _ e ih | construct _ e ih =>
    simp only [evalIn] at h ⊢
    exact ih h
  | unary _ op e ih =>
    simp only [evalIn, Option.bind_eq_bind, Option.bind_eq_some_iff] at h ⊢
    obtain ⟨w, hw, hv⟩ := h
    exact ⟨w, ih hw, hm.unary hv⟩
  | binary _ op a b iha ihb =>
    simp only [evalIn, Option.bind_eq_bind, Option.bind_eq_some_iff] at h ⊢
    obtain ⟨x, hx, y, hy, hv⟩ := h
    exact ⟨x, iha hx, y, ihb hy, hm.binary hv⟩
  | conditional _ c a b ihc iha ihb =>
    simp only [evalIn, Option.bind_eq_bind, Option.bind_eq_some_iff] at h ⊢
    obtain ⟨x, hx, hv⟩ := h
    refine ⟨x, ihc hx, ?_⟩
    split at hv
    · rename_i hne; rw [if_pos hne]; exact iha hv
    · rename_i hne; rw [if_neg hne]; exact ihb hv
  | valueless e he => rw [evalIn_of_isValueless he] at h; cases h

theorem value_of_eval {env : Bindings} {e : Expr} {v : Int} (h : e.eval env = some v) :
    e.value env = some v :=
  evalIn_mono Arithmetic.wide_refines (fun _ _ => id) h

theorem eval_of_constant {e : Expr} {v : Int} (h : e.constant? = some v) (env : Bindings) :
    e.eval env = some v :=
  evalIn_mono (.refl _) (by intro d v h; cases h) h

theorem value_of_constant {e : Expr} {v : Int} (h : e.constant? = some v) (env : Bindings) :
    e.value env = some v :=
  value_of_eval (eval_of_constant h env)

/-! ## The variables that a value depends on -/

/-- Bindings that agree on the variables of an expression give it the same value. -/
theorem evalIn_congr {m : Arithmetic} {env env' : Bindings} {e : Expr}
    (h : ∀ d, e.references d = true → env d = env' d) : e.evalIn m env = e.evalIn m env' := by
  induction e using valueInduction with
  | intLit => rfl
  | boolLit => rfl
  | ref _ d => exact h d (by simp [references, refs])
  | cast _ e ih | paren _ e ih =>
    simp only [evalIn]
    exact ih fun d hd => h d (by simpa [references, refs] using hd)
  | construct _ e ih =>
    simp only [evalIn]
    exact ih fun d hd => h d (by simpa [references, refs, refsOfExprs] using hd)
  | unary _ op e ih =>
    simp only [evalIn]
    rw [ih fun d hd => h d (by simpa [references, refs] using hd)]
  | binary i op a b iha ihb =>
    simp only [evalIn]
    have left {d : DeclId} (hd : a.references d = true) :
        (Expr.binary i op a b).references d = true := by
      simpa [references, refs] using .inl (by simpa [references] using hd)
    have right {d : DeclId} (hd : b.references d = true) :
        (Expr.binary i op a b).references d = true := by
      simpa [references, refs] using .inr (by simpa [references] using hd)
    rw [iha fun d hd => h d (left hd), ihb fun d hd => h d (right hd)]
  | conditional _ c a b ihc iha ihb =>
    simp only [evalIn]
    rw [ihc fun d hd => h d (by simp_all [references, refs]),
      iha fun d hd => h d (by simp_all [references, refs]),
      ihb fun d hd => h d (by simp_all [references, refs])]
  | valueless e he => rw [evalIn_of_isValueless he, evalIn_of_isValueless he]

/-- The value of a variable that an expression does not refer to is of no concern. -/
theorem evalIn_set {m : Arithmetic} {env : Bindings} {e : Expr} {d : DeclId} (v : Int)
    (h : e.references d = false) : e.evalIn m (env.set d v) = e.evalIn m env := by
  apply evalIn_congr
  intro x hx
  apply Bindings.set_of_ne
  rintro rfl
  rw [h] at hx
  cases hx

/-- Values in 128 bits are in range where those of the variables are. -/
theorem eval_inRange {env : Bindings} (he : ∀ d v, env d = some v → Wide.InRange v) {e : Expr}
    {v : Int} (h : e.eval env = some v) : Wide.InRange v := by
  unfold eval at h
  induction e using valueInduction generalizing v with
  | intLit => exact Wide.inRange_of_check h
  | boolLit => cases h; exact Wide.inRange_ofTruth _
  | ref _ d => exact he d v h
  | cast _ e ih | paren _ e ih | construct _ e ih =>
    simp only [evalIn] at h
    exact ih h
  | unary _ op e ih =>
    simp only [evalIn, Option.bind_eq_bind, Option.bind_eq_some_iff] at h
    obtain ⟨w, hw, hv⟩ := h
    exact UnaryOp.inRange_of_apply hv
  | binary _ op a b iha ihb =>
    simp only [evalIn, Option.bind_eq_bind, Option.bind_eq_some_iff] at h
    obtain ⟨x, hx, y, hy, hv⟩ := h
    exact BinaryOp.inRange_of_apply (iha hx) hv
  | conditional _ c a b ihc iha ihb =>
    simp only [evalIn, Option.bind_eq_bind, Option.bind_eq_some_iff] at h
    obtain ⟨x, hx, hv⟩ := h
    split at hv
    · exact iha hv
    · exact ihb hv
  | valueless e he => rw [evalIn_of_isValueless he] at h; cases h

/-! ## Operations -/

theorem eval_binary (env : Bindings) (i : ExprInfo) (op : BinaryOp) (a b : Expr) :
    (binary i op a b).eval env = (a.eval env).bind fun v => (b.eval env).bind (op.apply v) := rfl

theorem value_binary (env : Bindings) (i : ExprInfo) (op : BinaryOp) (a b : Expr) :
    (binary i op a b).value env = (a.value env).bind fun v => (b.value env).bind (op.exact v) := rfl

theorem eval_neg (env : Bindings) (i : ExprInfo) (e : Expr) :
    (unary i .neg e).eval env = (e.eval env).bind fun v => Wide.check (-v) := rfl

theorem value_neg (env : Bindings) (i : ExprInfo) (e : Expr) :
    (unary i .neg e).value env = (e.value env).bind fun v => some (-v) := rfl

/-- An operation that has a value has it from values of its operands. -/
theorem exists_operands {env : Bindings} {i : ExprInfo} {op : BinaryOp} {e₁ e₂ : Expr} {v : Int}
    (h : (binary i op e₁ e₂).eval env = some v) :
    ∃ p q, e₁.eval env = some p ∧ e₂.eval env = some q ∧ op.apply p q = some v := by
  obtain ⟨p, left, h⟩ := Option.bind_eq_some_iff.mp h
  obtain ⟨q, right, result⟩ := Option.bind_eq_some_iff.mp h
  exact ⟨p, q, left, right, result⟩

/-! ## Wrappers and replacement -/

@[simp] theorem evalIn_castTo (m : Arithmetic) (env : Bindings) (e : Expr) (ty : Ty) :
    (e.castTo ty).evalIn m env = e.evalIn m env := by
  unfold castTo
  split <;> rfl

theorem evalIn_unwrapped (m : Arithmetic) (env : Bindings) (e : Expr) :
    e.unwrapped.evalIn m env = e.evalIn m env := by
  fun_induction unwrapped e with
  | case1 _ e ih | case2 _ e ih | case3 _ e ih => simpa only [evalIn] using ih
  | case4 => rfl

theorem evalIn_of_decl? {m : Arithmetic} {env : Bindings} {e : Expr} {d : DeclId}
    (h : e.decl? = some d) : e.evalIn m env = env d := by
  unfold decl? at h
  rw [← evalIn_unwrapped]
  split at h
  · rename_i hu; cases h; rw [hu, evalIn]
  · cases h

theorem eval_ofInt {v : Int} (h : Wide.InRange v) (env : Bindings) (ty : Ty) (l : Location) :
    (Expr.ofInt v ty l).eval env = some v :=
  Wide.check_of_inRange h

theorem eval_mkBinary {env : Bindings} {a b : Expr} {v w : Int} (ha : a.eval env = some v)
    (hb : b.eval env = some w) (op : BinaryOp) : (mkBinary op a b).eval env = op.apply v w := by
  rw [mkBinary, eval_binary, ha, hb, Option.bind_some, Option.bind_some]

/-- An operation has a value where both operands have one, and it is defined on these. -/
theorem eval_arith_eq_bind (env : Bindings) (op : BinaryOp) (a b : Expr) (ty : Ty) :
    (arith op a b ty).eval env = (a.eval env).bind fun v => (b.eval env).bind (op.apply v) := by
  rw [arith, eval_binary, eval, evalIn_castTo, eval, evalIn_castTo]
  rfl

theorem eval_arith {env : Bindings} {a b : Expr} {v w : Int} (ha : a.eval env = some v)
    (hb : b.eval env = some w) (op : BinaryOp) (ty : Ty) :
    (arith op a b ty).eval env = op.apply v w := by
  rw [eval_arith_eq_bind, ha, hb, Option.bind_some, Option.bind_some]

theorem eval_mkConditional {env : Bindings} {c : Expr} {v : Int} (hc : c.eval env = some v)
    (a b : Expr) :
    (mkConditional c a b).eval env = if v ≠ 0 then a.eval env else b.eval env := by
  change (c.eval env).bind _ = _
  rw [hc]
  rfl

theorem isValueless_substitute {e : Expr} (h : e.isValueless = true) (d : DeclId) (r : Expr) :
    (e.substitute d r).isValueless = true := by
  cases e with
  | construct i args =>
    match args with
    | [] => rfl
    | [_] => cases h
    | _ :: _ :: _ => rfl
  | assign | compound | subscript | call | closure => rfl
  | _ => cases h

/-- Replacing a variable gives it the value of its replacement. -/
theorem evalIn_substitute (m : Arithmetic) (env : Bindings) (e r : Expr) (d : DeclId) :
    (e.substitute d r).evalIn m env =
      e.evalIn m (fun x => if x = d then r.evalIn m env else env x) := by
  induction e using valueInduction with
  | intLit => rfl
  | boolLit => rfl
  | ref i x =>
    rw [substitute]
    split
    · rename_i hx; rw [evalIn_castTo, evalIn, if_pos hx]
    · rename_i hx; rw [evalIn, evalIn, if_neg hx]
  | cast _ e ih | paren _ e ih => simpa only [substitute, evalIn] using ih
  | construct _ e ih => simpa only [substitute, substituteAll, evalIn] using ih
  | unary _ op e ih => simp only [substitute, evalIn, ih]
  | binary _ op a b iha ihb => simp only [substitute, evalIn, iha, ihb]
  | conditional _ c a b ihc iha ihb => simp only [substitute, evalIn, ihc, iha, ihb]
  | valueless e he =>
    rw [evalIn_of_isValueless he, evalIn_of_isValueless (isValueless_substitute he d r)]

/-- Replacing a variable evaluates an expression where the variable has the value of its
replacement. -/
theorem eval_substitute {env : Bindings} {e r : Expr} {d : DeclId} {v : Int}
    (h : r.eval env = some v) : (e.substitute d r).eval env = e.eval (env.set d v) := by
  have same : (fun x => if x = d then r.eval env else env x) = env.set d v := by
    funext x
    rw [h]
    rfl
  rw [← same]
  exact evalIn_substitute ..

/-- An expression in which a variable is replaced has the value that it has itself where the variable has
the value of the replacement, or none if that has none. With values in a list, the value of the
replacement comes to stand in front. -/
theorem substitute_binds (e r : Expr) (d : DeclId) :
    (∀ env : Bindings, (e.substitute d r).eval env =
        e.eval fun x => if x = d then r.eval env else env x) ∧
      (∀ (env : Bindings) (v : Int), r.eval env = some v →
        (e.substitute d r).eval env = e.eval (env.set d v)) ∧
      ∀ (b : List (DeclId × Int)) (v : Int), r.eval (.ofList b) = some v →
        (e.substitute d r).eval (.ofList b) = e.eval (.ofList ((d, v) :: b)) := by
  refine ⟨fun env => evalIn_substitute .wide env e r d, fun env v => eval_substitute, fun b v value => ?_⟩
  rw [eval_substitute value, Bindings.ofList_cons]

/-- In a choice `x` is replaced by `n - 3`, which is zero where `n` is 3. The choice is 7 then, although the
alternative `12 / x` has no value, and with this alternative alone there is none. -/
theorem substitute_binds_untaken :
    let var (id : Nat) : Expr := .ofDecl ⟨id⟩ .int32 {}
    let r : Expr := .castTo (.mkBinary .sub (var 1) (.ofInt 3 .int32 {})) .int64
    let quotient : Expr := .mkBinary .div (.ofInt 12 .int32 {}) (var 0)
    let choice : Expr :=
      .mkConditional (.mkBinary .eq (var 0) (.ofInt 0 .int32 {})) (.ofInt 7 .int32 {}) quotient
    r.eval (.ofList [(⟨1⟩, 3)]) = some 0 ∧
      (choice.substitute ⟨0⟩ r).eval (.ofList [(⟨1⟩, 3)]) = some 7 ∧
      choice.eval (.ofList [(⟨0⟩, 0), (⟨1⟩, 3)]) = some 7 ∧
      (quotient.substitute ⟨0⟩ r).eval (.ofList [(⟨1⟩, 3)]) = none := by
  intro var r quotient choice
  have value : r.eval (.ofList [(⟨1⟩, 3)]) = some 0 := by decide
  have taken : choice.eval (.ofList [(⟨0⟩, 0), (⟨1⟩, 3)]) = some 7 := by decide
  have undefined : quotient.eval (.ofList [(⟨0⟩, 0), (⟨1⟩, 3)]) = none := by decide
  exact ⟨value, ((substitute_binds choice r ⟨0⟩).2.2 _ 0 value).trans taken, taken,
    ((substitute_binds quotient r ⟨0⟩).2.2 _ 0 value).trans undefined⟩

end Expr

end Directives
