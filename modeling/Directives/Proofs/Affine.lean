import Directives.Proofs.Value
/-!
Expressions that are affine in a variable. Whatever values the other variables have, such an expression
is `a * v + c` for every value `v` of the variable, or it has a value for none of them; and where it has a
value in 128 bits at two values of the variable, it has one everywhere between the two: every operand
is affine as well, and so are all values on the way.
-/

namespace Directives

/-- `v` lies between `x` and `y`, whichever of these is less. -/
def Between (x y v : Int) : Prop := (x ≤ v ∧ v ≤ y) ∨ (y ≤ v ∧ v ≤ x)

theorem Between.affine {x y v : Int} (h : Between x y v) (a c : Int) :
    Between (a * x + c) (a * y + c) (a * v + c) := by
  have up {p q : Int} (hpq : p ≤ q) (ha : 0 ≤ a) : a * p + c ≤ a * q + c :=
    Int.add_le_add_right (Int.mul_le_mul_of_nonneg_left hpq ha) c
  have down {p q : Int} (hpq : p ≤ q) (ha : a ≤ 0) : a * q + c ≤ a * p + c :=
    Int.add_le_add_right (Int.mul_le_mul_of_nonpos_left ha hpq) c
  rcases h with ⟨hx, hy⟩ | ⟨hy, hx⟩ <;> rcases Int.le_total 0 a with ha | ha
  · exact .inl ⟨up hx ha, up hy ha⟩
  · exact .inr ⟨down hy ha, down hx ha⟩
  · exact .inr ⟨up hy ha, up hx ha⟩
  · exact .inl ⟨down hx ha, down hy ha⟩

theorem Between.inRange {x y v : Int} (h : Between x y v) (hx : Wide.InRange x)
    (hy : Wide.InRange y) : Wide.InRange v := by
  rcases h with ⟨h₁, h₂⟩ | ⟨h₁, h₂⟩
  · exact Wide.inRange_of_between hx hy h₁ h₂
  · exact Wide.inRange_of_between hy hx h₁ h₂

theorem Between.left (x y : Int) : Between x y x := by
  unfold Between; omega

theorem Between.right (x y : Int) : Between x y y := by
  unfold Between; omega

/-- The bindings of a single variable. -/
def Bindings.only (d : DeclId) (v : Int) : Bindings := Bindings.none.set d v

@[simp] theorem Bindings.only_self (d : DeclId) (v : Int) : Bindings.only d v d = some v := by
  simp [only]

namespace Expr

/-! ## Degrees -/

/-- How the form of an expression shows a degree in the variable. -/
inductive ShowsDegree (d : DeclId) : Expr → Nat → Prop where
  | free {e : Expr} (absent : e.references d = false) : ShowsDegree d e 0
  | ref {i} : ShowsDegree d (.ref i d) 1
  | cast {i} {e : Expr} {k : Nat} (operand : ShowsDegree d e k) : ShowsDegree d (.cast i e) k
  | paren {i} {e : Expr} {k : Nat} (operand : ShowsDegree d e k) : ShowsDegree d (.paren i e) k
  | construct {i} {e : Expr} {k : Nat} (operand : ShowsDegree d e k) :
      ShowsDegree d (.construct i [e]) k
  | neg {i} {e : Expr} {k : Nat} (operand : ShowsDegree d e k) : ShowsDegree d (.unary i .neg e) k
  | sum {i} {op : BinaryOp} {e₁ e₂ : Expr} {k₁ k₂ : Nat} (additive : op = .add ∨ op = .sub)
      (left : ShowsDegree d e₁ k₁) (right : ShowsDegree d e₂ k₂) :
      ShowsDegree d (.binary i op e₁ e₂) (max k₁ k₂)
  | product {i} {e₁ e₂ : Expr} {k₁ k₂ : Nat} (left : ShowsDegree d e₁ k₁)
      (right : ShowsDegree d e₂ k₂) : ShowsDegree d (.binary i .mul e₁ e₂) (k₁ + k₂)

variable {e e₁ e₂ : Expr} {d : DeclId} {env : Bindings} {k : Nat} {x y v p q a c : Int}

theorem showsDegree (h : e.degree? d = some k) : ShowsDegree d e k := by
  have absent {e : Expr} {k : Nat} (hr : ¬ e.references d = true) (h : some 0 = some k) :
      ShowsDegree d e k := by
    cases h
    exact .free (by simpa using hr)
  fun_induction degree? d e generalizing k with
  | case1 i u =>
    cases h
    split
    · rename_i hu
      exact hu ▸ .ref
    · rename_i hu
      exact .free (by simp [references, refs, hu])
  | case2 i e _ ih => exact .cast (ih h)
  | case4 i e _ ih => exact .paren (ih h)
  | case6 i e _ ih => exact .construct (ih h)
  | case8 i e _ ih => exact .neg (ih h)
  | case10 i e₁ e₂ _ ih₁ ih₂ | case11 i e₁ e₂ _ ih₁ ih₂ =>
    simp only [Option.bind_eq_bind, Option.bind_eq_some_iff, Option.pure_def, Option.some.injEq] at h
    obtain ⟨k₁, h₁, k₂, h₂, rfl⟩ := h
    exact .sum (by simp) (ih₁ h₁) (ih₂ h₂)
  | case12 i e₁ e₂ _ ih₁ ih₂ =>
    simp only [Option.bind_eq_bind, Option.bind_eq_some_iff, Option.pure_def, Option.some.injEq] at h
    obtain ⟨k₁, h₁, k₂, h₂, rfl⟩ := h
    exact .product (ih₁ h₁) (ih₂ h₂)
  | case13 | case15 => cases h
  | case3 _ _ hr | case5 _ _ hr | case7 _ _ hr | case9 _ _ hr | case14 _ _ _ _ hr
  | case16 _ _ _ _ _ _ _ hr =>
    exact absent hr h

/-- What is affine by its form shows a degree of at most one. -/
theorem exists_showsDegree (affine : e.isAffineIn d = true) : ∃ k ≤ 1, ShowsDegree d e k := by
  unfold isAffineIn at affine
  cases hk : e.degree? d with
  | none => rw [hk] at affine; cases affine
  | some k => exact ⟨k, by simpa [hk] using affine, showsDegree hk⟩

/-! ## With values of the other variables -/

/-- Over the values of a variable the expression is `a * v + c`, or has no value at all. Where the degree
is zero it does not depend on the variable. -/
def FollowsDegree (e : Expr) (d : DeclId) (k : Nat) (env : Bindings) : Prop :=
  (∀ v, e.value (env.set d v) = none) ∨
    ∃ a c, (k = 0 → a = 0) ∧ ∀ v, e.value (env.set d v) = some (a * v + c)

theorem followsDegree_of_not_references (h : e.references d = false) : e.FollowsDegree d k env := by
  have same (v : Int) : e.value (env.set d v) = e.value env := evalIn_set v h
  cases value : e.value env with
  | none => exact .inl fun v => (same v).trans value
  | some w =>
    refine .inr ⟨0, w, fun _ => rfl, fun v => (same v).trans ?_⟩
    rw [value, Int.zero_mul, Int.zero_add]

theorem FollowsDegree.neg {i : ExprInfo} (h : e.FollowsDegree d k env) :
    (Expr.unary i .neg e).FollowsDegree d k env := by
  obtain none | ⟨a, c, constant, values⟩ := h
  · exact .inl fun v => by rw [value_neg, none, Option.bind_none]
  · refine .inr ⟨-a, -c, fun hk => by rw [constant hk, Int.neg_zero], fun v => ?_⟩
    rw [value_neg, values, Option.bind_some, Int.neg_add, Int.neg_mul]

/-- An operation follows the degree if on affine operands it comes to an affine result. -/
theorem FollowsDegree.binary {i : ExprInfo} {op : BinaryOp} {f : Int → Int → Int} {k₁ k₂ : Nat}
    (h₁ : e₁.FollowsDegree d k₁ env) (h₂ : e₂.FollowsDegree d k₂ env)
    (exact : ∀ p q, op.exact p q = some (f p q))
    (affine : ∀ a₁ c₁ a₂ c₂, (k₁ = 0 → a₁ = 0) → (k₂ = 0 → a₂ = 0) →
      ∃ a c, (k = 0 → a = 0) ∧ ∀ v, f (a₁ * v + c₁) (a₂ * v + c₂) = a * v + c) :
    (Expr.binary i op e₁ e₂).FollowsDegree d k env := by
  obtain none | ⟨a₁, c₁, constant₁, values₁⟩ := h₁
  · exact .inl fun v => by rw [value_binary, none, Option.bind_none]
  · obtain none | ⟨a₂, c₂, constant₂, values₂⟩ := h₂
    · exact .inl fun v => by rw [value_binary, values₁, Option.bind_some, none, Option.bind_none]
    · obtain ⟨a, c, constant, values⟩ := affine a₁ c₁ a₂ c₂ constant₁ constant₂
      refine .inr ⟨a, c, constant, fun v => ?_⟩
      rw [value_binary, values₁, values₂, Option.bind_some, Option.bind_some, exact, values]

theorem ShowsDegree.follows (h : ShowsDegree d e k) (h1 : k ≤ 1) (env : Bindings) :
    e.FollowsDegree d k env := by
  induction h with
  | free absent => exact followsDegree_of_not_references absent
  | ref =>
    refine .inr ⟨1, 0, by omega, fun v => ?_⟩
    rw [Int.one_mul, Int.add_zero]
    exact Bindings.set_self ..
  | cast _ ih | paren _ ih | construct _ ih => exact ih h1
  | neg _ ih => exact (ih h1).neg
  | sum additive _ _ ih₁ ih₂ =>
    have h₁ := ih₁ (by omega)
    have h₂ := ih₂ (by omega)
    rcases additive with rfl | rfl
    · refine h₁.binary h₂ (fun _ _ => rfl) fun a₁ c₁ a₂ c₂ z₁ z₂ =>
        ⟨a₁ + a₂, c₁ + c₂, fun hz => ?_, fun v => ?_⟩
      · rw [z₁ (by omega), z₂ (by omega), Int.add_zero]
      · rw [Int.add_mul]
        omega
    · refine h₁.binary h₂ (fun _ _ => rfl) fun a₁ c₁ a₂ c₂ z₁ z₂ =>
        ⟨a₁ - a₂, c₁ - c₂, fun hz => ?_, fun v => ?_⟩
      · rw [z₁ (by omega), z₂ (by omega), Int.sub_zero]
      · rw [Int.sub_mul]
        omega
  -- the degrees add up to at most one, so that one of them is zero
  | @product i _ _ k₁ k₂ _ _ ih₁ ih₂ =>
    refine (ih₁ (by omega)).binary (ih₂ (by omega)) (fun _ _ => rfl) fun a₁ c₁ a₂ c₂ z₁ z₂ =>
      ⟨a₁ * c₂ + c₁ * a₂, c₁ * c₂, fun hz => ?_, fun v => ?_⟩
    · rw [z₁ (by omega), z₂ (by omega), Int.zero_mul, Int.mul_zero, Int.add_zero]
    · obtain hz | hz : k₁ = 0 ∨ k₂ = 0 := by omega
      · rw [z₁ hz, Int.zero_mul, Int.zero_add, Int.zero_mul, Int.zero_add, Int.mul_add, Int.mul_assoc]
      · rw [z₂ hz, Int.zero_mul, Int.zero_add, Int.mul_zero, Int.add_zero, Int.add_mul,
          Int.mul_right_comm]

/-- Where an expression that follows its degree has values in 128 bits at both ends, its exact values
between are in range. -/
theorem FollowsDegree.inRange (h : e.FollowsDegree d k env) (hx : e.eval (env.set d x) = some p)
    (hy : e.eval (env.set d y) = some q) (hp : Wide.InRange p) (hq : Wide.InRange q)
    (hv : Between x y v) : ∃ w, e.value (env.set d v) = some w ∧ Wide.InRange w := by
  have atX := value_of_eval hx
  have atY := value_of_eval hy
  obtain none | ⟨a, c, -, values⟩ := h
  · rw [none] at atX
    cases atX
  · rw [values] at atX atY
    cases atX
    cases atY
    exact ⟨_, values v, (hv.affine a c).inRange hp hq⟩

/-- An operation on affine operands has a value between the ends if the operands have. -/
theorem FollowsDegree.eval_binary {i : ExprInfo} {op : BinaryOp} {f : Int → Int → Int} {r₁ r₂ : Int}
    (h : (Expr.binary i op e₁ e₂).FollowsDegree d k env) (exact : ∀ p q, op.exact p q = some (f p q))
    (wide : ∀ p q, op.apply p q = Wide.check (f p q))
    (hx : (Expr.binary i op e₁ e₂).eval (env.set d x) = some p)
    (hy : (Expr.binary i op e₁ e₂).eval (env.set d y) = some q) (hv : Between x y v)
    (left : e₁.eval (env.set d v) = some r₁) (right : e₂.eval (env.set d v) = some r₂) :
    ∃ r, (Expr.binary i op e₁ e₂).eval (env.set d v) = some r := by
  have inRange {env : Bindings} {w : Int} (hw : (Expr.binary i op e₁ e₂).eval env = some w) :
      Wide.InRange w := by
    obtain ⟨p, q, -, -, result⟩ := exists_operands hw
    exact Wide.inRange_of_check ((wide p q).symm.trans result)
  obtain ⟨w, value, small⟩ := h.inRange hx hy (inRange hx) (inRange hy) hv
  rw [value_binary, value_of_eval left, value_of_eval right, Option.bind_some, Option.bind_some,
    exact] at value
  cases value
  rw [Expr.eval_binary, left, right, Option.bind_some, Option.bind_some, wide]
  exact ⟨_, Wide.check_of_inRange small⟩

theorem FollowsDegree.eval_neg {i : ExprInfo} {r : Int} (h : (Expr.unary i .neg e).FollowsDegree d k env)
    (hx : (Expr.unary i .neg e).eval (env.set d x) = some p)
    (hy : (Expr.unary i .neg e).eval (env.set d y) = some q) (hv : Between x y v)
    (operand : e.eval (env.set d v) = some r) :
    ∃ r, (Expr.unary i .neg e).eval (env.set d v) = some r := by
  have inRange {env : Bindings} {w : Int} (hw : (Expr.unary i .neg e).eval env = some w) :
      Wide.InRange w := by
    obtain ⟨p, -, result⟩ := Option.bind_eq_some_iff.mp hw
    exact Wide.inRange_of_check result
  obtain ⟨w, value, small⟩ := h.inRange hx hy (inRange hx) (inRange hy) hv
  rw [value_neg, value_of_eval operand, Option.bind_some] at value
  cases value
  rw [Expr.eval_neg, operand, Option.bind_some]
  exact ⟨_, Wide.check_of_inRange small⟩

/-- An expression of degree at most one that has values in 128 bits at both ends has one everywhere
between. -/
theorem ShowsDegree.eval_between (h : ShowsDegree d e k) (h1 : k ≤ 1)
    (hx : e.eval (env.set d x) = some p) (hy : e.eval (env.set d y) = some q) (hv : Between x y v) :
    ∃ r, e.eval (env.set d v) = some r := by
  induction h generalizing p q with
  | free absent => exact ⟨p, (evalIn_set v absent).trans ((evalIn_set x absent).symm.trans hx)⟩
  | ref => exact ⟨v, Bindings.set_self ..⟩
  | cast _ ih | paren _ ih | construct _ ih => exact ih h1 hx hy
  | neg operand ih =>
    obtain ⟨x', hx', -⟩ := Option.bind_eq_some_iff.mp hx
    obtain ⟨y', hy', -⟩ := Option.bind_eq_some_iff.mp hy
    obtain ⟨r, value⟩ := ih h1 hx' hy'
    exact (operand.neg.follows h1 env).eval_neg hx hy hv value
  | @sum i op e₁ e₂ k₁ k₂ additive left right ih₁ ih₂ =>
    obtain ⟨x₁, x₂, hx₁, hx₂, -⟩ := exists_operands hx
    obtain ⟨y₁, y₂, hy₁, hy₂, -⟩ := exists_operands hy
    obtain ⟨r₁, value₁⟩ := ih₁ (by omega) hx₁ hy₁
    obtain ⟨r₂, value₂⟩ := ih₂ (by omega) hx₂ hy₂
    have follows := (ShowsDegree.sum (i := i) additive left right).follows h1 env
    rcases additive with rfl | rfl
    · exact follows.eval_binary (fun _ _ => rfl) (fun _ _ => rfl) hx hy hv value₁ value₂
    · exact follows.eval_binary (fun _ _ => rfl) (fun _ _ => rfl) hx hy hv value₁ value₂
  | @product i e₁ e₂ k₁ k₂ left right ih₁ ih₂ =>
    obtain ⟨x₁, x₂, hx₁, hx₂, -⟩ := exists_operands hx
    obtain ⟨y₁, y₂, hy₁, hy₂, -⟩ := exists_operands hy
    obtain ⟨r₁, value₁⟩ := ih₁ (by omega) hx₁ hy₁
    obtain ⟨r₂, value₂⟩ := ih₂ (by omega) hx₂ hy₂
    have follows := (ShowsDegree.product (i := i) left right).follows h1 env
    exact follows.eval_binary (fun _ _ => rfl) (fun _ _ => rfl) hx hy hv value₁ value₂

/-- What is affine by its form and has values in 128 bits at both ends is `a * v + c` for all values of
the variable, and between the ends it is so in 128 bits. -/
theorem eval_between (affine : e.isAffineIn d = true) (hx : e.eval (env.set d x) = some p)
    (hy : e.eval (env.set d y) = some q) :
    ∃ a c, (∀ v, e.value (env.set d v) = some (a * v + c)) ∧
      ∀ v, Between x y v → e.eval (env.set d v) = some (a * v + c) := by
  obtain ⟨k, h1, shows⟩ := exists_showsDegree affine
  obtain none | ⟨a, c, -, values⟩ := shows.follows h1 env
  · cases (none x).symm.trans (value_of_eval hx)
  · refine ⟨a, c, values, fun v hv => ?_⟩
    obtain ⟨r, hr⟩ := shows.eval_between h1 hx hy hv
    rw [hr, ← value_of_eval hr, values]

/-! ## Without other variables -/

/-- The expression is `a * d + c`, between `x` and `y` it is so in 128 bits, and no other variable
matters. -/
structure AffineOn (e : Expr) (d : DeclId) (x y a c : Int) : Prop where
  value : ∀ {env v}, env d = some v → e.value env = some (a * v + c)
  eval : ∀ {env v}, env d = some v → Between x y v → e.eval env = some (a * v + c)
  determined : ∀ {env env' : Bindings}, env d = env' d → e.eval env = e.eval env'

/-- An expression that has a value when only the variable has one does not depend on others. -/
theorem ShowsDegree.eval_congr (h : ShowsDegree d e k) (hx : e.eval (.only d x) = some p)
    {env env' : Bindings} (same : env d = env' d) : e.eval env = e.eval env' := by
  induction h generalizing p with
  | free absent =>
    have const : constant? _ = some p := (evalIn_set x absent).symm.trans hx
    rw [eval_of_constant const, eval_of_constant const]
  | ref => exact same
  | cast _ ih | paren _ ih | construct _ ih => exact ih hx
  | neg _ ih =>
    obtain ⟨x', hx', -⟩ := Option.bind_eq_some_iff.mp hx
    exact congrArg (Option.bind · _) (ih hx')
  | sum _ _ _ ih₁ ih₂ | product _ _ ih₁ ih₂ =>
    obtain ⟨x₁, x₂, hx₁, hx₂, -⟩ := exists_operands hx
    rw [eval_binary, eval_binary, ih₁ hx₁, ih₂ hx₂]

/-- What is affine by its form and has a value in 128 bits at both ends, when only the variable has one,
is affine between them. -/
theorem affineOn_of_isAffineIn (affine : e.isAffineIn d = true) (hx : e.eval (.only d x) = some p)
    (hy : e.eval (.only d y) = some q) : ∃ a c, AffineOn e d x y a c := by
  obtain ⟨k, -, shows⟩ := exists_showsDegree affine
  obtain ⟨a, c, values, between⟩ := eval_between affine hx hy
  have more {env : Bindings} {v : Int} (hd : env d = some v) :
      ∀ u w, Bindings.only d v u = some w → env u = some w := by
    intro u w hw
    by_cases hu : u = d
    · subst hu
      rw [Bindings.only_self] at hw
      exact hd.trans hw
    · rw [Bindings.only, Bindings.set_of_ne _ _ hu] at hw
      cases hw
  exact ⟨a, c, {
    value := fun hd => evalIn_mono (.refl _) (more hd) (values _)
    eval := fun hd hv => evalIn_mono (.refl _) (more hd) (between _ hv)
    determined := fun same => shows.eval_congr hx same }⟩

end Expr

end Directives
