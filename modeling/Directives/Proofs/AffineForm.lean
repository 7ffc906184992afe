import Directives.Proofs.References
/-!
The form of expressions that are affine in a variable. The test on the degree accepts just the sums and
differences of terms without the variable and of terms with it, in which it is scaled by factors that do not
refer to it. Such an expression runs along a line: whatever values the other variables have, it is
`a * v + c` at each value `v` of the variable at which it has a value, and it has one at all values between
two of these.
-/

namespace Directives

namespace Expr

/-- The form of an expression that is affine in the variable. -/
inductive AffineForm (d : DeclId) : Expr → Prop where
  | free {e : Expr} (absent : e.references d = false) : AffineForm d e
  | ref {i} : AffineForm d (.ref i d)
  | cast {i} {e : Expr} (inner : AffineForm d e) : AffineForm d (.cast i e)
  | paren {i} {e : Expr} (inner : AffineForm d e) : AffineForm d (.paren i e)
  | construct {i} {e : Expr} (inner : AffineForm d e) : AffineForm d (.construct i [e])
  | neg {i} {e : Expr} (inner : AffineForm d e) : AffineForm d (.unary i .neg e)
  | sum {i} {op : BinaryOp} {e₁ e₂ : Expr} (additive : op = .add ∨ op = .sub)
      (left : AffineForm d e₁) (right : AffineForm d e₂) : AffineForm d (.binary i op e₁ e₂)
  | scaled {i} {e₁ e₂ : Expr} (factor : e₁.references d = false) (term : AffineForm d e₂) :
      AffineForm d (.binary i .mul e₁ e₂)
  | scaledRight {i} {e₁ e₂ : Expr} (term : AffineForm d e₁) (factor : e₂.references d = false) :
      AffineForm d (.binary i .mul e₁ e₂)

variable {e e₁ e₂ : Expr} {d : DeclId} {k : Nat}

theorem degree?_of_not_references (absent : e.references d = false) : e.degree? d = some 0 := by
  have without : ¬ e.references d = true := Bool.eq_false_iff.mp absent
  fun_cases degree? d e with
  | case1 i v =>
    have other : ¬ v = d := by simpa [references, refs] using absent
    rw [if_neg other]
  | case2 | case4 | case6 | case8 | case10 | case11 | case12 | case13 | case15 => contradiction
  | case3 | case5 | case7 | case9 | case14 | case16 => rfl

/-- What shows the degree zero does not refer to the variable. -/
theorem ShowsDegree.not_references (h : ShowsDegree d e k) (zero : k = 0) : e.references d = false := by
  induction h with
  | free absent => exact absent
  | ref => cases zero
  | cast _ ih | paren _ ih | neg _ ih => simpa [references, refs] using ih zero
  | construct _ ih => simpa [references, refs, refsOfExprs] using ih zero
  | sum _ _ _ ih₁ ih₂ | product _ _ ih₁ ih₂ =>
    rw [references_binary, ih₁ (by omega), ih₂ (by omega), Bool.or_false]

theorem ShowsDegree.affineForm (h : ShowsDegree d e k) (h1 : k ≤ 1) : AffineForm d e := by
  induction h with
  | free absent => exact .free absent
  | ref => exact .ref
  | cast _ ih => exact .cast (ih h1)
  | paren _ ih => exact .paren (ih h1)
  | construct _ ih => exact .construct (ih h1)
  | neg _ ih => exact .neg (ih h1)
  | sum additive _ _ ih₁ ih₂ => exact .sum additive (ih₁ (by omega)) (ih₂ (by omega))
  | @product _ _ _ k₁ k₂ left right ih₁ ih₂ =>
    -- the degrees add up to at most one, so that one of the factors has the degree zero
    obtain zero | zero : k₁ = 0 ∨ k₂ = 0 := by omega
    · exact .scaled (left.not_references zero) (ih₂ (by omega))
    · exact .scaledRight (ih₁ (by omega)) (right.not_references zero)

theorem AffineForm.exists_degree? (h : AffineForm d e) : ∃ k ≤ 1, e.degree? d = some k := by
  induction h with
  | free absent => exact ⟨0, Nat.zero_le _, degree?_of_not_references absent⟩
  | ref => exact ⟨1, Nat.le_refl _, by simp [degree?]⟩
  | cast _ ih | paren _ ih | construct _ ih | neg _ ih =>
    rw [degree?]
    split
    · exact ih
    · exact ⟨0, Nat.zero_le _, rfl⟩
  | @sum i op e₁ e₂ additive _ _ ih₁ ih₂ =>
    obtain ⟨k₁, h₁, degree₁⟩ := ih₁
    obtain ⟨k₂, h₂, degree₂⟩ := ih₂
    have degree : (Expr.binary i op e₁ e₂).degree? d =
        if (Expr.binary i op e₁ e₂).references d then some (max k₁ k₂) else some 0 := by
      rcases additive with rfl | rfl <;> rw [degree?, degree₁, degree₂] <;> rfl
    rw [degree]
    split
    · exact ⟨max k₁ k₂, by omega, rfl⟩
    · exact ⟨0, Nat.zero_le _, rfl⟩
  | scaled factor _ ih =>
    obtain ⟨k, hk, degree⟩ := ih
    rw [degree?]
    split
    · exact ⟨0 + k, by omega, by rw [degree?_of_not_references factor, degree]; rfl⟩
    · exact ⟨0, Nat.zero_le _, rfl⟩
  | scaledRight _ factor ih =>
    obtain ⟨k, hk, degree⟩ := ih
    rw [degree?]
    split
    · exact ⟨k + 0, by omega, by rw [degree?_of_not_references factor, degree]; rfl⟩
    · exact ⟨0, Nat.zero_le _, rfl⟩

theorem isAffineIn_iff : e.isAffineIn d = true ↔ AffineForm d e := by
  constructor
  · intro affine
    obtain ⟨k, h1, shows⟩ := exists_showsDegree affine
    exact shows.affineForm h1
  · intro form
    obtain ⟨k, h1, degree⟩ := form.exists_degree?
    simp [isAffineIn, degree, h1]

/-- The test accepts just the expressions of affine form. Whatever values the other variables have, these
are `a * v + c` at each value `v` of the variable at which they have a value in 128 bits, with one `a` and
one `c` for all of them; and where they have a value at two values of the variable, they have one
everywhere between. -/
theorem affine_runs_straight (e : Expr) (d : DeclId) :
    (e.isAffineIn d = true ↔ AffineForm d e) ∧
      (e.isAffineIn d = true → ∀ env : Bindings, ∃ a c,
        (∀ v r, e.eval (env.set d v) = some r → r = a * v + c) ∧
          ∀ x y v, Between x y v → (e.eval (env.set d x)).isSome → (e.eval (env.set d y)).isSome →
            e.eval (env.set d v) = some (a * v + c)) := by
  refine ⟨isAffineIn_iff, fun affine env => ?_⟩
  obtain ⟨k, h1, shows⟩ := exists_showsDegree affine
  obtain ⟨a, c, line⟩ : ∃ a c, ∀ v r, e.eval (env.set d v) = some r → r = a * v + c := by
    obtain none | ⟨a, c, -, values⟩ := shows.follows h1 env
    · exact ⟨0, 0, fun v r hr => nomatch (none v).symm.trans (value_of_eval hr)⟩
    · exact ⟨a, c, fun v r hr => Option.some.inj ((value_of_eval hr).symm.trans (values v))⟩
  refine ⟨a, c, line, fun x y v between definedX definedY => ?_⟩
  obtain ⟨p, hx⟩ := Option.isSome_iff_exists.mp definedX
  obtain ⟨q, hy⟩ := Option.isSome_iff_exists.mp definedY
  obtain ⟨r, hr⟩ := shows.eval_between h1 hx hy between
  rw [hr, line v r hr]

/-- The expression `(2 * i) - n / m`, where `n` is 9 and `m` is 2. It is affine in `i` and comes to 6 at 5;
at the greatest value of `i` it has none. -/
theorem affine_runs_straight_partial :
    let var (id : Nat) : Expr := .ofDecl ⟨id⟩ .int32 {}
    let e : Expr :=
      .mkBinary .sub (.paren { ty := .int32, location := {} } (.mkBinary .mul (.ofInt 2 .int32 {}) (var 0)))
        (.mkBinary .div (var 1) (var 2))
    let env : Bindings := (Bindings.none.set ⟨1⟩ 9).set ⟨2⟩ 2
    e.isAffineIn ⟨0⟩ = true ∧ e.eval (env.set ⟨0⟩ 5) = some 6 ∧
      e.eval (env.set ⟨0⟩ Wide.greatest) = none ∧
      ∃ a c, ∀ v r, e.eval (env.set ⟨0⟩ v) = some r → r = a * v + c := by
  intro var e env
  have affine : e.isAffineIn ⟨0⟩ = true := by decide
  obtain ⟨a, c, line, -⟩ := (affine_runs_straight e ⟨0⟩).2 affine env
  exact ⟨affine, by decide, by decide, a, c, line⟩

end Expr

end Directives
