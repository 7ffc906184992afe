import Directives.Proofs.Progression
/-!
What a recognized header means. Initialization, condition and increment of the `for` statement do
to the counter what the fields of the header say, in any order of operands and behind any wrappers;
a negative constant step is the step of its magnitude in the other direction.
-/

namespace Directives

/-- Where the other variables have the values of `env`, the loop counts `d` from `lower` in steps,
as long as it is in the relation to `upper`. -/
structure ForHeader.Counts (f : ForHeader) (d : DeclId) (r : Relation) (ascending : Bool)
    (lower upper step : Int) (env : Bindings) : Prop where
  start : f.start env = some (env.set d lower)
  test : ∀ v, f.holds (env.set d v) = some (r.holds v upper)
  advance : ∀ v, f.advance (env.set d v) =
    some (env.set d (if ascending then v + step else v - step))

/-! ## Initialization -/

theorem Stmt.perform_of_loopInit? {s : Stmt} {d : DeclId} {e : Expr} {env : Bindings} {v : Int}
    (h : s.loopInit? = some (d, e)) (hv : e.value env = some v) :
    s.perform env = some (env.set d v) := by
  cases s with
  | expr l x =>
    simp only [loopInit?] at h
    split at h
    · rename_i hx
      obtain ⟨d', hd, h⟩ := Option.map_eq_some_iff.mp h
      cases h
      simp [perform, Expr.perform, hx, hd, hv]
    · cases h
  | decl l inits =>
    match inits with
    | [⟨x, some init⟩] =>
      cases h
      simp [perform, DeclInit.perform, hv]
    | [⟨_, none⟩] | [] | _ :: _ :: _ => cases h
  | _ => cases h

/-! ## Condition -/

/-- Comparisons in this arithmetic are those of integers. -/
def Arithmetic.Compares (m : Arithmetic) : Prop :=
  ∀ op r, op.relation? true = some r → ∀ a b, m.binary op a b = some (ofTruth (r.holds a b))

theorem Arithmetic.wide_compares : wide.Compares := by
  intro op r h a b
  cases op <;> cases h <;> rfl

theorem Arithmetic.exact_compares : exact.Compares := by
  intro op r h a b
  cases op <;> cases h <;> rfl

theorem BinaryOp.relation?_of_allowed {op : BinaryOp} {allowed : Bool} {r : Relation}
    (h : op.relation? allowed = some r) : op.relation? true = some r := by
  cases allowed with
  | true => exact h
  | false =>
    cases op with
    | ne => cases h
    | _ => exact h

/-- Exchanged operands are in the exchanged relation. -/
theorem BinaryOp.flipped_relation? {op : BinaryOp} {r : Relation}
    (h : op.flipped.relation? true = some r) :
    ∃ r', op.relation? true = some r' ∧ ∀ a b, r'.holds a b = r.holds b a := by
  cases op <;> cases h <;> refine ⟨_, rfl, fun a b => ?_⟩ <;> simp [Relation.holds]
  exact eq_comm

/-- The condition compares the counter with the bound, which does not refer to the counter. -/
theorem Expr.evalIn_loopCondition? {m : Arithmetic} (hm : m.Compares) {c u : Expr} {d : DeclId}
    {allowed : Bool} {r : Relation} (h : c.loopCondition? d allowed = some (r, u))
    {env : Bindings} {x : Int} :
    c.evalIn m env = some x ↔
      ∃ v w, env d = some v ∧ u.evalIn m env = some w ∧ x = ofTruth (r.holds v w) := by
  rw [← evalIn_unwrapped]
  simp only [loopCondition?] at h
  split at h
  · rename_i i op lhs rhs hc
    rw [hc, evalIn]
    simp only [Option.bind_eq_bind, Option.bind_eq_some_iff]
    split at h
    · rename_i hl
      simp only [Bool.and_eq_true, decide_eq_true_eq] at hl
      obtain ⟨r', hr, h⟩ := Option.map_eq_some_iff.mp h
      cases h
      have compare := hm op r (BinaryOp.relation?_of_allowed hr)
      rw [evalIn_of_decl? hl.1]
      constructor
      · rintro ⟨v, hv, w, hw, hx⟩
        rw [compare] at hx
        exact ⟨v, w, hv, hw, (Option.some.inj hx).symm⟩
      · rintro ⟨v, w, hv, hw, rfl⟩
        exact ⟨v, hv, w, hw, compare v w⟩
    · split at h
      · rename_i hr
        simp only [Bool.and_eq_true, decide_eq_true_eq] at hr
        obtain ⟨r', hflip, h⟩ := Option.map_eq_some_iff.mp h
        cases h
        obtain ⟨r', hr', same⟩ := BinaryOp.flipped_relation? (BinaryOp.relation?_of_allowed hflip)
        have compare := hm op r' hr'
        rw [evalIn_of_decl? hr.1]
        constructor
        · rintro ⟨w, hw, v, hv, hx⟩
          rw [compare, same] at hx
          exact ⟨v, w, hv, hw, (Option.some.inj hx).symm⟩
        · rintro ⟨v, w, hv, hw, rfl⟩
          exact ⟨w, hw, v, hv, same w v ▸ compare w v⟩
      · cases h
  · cases h

theorem Expr.references_of_loopCondition? {c u : Expr} {d : DeclId} {allowed : Bool} {r : Relation}
    (h : c.loopCondition? d allowed = some (r, u)) : u.references d = false := by
  simp only [loopCondition?] at h
  split at h
  · split at h
    · rename_i hl
      obtain ⟨_, _, h⟩ := Option.map_eq_some_iff.mp h
      cases h
      simpa using (Bool.and_eq_true_iff.mp hl).2
    · split at h
      · rename_i hr
        obtain ⟨_, _, h⟩ := Option.map_eq_some_iff.mp h
        cases h
        simpa using (Bool.and_eq_true_iff.mp hr).2
      · cases h
  · cases h

theorem Expr.isOrdering_of_unwrapped {c lhs rhs : Expr} {i : ExprInfo} {op : BinaryOp}
    (h : c.unwrapped = .binary i op lhs rhs) : c.isOrdering = op.isOrdering := by
  rw [isOrdering, h]

/-- The condition is an order comparison unless the loop runs until its counter equals the
bound. -/
theorem Expr.isOrdering_of_loopCondition? {c u : Expr} {d : DeclId} {allowed : Bool} {r : Relation}
    (h : c.loopCondition? d allowed = some (r, u)) : c.isOrdering = true ↔ r ≠ .notEqual := by
  simp only [loopCondition?] at h
  split at h
  · rename_i i op lhs rhs hc
    rw [isOrdering_of_unwrapped hc]
    split at h
    · obtain ⟨r', hr, h⟩ := Option.map_eq_some_iff.mp h
      cases h
      cases op <;> cases allowed <;> cases hr <;> simp [BinaryOp.isOrdering]
    · split at h
      · obtain ⟨r', hr, h⟩ := Option.map_eq_some_iff.mp h
        cases h
        cases op <;> cases allowed <;> cases hr <;> simp [BinaryOp.isOrdering]
      · cases h
  · cases h

/-! ## Increment -/

/-- The operation that moves a counter. -/
def BinaryOp.moving (subtract : Bool) : BinaryOp := if subtract then .sub else .add

/-- The forms of an increment of `d` by `e`. -/
inductive Expr.Increments (d : DeclId) (e : Expr) (subtract : Bool) : Expr → Prop where
  | step {i op operand} (isStep : op.isStep = true) (counter : operand.decl? = some d)
      (one : ∃ ty location, e = .ofInt 1 ty location) (direction : subtract = op.isDecrement) :
      Increments d e subtract (.unary i op operand)
  | compound {i lhs} (counter : lhs.decl? = some d) (free : e.references d = false) :
      Increments d e subtract (.compound i (.moving subtract) lhs e)
  | assign {i j lhs rhs a b} (counter : lhs.decl? = some d)
      (moved : rhs.unwrapped = .binary j (.moving subtract) a b)
      (operands : a.decl? = some d ∧ b = e ∨ subtract = false ∧ b.decl? = some d ∧ a = e)
      (free : e.references d = false) : Increments d e subtract (.assign i lhs rhs)

theorem Expr.increments_of_loopIncrement? {inc e : Expr} {d : DeclId} {subtract : Bool}
    (h : inc.loopIncrement? d = some (e, subtract)) : Increments d e subtract inc.unwrapped := by
  simp only [loopIncrement?] at h
  split at h
  · rename_i i op operand hi
    split at h
    · rename_i hc
      simp only [Bool.and_eq_true, decide_eq_true_eq] at hc
      cases h
      exact hi ▸ .step hc.1 hc.2 ⟨_, _, rfl⟩ rfl
    · cases h
  · rename_i i op lhs rhs hi
    split at h
    · rename_i hc
      simp only [Bool.and_eq_true, decide_eq_true_eq, Bool.not_eq_true'] at hc
      cases op <;> cases h <;> exact hi ▸ .compound hc.1 hc.2
    · cases h
  · rename_i i lhs rhs hi
    split at h
    · rename_i hl
      have hl := of_decide_eq_true hl
      split at h
      · rename_i j a b hb
        split at h
        · rename_i hc
          simp only [Bool.and_eq_true, decide_eq_true_eq, Bool.not_eq_true'] at hc
          cases h
          exact hi ▸ .assign hl hb (.inl ⟨hc.1, rfl⟩) hc.2
        · split at h
          · rename_i hc
            simp only [Bool.and_eq_true, decide_eq_true_eq, Bool.not_eq_true'] at hc
            cases h
            exact hi ▸ .assign hl hb (.inr ⟨rfl, hc.1, rfl⟩) hc.2
          · cases h
      · rename_i j a b hb
        split at h
        · rename_i hc
          simp only [Bool.and_eq_true, decide_eq_true_eq, Bool.not_eq_true'] at hc
          cases h
          exact hi ▸ .assign hl hb (.inl ⟨hc.1, rfl⟩) hc.2
        · cases h
      · cases h
    · cases h
  · cases h

theorem Expr.Increments.references {inc e : Expr} {d : DeclId} {subtract : Bool}
    (h : Increments d e subtract inc) : e.references d = false := by
  cases h with
  | step _ _ one _ =>
    obtain ⟨_, _, rfl⟩ := one
    rfl
  | compound _ free => exact free
  | assign _ _ _ free => exact free

theorem BinaryOp.exact_moving (subtract : Bool) (v w : Int) :
    (moving subtract).exact v w = some (if subtract then v - w else v + w) := by
  cases subtract <;> rfl

/-- The increment adds the step to the counter, or subtracts it. -/
theorem Expr.Increments.perform {inc e : Expr} {d : DeclId} {subtract : Bool}
    (h : Increments d e subtract inc.unwrapped) {env : Bindings} {v w : Int}
    (hv : env d = some v) (hw : e.value env = some w) :
    inc.perform env = some (env.set d (if subtract then v - w else v + w)) := by
  unfold Expr.perform
  generalize inc.unwrapped = form at h
  cases h with
  | step isStep counter one direction =>
    obtain ⟨_, _, rfl⟩ := one
    cases hw
    simp [counter, hv, isStep, direction]
  | compound counter free =>
    simp [counter, hv, hw, BinaryOp.exact_moving]
  | @assign i j lhs rhs a b counter moved operands free =>
    have sum : rhs.value env = some (if subtract then v - w else v + w) := by
      rw [value, ← evalIn_unwrapped, moved, evalIn]
      rcases operands with ⟨ha, rfl⟩ | ⟨rfl, hb, rfl⟩
      · rw [evalIn_of_decl? ha, hv]
        refine Option.bind_eq_some_iff.mpr ⟨v, rfl, Option.bind_eq_some_iff.mpr ⟨w, hw, ?_⟩⟩
        exact BinaryOp.exact_moving ..
      · rw [evalIn_of_decl? hb, hv]
        refine Option.bind_eq_some_iff.mpr ⟨w, hw, ?_⟩
        exact congrArg some (Int.add_comm w v)
    simp [counter, sum]

/-! ## Sign of the step -/

section
variable {e : Expr} {subtract : Bool}

/-- What a usable step is: the step as it was written, or the magnitude of a negative constant in
the other direction. -/
theorem LoopStep.normalized_cases (h : (LoopStep.normalized e subtract).unusable = false) :
    (LoopStep.normalized e subtract = ⟨e, subtract, e.constant?, false⟩ ∧
      ∀ v, e.constant? = some v → 0 < v) ∨
    ∃ v, e.constant? = some (-v) ∧ 0 < v ∧ Wide.InRange v ∧
      LoopStep.normalized e subtract = ⟨.ofInt v e.ty e.location, !subtract, some v, false⟩ := by
  unfold normalized at h ⊢
  cases hc : e.constant? with
  | none => exact .inl ⟨by simp, nofun⟩
  | some v =>
    simp only [hc] at h ⊢
    by_cases hz : v = 0
    · rw [if_pos hz] at h
      cases h
    · rw [if_neg hz] at h ⊢
      by_cases hn : v < 0
      · rw [if_pos hn] at h ⊢
        cases hm : Wide.neg v with
        | none => rw [hm] at h; cases h
        | some w =>
          obtain ⟨rfl, hr⟩ := Wide.check_eq_some.mp hm
          exact .inr ⟨-v, by rw [Int.neg_neg], by omega, hr, rfl⟩
      · rw [if_neg hn]
        refine .inl ⟨rfl, fun w hw => ?_⟩
        cases hw
        omega

/-- A step that is not zero or negative as a constant is left as it is. -/
theorem LoopStep.normalized_of_positive (positive : ∀ v, e.constant? = some v → 0 < v) :
    LoopStep.normalized e subtract = ⟨e, subtract, e.constant?, false⟩ := by
  unfold normalized
  cases hc : e.constant? with
  | none => rfl
  | some v =>
    have := positive v hc
    dsimp only
    rw [if_neg (by omega), if_neg (by omega)]

/-- A usable constant step is positive. -/
theorem LoopStep.normalized_constant (h : (LoopStep.normalized e subtract).unusable = false) :
    (LoopStep.normalized e subtract).value = (LoopStep.normalized e subtract).step.constant? ∧
      ∀ v, (LoopStep.normalized e subtract).value = some v → 0 < v := by
  rcases normalized_cases h with ⟨same, hpos⟩ | ⟨v, -, hv, hr, same⟩
  · rw [same]
    exact ⟨rfl, hpos⟩
  · rw [same]
    refine ⟨(Wide.check_of_inRange hr).symm, fun w hw => ?_⟩
    cases hw
    exact hv

/-- The step moves the counter as the step that was written does. -/
theorem LoopStep.normalized_value (h : (LoopStep.normalized e subtract).unusable = false)
    {env : Bindings} {w : Int} (hw : (LoopStep.normalized e subtract).step.value env = some w) :
    ∃ w', e.value env = some w' ∧ ∀ v, (if subtract then v - w' else v + w') =
      if (LoopStep.normalized e subtract).subtract then v - w else v + w := by
  rcases normalized_cases h with ⟨same, -⟩ | ⟨m, hm, -, -, same⟩
  · rw [same] at hw ⊢
    exact ⟨w, hw, fun v => rfl⟩
  · rw [same] at hw ⊢
    cases hw
    refine ⟨-w, Expr.value_of_constant hm env, fun v => ?_⟩
    cases subtract <;> simp
    rfl

theorem LoopStep.normalized_references (h : (LoopStep.normalized e subtract).unusable = false)
    {d : DeclId} (free : e.references d = false) :
    (LoopStep.normalized e subtract).step.references d = false := by
  rcases normalized_cases h with ⟨same, -⟩ | ⟨_, -, -, -, same⟩
  · rw [same]
    exact free
  · rw [same]
    rfl

end

/-! ## The whole header -/

/-- A header `h` was read off `f`, with `r` as the relation of its condition. -/
structure LoopHeader.ReadFrom (h : LoopHeader) (f : ForHeader) (r : Relation) : Prop where
  init : f.init.loopInit? = some (h.counter, h.lower)
  condition : h.condition = f.cond
  relation : ∃ allowed, f.cond.loopCondition? h.counter allowed = some (r, h.upper)
  increment : ∃ e subtract, f.inc.loopIncrement? h.counter = some (e, subtract) ∧
    (LoopStep.normalized e subtract).unusable = false ∧
    h.step = (LoopStep.normalized e subtract).step ∧
    h.stepValue = (LoopStep.normalized e subtract).value ∧
    h.subtract = (LoopStep.normalized e subtract).subtract ∧
    (h.ascending, h.strict) = r.direction (some (LoopStep.normalized e subtract))
  lower_free : h.lower.references h.counter = false
  towards : h.stepValue.isSome = true → h.ascending ≠ h.subtract

theorem ite_singleton_eq_nil {α : Type} {p : Prop} [Decidable p] {x : α} :
    (if p then [x] else []) = [] ↔ ¬p := by
  by_cases hp : p <;> simp [hp]

theorem recognizeWith_eq_ok {o : Options} {decls : DeclTable} {location initLocation : Location}
    {lower : Option Expr} {cond inc : Option Expr} {counter : DeclId} {h : LoopHeader}
    (hok : recognizeWith o decls location initLocation lower cond inc counter = .ok h) :
    ∃ cond' inc' r, lower = some h.lower ∧ cond = some cond' ∧ inc = some inc' ∧
      ∀ init : Stmt, init.loopInit? = some (counter, h.lower) →
        h.ReadFrom ⟨init, cond', inc'⟩ r := by
  unfold recognizeWith at hok
  dsimp only at hok
  split at hok
  · rename_i counterTy lower r upper st cond hty hstep hrel hfail
    cases hok
    obtain ⟨⟨e, subtract⟩, hinc, rfl⟩ := Option.map_eq_some_iff.mp hstep
    obtain ⟨inc, rfl, hinc⟩ := Option.bind_eq_some_iff.mp hinc
    rw [hstep, hrel] at hfail
    simp only [List.append_eq_nil_iff, ite_singleton_eq_nil] at hfail
    obtain ⟨⟨⟨⟨⟨-, -⟩, free⟩, -⟩, usable⟩, toward⟩ := hfail
    refine ⟨cond, inc, r, rfl, rfl, rfl, fun init hinit => ?_⟩
    exact {
      init := hinit
      condition := rfl
      relation := ⟨_, hrel⟩
      increment := ⟨e, subtract, hinc, by simpa using usable, rfl, rfl, rfl, by rw [hstep]⟩
      lower_free := by simpa using free
      towards := fun hs => by
        rw [hstep]
        rw [hs, Bool.true_and, decide_eq_true_eq] at toward
        exact toward }
  · cases hok

/-- A recognized statement is a loop off which the header was read. -/
theorem Stmt.recognize_eq_ok {o : Options} {decls : DeclTable} {s : Stmt} {h : LoopHeader}
    (hok : s.recognize o decls = .ok h) :
    ∃ location init cond inc body r,
      s = .forLoop location (some init) (some cond) (some inc) body ∧
        h.ReadFrom ⟨init, cond, inc⟩ r := by
  unfold recognize at hok
  split at hok
  · rename_i location init cond inc body
    dsimp only at hok
    split at hok
    · rename_i counter lower hinit
      obtain ⟨cond, inc, r, hlower, rfl, rfl, read⟩ := recognizeWith_eq_ok hok
      obtain ⟨init, rfl, hinit⟩ := Option.bind_eq_some_iff.mp hinit
      cases hlower
      exact ⟨location, init, cond, inc, body, r, rfl, read init hinit⟩
    · split at hok
      · obtain ⟨_, _, _, hlower, -⟩ := recognizeWith_eq_ok hok
        cases hlower
      · cases hok
  · cases hok

theorem recognizeWith_counterTy {o : Options} {decls : DeclTable} {location initLocation : Location}
    {lower : Option Expr} {cond inc : Option Expr} {counter : DeclId} {h : LoopHeader}
    (hok : recognizeWith o decls location initLocation lower cond inc counter = .ok h) :
    (decls.get? h.counter).map (·.ty) = some h.counterTy ∧ h.counterTy.isCounter = true := by
  unfold recognizeWith at hok
  dsimp only at hok
  split at hok
  · rename_i counterTy _ _ _ _ _ hty _ _ _
    cases hok
    exact Option.filter_eq_some_iff.mp hty
  · cases hok

/-- The counter of a recognized loop is declared, with a type that can count. -/
theorem Stmt.recognize_counterTy {o : Options} {decls : DeclTable} {s : Stmt} {h : LoopHeader}
    (hok : s.recognize o decls = .ok h) :
    (decls.get? h.counter).map (·.ty) = some h.counterTy ∧ h.counterTy.isCounter = true := by
  unfold recognize at hok
  split at hok
  · dsimp only at hok
    split at hok
    · exact recognizeWith_counterTy hok
    · split at hok
      · exact recognizeWith_counterTy hok
      · cases hok
  · cases hok

/-- A loop whose header is not recognized fails in some part. -/
theorem recognizeWith_ne_error_nil {o : Options} {decls : DeclTable}
    {location initLocation : Location} {lower : Option Expr} {cond inc : Option Expr}
    {counter : DeclId} :
    recognizeWith o decls location initLocation lower cond inc counter ≠ .error [] := by
  intro herror
  unfold recognizeWith at herror
  dsimp only at herror
  split at herror
  · cases herror
  · rename_i missing
    have hfail := Except.error.inj herror
    have parts := hfail
    simp only [List.append_eq_nil_iff, ite_singleton_eq_nil, Bool.not_eq_true,
      Option.isNone_eq_false_iff, Bool.or_eq_false_iff, Option.isSome_iff_exists] at parts
    obtain ⟨⟨⟨⟨⟨⟨lower', hlower⟩, ⟨ty, hty⟩⟩, -⟩, ⟨⟨r, upper⟩, hrel⟩⟩, ⟨st, hstep⟩, -⟩, -⟩ := parts
    obtain ⟨cond', rfl, -⟩ := Option.bind_eq_some_iff.mp hrel
    exact missing ty lower' r upper st cond' hfail hty hlower hrel hstep rfl

theorem Stmt.recognize_ne_error_nil {o : Options} {decls : DeclTable} {s : Stmt} :
    s.recognize o decls ≠ .error [] := by
  intro herror
  unfold recognize at herror
  split at herror
  · dsimp only at herror
    split at herror
    · exact recognizeWith_ne_error_nil herror
    · split at herror
      · exact recognizeWith_ne_error_nil herror
      · cases herror
  · cases herror

namespace LoopHeader.ReadFrom

variable {h : LoopHeader} {f : ForHeader} {r : Relation}

theorem upper_free (read : h.ReadFrom f r) : h.upper.references h.counter = false := by
  obtain ⟨_, hc⟩ := read.relation
  exact Expr.references_of_loopCondition? hc

theorem step_free (read : h.ReadFrom f r) : h.step.references h.counter = false := by
  obtain ⟨e, subtract, hinc, usable, hstep, -⟩ := read.increment
  rw [hstep]
  exact LoopStep.normalized_references usable (Expr.increments_of_loopIncrement? hinc).references

/-- A constant step is positive. -/
theorem stepValue (read : h.ReadFrom f r) :
    h.stepValue = h.step.constant? ∧ ∀ v, h.stepValue = some v → 0 < v := by
  obtain ⟨e, subtract, -, usable, hstep, hvalue, -⟩ := read.increment
  rw [hstep, hvalue]
  exact LoopStep.normalized_constant usable

/-- An order comparison leads in the direction of the loop, strictly or not. -/
theorem order (read : h.ReadFrom f r) (hr : r ≠ .notEqual) :
    r = .order h.ascending h.strict := by
  obtain ⟨_, _, -, -, -, -, -, direction⟩ := read.increment
  obtain ⟨hasc, hstrict⟩ := Prod.mk.inj direction
  rw [hasc, hstrict]
  cases r with
  | notEqual => exact absurd rfl hr
  | less | greater => rfl

/-- A loop that runs until its counter equals the bound is normalized to a strict order. -/
theorem strict_of_notEqual (read : h.ReadFrom f .notEqual) : h.strict = true := by
  obtain ⟨_, _, -, -, -, -, -, direction⟩ := read.increment
  exact (Prod.mk.inj direction).2

theorem isOrdering (read : h.ReadFrom f r) : h.condition.isOrdering = true ↔ r ≠ .notEqual := by
  obtain ⟨_, hc⟩ := read.relation
  rw [read.condition]
  exact Expr.isOrdering_of_loopCondition? hc

/-- Where bounds and step have values, the loop counts from one bound towards the other. -/
theorem counts (read : h.ReadFrom f r) {env : Bindings} {lower upper step : Int}
    (hl : h.lower.value env = some lower) (hu : h.upper.value env = some upper)
    (hs : h.step.value env = some step) :
    f.Counts h.counter r (!h.subtract) lower upper step env where
  start := Stmt.perform_of_loopInit? read.init hl
  test v := by
    obtain ⟨_, hc⟩ := read.relation
    have hu' : h.upper.value (env.set h.counter v) = some upper :=
      (Expr.evalIn_set v read.upper_free).trans hu
    have test := (Expr.evalIn_loopCondition? Arithmetic.exact_compares hc).mpr
      ⟨v, upper, Bindings.set_self .., hu', rfl⟩
    change (f.cond.evalIn .exact (env.set h.counter v)).map _ = _
    rw [test]
    cases r.holds v upper <;> rfl
  advance v := by
    obtain ⟨e, subtract, hinc, usable, hstep, -, hsub, -⟩ := read.increment
    rw [hstep] at hs
    obtain ⟨w, hw, same⟩ := LoopStep.normalized_value usable hs
    have increments := Expr.increments_of_loopIncrement? hinc
    have hw' : e.value (env.set h.counter v) = some w :=
      (Expr.evalIn_set v increments.references).trans hw
    rw [ForHeader.advance, increments.perform (Bindings.set_self ..) hw', Bindings.set_set, same,
      hsub]
    cases (LoopStep.normalized e subtract).subtract <;> rfl

end LoopHeader.ReadFrom

end Directives
