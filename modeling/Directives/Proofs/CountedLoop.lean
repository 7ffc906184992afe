import Directives.Proofs.Recognition
/-!
Loops that count. Where the header of a loop counts a variable in steps, the loop visits an
arithmetic progression and stops, and the expression for its trip count has the number of
iterations as its value, whatever the bounds are made of.
-/

namespace Directives

/-- The variables of a set have the same values in both. -/
def Bindings.AgreeOn (on : DeclId → Prop) (env env' : Bindings) : Prop :=
  ∀ d, on d → env' d = env d

namespace Bindings.AgreeOn

variable {on : DeclId → Prop} {env env' env'' : Bindings}

theorem refl : AgreeOn on env env := fun _ _ => rfl

theorem trans (h : AgreeOn on env env') (h' : AgreeOn on env' env'') : AgreeOn on env env'' :=
  fun d hd => (h' d hd).trans (h d hd)

theorem set (h : AgreeOn on env env') {d : DeclId} (hd : ¬ on d) (v : Int) :
    AgreeOn on env (env'.set d v) := by
  intro x hx
  rw [set_of_ne]
  · exact h x hx
  · rintro rfl
    exact hd hx

end Bindings.AgreeOn

/-- A counter that starts at `lower` keeps its relation to `upper` for `n` steps and no more. -/
def Relation.Stops (r : Relation) (ascending : Bool) (lower upper step : Int) (n : Nat) : Prop :=
  ∀ k ≤ n, r.holds (stepped ascending lower step k) upper = decide (k < n)

section
variable {r : Relation} {ascending strict : Bool} {lower upper step : Int} {n : Nat}

theorem Relation.stops_order (hs : 0 < step) :
    (order ascending strict).Stops ascending lower upper step
      (iterations lower upper step ascending strict) := by
  intro k _
  rw [Bool.eq_iff_iff, decide_eq_true_eq]
  exact holds_stepped_iff hs k

theorem Relation.stops_notEqual (hs : 0 < step) {m : Nat}
    (hm : stepped ascending lower step m = upper) :
    notEqual.Stops ascending lower upper step m := by
  intro k hk
  rw [holds, ← hm]
  by_cases h : k < m
  · rw [decide_eq_true h, decide_eq_true_eq]
    intro same
    have := stepped_injective hs same
    omega
  · rw [show k = m by omega]
    simp

end

section
variable {counters : List DeclId} {f : ForHeader} {inner : List ForHeader} {d : DeclId}
  {r : Relation} {ascending : Bool} {lower upper step : Int} {n : Nat} {on : DeclId → Prop}

/-- A loop that counts runs its body for each value of the progression. The body may change
variables on which neither the header nor the bodies depend. -/
theorem NestRuns.of_counts {points : Int → List (List Int)} {env : Bindings}
    (counts : ∀ env', env.AgreeOn on env' → f.Counts d r ascending lower upper step env')
    (stops : r.Stops ascending lower upper step n) (hd : ¬ on d)
    (body : ∀ env' v, env.AgreeOn on env' → env' d = some v →
      ∃ env₁, NestRuns counters inner env' (points v) env₁ ∧ env.AgreeOn on env₁ ∧
        env₁ d = some v) :
    ∃ env', NestRuns counters (f :: inner) env
        ((List.range n).flatMap fun k => points (stepped ascending lower step k)) env' ∧
      env.AgreeOn on env' := by
  let inv (k : Nat) (env' : Bindings) : Prop :=
    env.AgreeOn on env' ∧ env' d = some (stepped ascending lower step k)
  have test (k : Nat) (env' : Bindings) (hk : k ≤ n) (hi : inv k env') :
      f.holds env' = some (decide (k < n)) := by
    rw [← Bindings.set_of_eq hi.2, (counts env' hi.1).test, stops k hk]
  have advance (k : Nat) (env' : Bindings) (hi : inv k env') :
      f.advance env' = some (env'.set d (stepped ascending lower step (k + 1))) := by
    have := (counts env' hi.1).advance (stepped ascending lower step k)
    rw [Bindings.set_of_eq hi.2] at this
    rw [this, stepped_succ]
  have start : inv 0 (env.set d lower) :=
    ⟨Bindings.AgreeOn.refl.set hd lower, by rw [Bindings.set_self, stepped_zero]⟩
  have step (k : Nat) (env' : Bindings) (_ : k < n) (hi : inv k env') :
      ∃ env₁ env₂, NestRuns counters inner env' (points (stepped ascending lower step k)) env₁ ∧
        f.advance env₁ = some env₂ ∧ inv (k + 1) env₂ := by
    obtain ⟨env₁, run, agree, hv⟩ := body env' _ hi.1 hi.2
    exact ⟨env₁, _, run, advance k env₁ ⟨agree, hv⟩, agree.set hd _, Bindings.set_self ..⟩
  obtain ⟨env', loop, hend⟩ := LoopRuns.of_invariant inv test step start
  exact ⟨env', .enter (counts env .refl).start loop, hend.1⟩

/-- A loop that counts reaches a value of the progression if all values before keep the relation,
and this one too. -/
theorem LoopReaches.iff_of_counts {env env' : Bindings}
    (counts : f.Counts d r ascending lower upper step env) {j : Nat} :
    LoopReaches f (env.set d (stepped ascending lower step j)) env' ↔
      ∃ k, j ≤ k ∧ env' = env.set d (stepped ascending lower step k) ∧
        ∀ i, j ≤ i → i ≤ k → r.holds (stepped ascending lower step i) upper = true := by
  constructor
  · intro reaches
    generalize hstart : env.set d (stepped ascending lower step j) = start at reaches
    induction reaches generalizing j with
    | here test =>
      subst hstart
      rw [counts.test] at test
      refine ⟨j, Nat.le_refl j, rfl, fun i hji hij => ?_⟩
      rw [show i = j by omega]
      exact Option.some.inj test
    | later test advance _ ih =>
      subst hstart
      rw [counts.test] at test
      rw [counts.advance, ← stepped_succ] at advance
      obtain ⟨k, hjk, hend, holds⟩ := ih (Option.some.inj advance)
      refine ⟨k, by omega, hend, fun i hji hik => ?_⟩
      by_cases hi : i = j
      · rw [hi]
        exact Option.some.inj test
      · exact holds i (by omega) hik
  · rintro ⟨k, hjk, rfl, holds⟩
    have test : f.holds (env.set d (stepped ascending lower step j)) = some true := by
      rw [counts.test, holds j (Nat.le_refl j) hjk]
    induction hm : k - j generalizing j with
    | zero =>
      rw [show k = j by omega]
      exact .here test
    | succ m ih =>
      have next := holds (j + 1) (by omega) (by omega)
      have advance : f.advance (env.set d (stepped ascending lower step j)) =
          some (env.set d (stepped ascending lower step (j + 1))) := by
        rw [counts.advance, ← stepped_succ]
      refine .later test advance (ih (by omega) (fun i hi => holds i (by omega)) ?_ (by omega))
      rw [counts.test, next]

/-- A loop without loops inside that ends comes to a value that is not in its relation to the
bound. -/
theorem LoopRuns.exists_stop {env : Bindings} (counts : f.Counts d r ascending lower upper step env)
    {env₁ env₂ : Bindings} {points : List (List Int)} :
    LoopRuns counters f [] env₁ points env₂ →
      ∀ k, env₁ = env.set d (stepped ascending lower step k) →
        ∃ m, r.holds (stepped ascending lower step m) upper = false
  | .stop test, k, hk => by
    rw [hk, counts.test] at test
    exact ⟨k, Option.some.inj test⟩
  | .next _ (.iteration _) advance loop, k, hk => by
    rw [hk, counts.advance, ← stepped_succ] at advance
    exact loop.exists_stop counts (k + 1) (Option.some.inj advance).symm

end

/-- The dividend of a trip count, step by step. -/
theorem Span.map_total_between (first last step : Int) (strict : Bool) :
    (Span.between first last step strict).map (·.total) =
      (Wide.sub last first).bind fun distance =>
        (Wide.sub distance (ofTruth strict)).bind fun adjusted => Wide.add adjusted step := by
  rw [Span.between]
  cases Wide.sub last first with
  | none => rfl
  | some distance =>
    rw [Option.bind_some, Option.bind_eq_bind, Option.bind_some]
    cases Wide.sub distance (ofTruth strict) with
    | none => rfl
    | some adjusted => cases total : Wide.add adjusted step <;> simp [total]

/-- The dividend of a trip count has the value that the formula gives it, and none where the formula
gives it none. -/
theorem Span.eval_total {first last step : Int} (strict : Bool) {env : Bindings} {e₁ e₂ e : Expr}
    (h₁ : e₁.eval env = some first) (h₂ : e₂.eval env = some last) (hs : e.eval env = some step)
    (ty : Ty) (location : Location) :
    (Expr.arith .add
      (if strict then .arith .sub (.arith .sub e₂ e₁ ty) (.ofInt 1 ty location) ty
        else .arith .sub e₂ e₁ ty) e ty).eval env =
      (Span.between first last step strict).map (·.total) := by
  have hdistance : (Expr.arith .sub e₂ e₁ ty).eval env = Wide.sub last first :=
    Expr.eval_arith h₂ h₁ .sub ty
  have hadjusted : (if strict then Expr.arith .sub (.arith .sub e₂ e₁ ty) (.ofInt 1 ty location) ty
      else .arith .sub e₂ e₁ ty).eval env =
      (Wide.sub last first).bind fun distance => Wide.sub distance (ofTruth strict) := by
    cases strict with
    | true =>
      have hone : (Expr.ofInt 1 ty location).eval env = some (ofTruth true) :=
        Expr.eval_ofInt ⟨by decide, by decide⟩ ..
      rw [if_pos rfl, Expr.eval_arith_eq_bind, hdistance, hone]
      rfl
    | false =>
      rw [if_neg Bool.false_ne_true, hdistance]
      cases hd : Wide.sub last first with
      | none => rfl
      | some distance =>
        -- Nothing is taken off a distance, which is in range.
        rw [Option.bind_some, Wide.sub, ofTruth, if_neg Bool.false_ne_true, Int.sub_zero]
        exact (Wide.check_of_inRange (Wide.inRange_of_check hd)).symm
  rw [Span.map_total_between, Expr.eval_arith_eq_bind, hadjusted, hs, Option.bind_assoc]
  rfl

/-- What the trip count divides by the step, as it is computed in a type. -/
def LoopBounds.total (b : LoopBounds) (t : IntType) : Expr :=
  let (first, last) := if b.ascending then (b.lower, b.upper) else (b.upper, b.lower)
  let distance := Expr.arith .sub last first (.ofInt t)
  let adjusted :=
    if b.strict then .arith .sub distance (.ofInt 1 (.ofInt t) b.lower.location) (.ofInt t) else distance
  .arith .add adjusted b.step (.ofInt t)

theorem LoopBounds.tripCount_expr (b : LoopBounds) (width : Nat) :
    (b.tripCount width).expr =
      .mkConditional b.precondition
        (.arith .div (b.total (b.tripCount width).ty) b.step (.ofInt (b.tripCount width).ty))
        (.ofInt 0 (.ofInt (b.tripCount width).ty) b.lower.location) :=
  rfl

theorem LoopBounds.eval_total {b : LoopBounds} {env : Bindings} {lower upper step : Int}
    (hl : b.lower.eval env = some lower) (hu : b.upper.eval env = some upper)
    (hs : b.step.eval env = some step) (t : IntType) :
    (b.total t).eval env = (Span.checked lower upper step b.ascending b.strict).map (·.total) := by
  unfold total Span.checked
  cases b.ascending with
  | true => exact Span.eval_total b.strict hl hu hs (.ofInt t) b.lower.location
  | false => exact Span.eval_total b.strict hu hl hs (.ofInt t) b.lower.location

/-- The expression for the trip count has the number of iterations as its value, and no value where
the trip count is out of range. -/
theorem LoopBounds.eval_tripCount_eq {b : LoopBounds} {env : Bindings} {lower upper step : Int}
    (hl : b.lower.eval env = some lower) (hu : b.upper.eval env = some upper)
    (hs : b.step.eval env = some step) (hpos : 0 < step) (width : Nat) :
    (b.tripCount width).expr.eval env =
      (constantTripCount lower upper step b.ascending b.strict).map Int.ofNat := by
  have precondition : b.precondition.eval env =
      some (ofTruth ((Relation.order b.ascending b.strict).holds lower upper)) := by
    rw [LoopBounds.precondition, Expr.eval_mkBinary hl hu]
    cases b.ascending <;> cases b.strict <;> rfl
  rw [LoopBounds.tripCount_expr, Expr.eval_mkConditional precondition, constantTripCount_eq hpos]
  by_cases runs : (Relation.order b.ascending b.strict).holds lower upper = true
  · rw [if_pos runs, runs, if_pos (by decide), Expr.eval_arith_eq_bind, eval_total hl hu hs, hs]
    cases hspan : Span.checked lower upper step b.ascending b.strict with
    | none => rfl
    | some span =>
      obtain ⟨rfl, hle⟩ := Span.checked_eq_some hspan
      have hnonneg := Int.le_trans (Int.le_of_lt hpos) (Span.step_le_total step runs)
      have hquotient := Int.ediv_nonneg hnonneg (Int.le_of_lt hpos)
      have hsmall := Int.ediv_le_self step hnonneg
      change Wide.div _ step = some ((Int.toNat _ : Nat) : Int)
      rw [Int.toNat_of_nonneg hquotient, Wide.div, if_neg (by omega),
        Int.tdiv_eq_ediv_of_nonneg hnonneg]
      exact Wide.check_of_inRange ⟨Int.le_trans (by decide) hquotient, Int.le_trans hsmall hle⟩
  · rw [if_neg runs, Bool.eq_false_iff.mpr runs]
    exact Expr.eval_ofInt ⟨by decide, by decide⟩ ..

theorem LoopBounds.eval_tripCount {b : LoopBounds} {env : Bindings} {lower upper step : Int}
    {n : Nat} (hl : b.lower.eval env = some lower) (hu : b.upper.eval env = some upper)
    (hs : b.step.eval env = some step)
    (hn : constantTripCount lower upper step b.ascending b.strict = some n) (width : Nat) :
    (b.tripCount width).expr.eval env = some (n : Int) := by
  rw [eval_tripCount_eq hl hu hs (constantTripCount_eq_some hn).1, hn]
  rfl

namespace LoopHeader.ReadFrom

variable {h : LoopHeader} {f : ForHeader} {r : Relation} {env : Bindings} {lower upper step : Int}

/-- Bounds and step do not refer to the counter, so that the loop counts whatever the counter is. -/
theorem counts_of_agree (read : h.ReadFrom f r) (hl : h.lower.eval env = some lower)
    (hu : h.upper.eval env = some upper) (hs : h.step.eval env = some step) {env' : Bindings}
    (agree : env.AgreeOn (· ≠ h.counter) env') :
    f.Counts h.counter r (!h.subtract) lower upper step env' := by
  have same {e : Expr} (free : e.references h.counter = false) : e.value env' = e.value env := by
    refine Expr.evalIn_congr fun d hd => agree d ?_
    rintro rfl
    rw [free] at hd
    cases hd
  exact read.counts ((same read.lower_free).trans (Expr.value_of_eval hl))
    ((same read.upper_free).trans (Expr.value_of_eval hu))
    ((same read.step_free).trans (Expr.value_of_eval hs))

/-- A counting loop that keeps an order, or that ends, stops after the number of iterations. -/
theorem stops (read : h.ReadFrom f r) (hpos : 0 < step)
    (counts : f.Counts h.counter r h.ascending lower upper step env)
    (ends : f.cond.isOrdering = true ∨
      ∃ counters points env', NestRuns counters [f] env points env') :
    r.Stops h.ascending lower upper step (iterations lower upper step h.ascending h.strict) := by
  by_cases hr : r = .notEqual
  · subst hr
    rcases ends with ordered | ⟨counters, points, env', run⟩
    · exact absurd rfl (read.isOrdering.mp (read.condition ▸ ordered))
    · cases run with | enter start loop => ?_
      rw [counts.start] at start
      obtain ⟨m, hm⟩ := loop.exists_stop counts 0
        (by rw [stepped_zero]; exact (Option.some.inj start).symm)
      have meets : stepped h.ascending lower step m = upper := by
        simpa [Relation.holds] using hm
      rw [read.strict_of_notEqual, iterations_of_stepped_eq hpos meets]
      exact Relation.stops_notEqual hpos meets
  · rw [read.order hr]
    exact Relation.stops_order hpos

end LoopHeader.ReadFrom

/-- What a recognized header says is what the loop does, also with bounds that are known only at
run time: the loop visits the progression and stops, and the trip count is the number of values. A
loop that runs until its counter equals the bound has to end for that. -/
theorem Stmt.runs_of_recognize {o : Options} {decls : DeclTable} {s : Stmt} {h : LoopHeader}
    {env : Bindings} {lower upper step : Int} {n : Nat} (recognized : s.recognize o decls = .ok h)
    (hl : h.lower.eval env = some lower) (hu : h.upper.eval env = some upper)
    (hs : h.step.eval env = some step) (direction : h.ascending ≠ h.subtract)
    (hn : constantTripCount lower upper step h.ascending h.strict = some n) :
    ((s.OrderedLoops 1 ∨ ∃ points, s.Runs 1 [h.counter] env points) →
      ∀ points, s.Runs 1 [h.counter] env points ↔
        points = (List.range n).map fun k => [stepped h.ascending lower step k]) ∧
    ∀ counter width,
      ((LoopBounds.mk h.lower h.upper h.step h.ascending h.strict counter).tripCount
        width).expr.eval env = some (n : Int) := by
  refine ⟨fun ends => ?_, fun counter width => LoopBounds.eval_tripCount hl hu hs hn width⟩
  obtain ⟨location, init, cond, inc, body, r, rfl, read⟩ := recognize_eq_ok recognized
  obtain ⟨hpos, hcount, -⟩ := constantTripCount_eq_some hn
  have towards : (!h.subtract) = h.ascending := by
    cases ha : h.ascending <;> cases hb : h.subtract <;> simp [ha, hb] at direction ⊢
  have counts (env' : Bindings) (agree : env.AgreeOn (· ≠ h.counter) env') :
      (ForHeader.mk init cond inc).Counts h.counter r h.ascending lower upper step env' :=
    towards ▸ read.counts_of_agree hl hu hs agree
  have stops : r.Stops h.ascending lower upper step n := by
    rw [hcount]
    refine read.stops hpos (counts env .refl) ?_
    rcases ends with ordered | ⟨points, hs, env', hloops, run⟩
    · exact .inl (ordered _ rfl _ (List.mem_singleton_self _))
    · cases hloops
      exact .inr ⟨_, _, _, run⟩
  have body (env' : Bindings) (v : Int) (agree : env.AgreeOn (· ≠ h.counter) env')
      (hv : env' h.counter = some v) : ∃ env₁, NestRuns [h.counter] [] env' [[v]] env₁ ∧
        env.AgreeOn (· ≠ h.counter) env₁ ∧ env₁ h.counter = some v :=
    ⟨env', .iteration (by simp [Bindings.point?, hv]), agree, hv⟩
  obtain ⟨env', run, -⟩ := NestRuns.of_counts counts stops (by simp) body
  rw [← List.map_eq_flatMap] at run
  intro points
  constructor
  · rintro ⟨hs, _, hloops, run'⟩
    cases hloops
    exact (run'.unique run).1
  · rintro rfl
    exact ⟨_, env', rfl, run⟩

/-- `for (i = first; i > last; i += -2)` from 7 down to what is greater than 1. -/
theorem Stmt.runs_of_recognize_descending :
    ∃ (s : Stmt) (h : LoopHeader), s.recognize {} (.integers ["i", "first", "last"]) = .ok h ∧
      h.subtract = true ∧ ∀ points,
        s.Runs 1 [h.counter] (.ofList [(⟨1⟩, 7), (⟨2⟩, 1)]) points ↔ points = [[7], [5], [3]] := by
  let s := countingLoop ⟨0⟩ (.ofDecl ⟨1⟩ .int32 {}) .gt (.ofDecl ⟨2⟩ .int32 {}) (-2) (.null {})
  let env : Bindings := .ofList [(⟨1⟩, 7), (⟨2⟩, 1)]
  have recognized : s.recognize {} (.integers ["i", "first", "last"]) = .ok _ := rfl
  have ordered : s.OrderedLoops 1 := .of_all rfl rfl
  have visits := runs_of_recognize recognized (show Expr.eval env _ = some 7 from rfl)
    (show Expr.eval env _ = some 1 from rfl) rfl (by decide)
    (show constantTripCount _ _ _ _ _ = some 3 from rfl)
  exact ⟨s, _, recognized, rfl, visits.1 (.inl ordered)⟩

end Directives
