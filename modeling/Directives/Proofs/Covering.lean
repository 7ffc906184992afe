import Directives.Proofs.Affine
import Directives.Proofs.CountedLoop
import Directives.Proofs.NestLevels
/-!
Covering ranges. Where the trip count of a level is known, its covering range is a constant
progression. A bound that depends on an outer counter is affine in it, so that between the first
and the last covering value of that counter it lies between its covering values.
-/

namespace Directives

/-- On the way to a bound in range the counter stays in range. -/
theorem inRange_stepped {lower upper step : Int} {ascending strict : Bool} {k : Nat} (hs : 0 < step)
    (hl : Wide.InRange lower) (hu : Wide.InRange upper)
    (hk : k < iterations lower upper step ascending strict) :
    Wide.InRange (stepped ascending lower step k) := by
  have hholds := (holds_stepped_iff hs k).mpr hk
  have hoffset : 0 ≤ (k : Int) * step := Int.mul_nonneg (Int.natCast_nonneg k) (Int.le_of_lt hs)
  cases ascending with
  | true =>
    refine Wide.inRange_of_between hl hu ?_ ?_ <;>
      cases strict <;> simp [Relation.order, Relation.holds, stepped] at hholds ⊢ <;> omega
  | false =>
    refine Wide.inRange_of_between hu hl ?_ ?_ <;>
      cases strict <;> simp [Relation.order, Relation.holds, stepped] at hholds ⊢ <;> omega

/-- The way of up to all iterations is in range. -/
theorem inRange_offset {lower upper step : Int} {ascending strict : Bool} {count k : Nat}
    (trip : constantTripCount lower upper step ascending strict = some count) (hk : k ≤ count) :
    Wide.InRange (k * step) := by
  obtain ⟨hpos, -, hle⟩ := constantTripCount_eq_some trip
  have hmono : (k : Int) * step ≤ count * step :=
    Int.mul_le_mul_of_nonneg_right (Int.ofNat_le.mpr hk) (Int.le_of_lt hpos)
  have hnonneg : 0 ≤ (k : Int) * step := Int.mul_nonneg (Int.natCast_nonneg k) (Int.le_of_lt hpos)
  exact ⟨Int.le_trans (by decide) hnonneg, Int.le_trans hmono hle⟩

/-- So are the iterations themselves. -/
theorem inRange_index {lower upper step : Int} {ascending strict : Bool} {count k : Nat}
    (trip : constantTripCount lower upper step ascending strict = some count) (hk : k ≤ count) :
    Wide.InRange k := by
  have hpos := (constantTripCount_eq_some trip).1
  have hle : (k : Int) * 1 ≤ k * step :=
    Int.mul_le_mul_of_nonneg_left (by omega) (Int.natCast_nonneg k)
  obtain ⟨_, hgreatest⟩ := inRange_offset trip hk
  exact ⟨Int.le_trans (by decide) (Int.natCast_nonneg k), by omega⟩

namespace LoopLevel

/-- The step operation moves the counter in the direction of the loop. -/
theorem stepOp_apply {l : LoopLevel} (direction : (!l.subtract) = l.ascending) (v step : Int) (k : Nat) :
    l.stepOp.apply v (k * step) = Wide.check (stepped l.ascending v step k) := by
  rw [stepOp, ← direction]
  cases l.subtract <;> rfl

/-- The covering range of a level is a constant progression. -/
structure Spans (l : LoopLevel) (first bound step : Int) (count : Nat) : Prop where
  effectiveLower : l.effectiveLower.constant? = some first
  effectiveUpper : l.effectiveUpper.constant? = some bound
  stepValue : l.stepValue = some step
  constantStep : l.step.constant? = some step
  direction : (!l.subtract) = l.ascending
  trip : constantTripCount first bound step l.ascending l.strict = some count
  tripCount : l.tripCount.value = some count

/-- A level whose trip count is known spans a constant progression. -/
theorem BuiltFrom.spans {l : LoopLevel} {f : ForHeader} {r : Relation} {outer : List LoopLevel}
    {count : Nat} (built : l.BuiltFrom f r outer) (hcount : l.tripCount.value = some count) :
    ∃ first bound step, l.Spans first bound step count := by
  have hvalue := built.tripCount ▸ hcount
  simp only [LoopBounds.value?, LoopBounds.constants?, bounds, Option.bind_eq_bind,
    Option.bind_eq_some_iff, Option.pure_def, Option.some.injEq] at hvalue
  obtain ⟨_, ⟨first, hfirst, bound, hbound, step, hstep, rfl⟩, htrip⟩ := hvalue
  have hstepValue : l.stepValue = some step := built.read.stepValue.1.trans hstep
  have towards : l.ascending ≠ l.subtract := built.read.towards (by
    rw [header, hstepValue]; rfl)
  refine ⟨first, bound, step, hfirst, hbound, hstepValue, hstep, ?_, htrip, hcount⟩
  cases ha : l.ascending <;> cases hb : l.subtract <;> simp [ha, hb] at towards ⊢

namespace Spans

variable {l : LoopLevel} {first bound step : Int} {count : Nat}

theorem step_pos (h : l.Spans first bound step count) : 0 < step :=
  (constantTripCount_eq_some h.trip).1

theorem count_eq (h : l.Spans first bound step count) :
    count = iterations first bound step l.ascending l.strict :=
  (constantTripCount_eq_some h.trip).2.1

theorem inRange_first (h : l.Spans first bound step count) : Wide.InRange first :=
  Expr.eval_inRange (by intro d v hv; cases hv) h.effectiveLower

theorem inRange_bound (h : l.Spans first bound step count) : Wide.InRange bound :=
  Expr.eval_inRange (by intro d v hv; cases hv) h.effectiveUpper

/-- The value of the counter in an iteration, counted from its own lower bound. -/
theorem counterValue? (h : l.Spans first bound step count) {env : Bindings} {lower : Int} {k : Nat}
    (hl : l.lower.eval env = some lower) (hk : k ≤ count) :
    l.counterValue? env k = Wide.check (stepped l.ascending lower step k) := by
  simp only [LoopLevel.counterValue?, hl, h.stepValue, Option.bind_eq_bind, Option.bind_some,
    Wide.check_of_inRange (inRange_index h.trip hk), Wide.mul,
    Wide.check_of_inRange (inRange_offset h.trip hk)]
  exact stepOp_apply h.direction lower step k

theorem inRange_last (h : l.Spans first bound step count) :
    Wide.InRange (stepped l.ascending first step (count - 1)) := by
  cases hc : count with
  | zero =>
    rw [Nat.zero_sub, stepped_zero]
    exact h.inRange_first
  | succ k =>
    have hk : k < iterations first bound step l.ascending l.strict := by
      rw [← h.count_eq]
      omega
    exact inRange_stepped h.step_pos h.inRange_first h.inRange_bound hk

/-- The last value is that of the last iteration; a loop that does not run stays at its first
value. -/
theorem lastValue? (h : l.Spans first bound step count) :
    l.lastValue? = some (stepped l.ascending first step (count - 1)) := by
  simp only [LoopLevel.lastValue?, h.effectiveLower, h.tripCount, h.stepValue, Option.bind_eq_bind,
    Option.bind_some, Wide.check_of_inRange (inRange_index h.trip (Nat.le_refl _)), Wide.mul]
  have hlast := h.inRange_last
  cases hc : count with
  | zero => simp
  | succ k =>
    rw [hc] at hlast
    have hindex : ((k + 1 : Nat) : Int) - 1 = k := by omega
    rw [if_neg (by omega), hindex, Wide.check_of_inRange (inRange_offset h.trip (by omega)),
      Option.bind_some, stepOp_apply h.direction]
    exact Wide.check_of_inRange hlast

end Spans

/-- The value lies between the first and the last covering value of the counter. -/
def Hull (l : LoopLevel) (v : Int) : Prop :=
  ∃ first last, l.effectiveLower.constant? = some first ∧ l.lastValue? = some last ∧
    Between first last v

/-- Replacing the counter of a level makes an expression constant where the level has a value. -/
theorem constant?_substitute {e r : Expr} {d : DeclId} {v : Int} (h : r.constant? = some v) :
    (e.substitute d r).constant? = e.eval (.only d v) :=
  Expr.eval_substitute h

theorem constants_of_pick {op : BinaryOp} {a b : Expr} {v : Int}
    (h : (Expr.mkConditional (.mkBinary op a b) a b).constant? = some v) :
    ∃ x y, a.constant? = some x ∧ b.constant? = some y := by
  obtain ⟨c, hc, -⟩ := Option.bind_eq_some_iff.mp h
  obtain ⟨x, hx, hc⟩ := Option.bind_eq_some_iff.mp hc
  obtain ⟨y, hy, -⟩ := Option.bind_eq_some_iff.mp hc
  exact ⟨x, y, hx, hy⟩

/-- The covering values of a bound that is affine in the counter are constant if one of them is.
They are then the values at the first and the last value of the counter. -/
theorem Spans.covering {l : LoopLevel} {first bound step : Int} {count : Nat}
    (h : l.Spans first bound step count) {e : Expr} (affine : e.isAffineIn l.counter = true)
    (low : Bool) {v : Int}
    (hv : (if low then (l.covering e).min else (l.covering e).max).constant? = some v) :
    ∃ last a c, l.lastValue? = some last ∧ e.AffineOn l.counter first last a c ∧
      v = if low then min (a * first + c) (a * last + c)
        else max (a * first + c) (a * last + c) := by
  refine ⟨stepped l.ascending first step (count - 1), ?_⟩
  have hlast := h.lastValue?
  have hrange := h.inRange_last
  generalize stepped l.ascending first step (count - 1) = last at hlast hrange ⊢
  have atFirst : (e.substitute l.counter l.effectiveLower).constant? =
      e.eval (.only l.counter first) := constant?_substitute h.effectiveLower
  have atLast : (e.substitute l.counter (.ofInt last l.counterTy e.location)).constant? =
      e.eval (.only l.counter last) :=
    constant?_substitute (Expr.eval_ofInt hrange ..)
  simp only [LoopLevel.covering, hlast] at hv
  generalize e.substitute l.counter l.effectiveLower = p at atFirst hv
  generalize e.substitute l.counter (.ofInt last l.counterTy e.location) = q at atLast hv
  obtain ⟨x, y, hx, hy⟩ : ∃ x y, p.constant? = some x ∧ q.constant? = some y := by
    cases hp : p.constant? with
    | none =>
      rw [hp] at hv
      cases low <;> (obtain ⟨x, y, hx, -⟩ := constants_of_pick hv; rw [hp] at hx; cases hx)
    | some x =>
      cases hq : q.constant? with
      | none =>
        rw [hp, hq] at hv
        cases low <;> (obtain ⟨x, y, -, hy⟩ := constants_of_pick hv; rw [hq] at hy; cases hy)
      | some y => exact ⟨x, y, rfl, rfl⟩
  obtain ⟨a, c, hac⟩ :=
    Expr.affineOn_of_isAffineIn affine (atFirst.symm.trans hx) (atLast.symm.trans hy)
  refine ⟨a, c, hlast, hac, ?_⟩
  have hx' := atFirst.trans (hac.eval (Bindings.only_self l.counter first) (.left first last))
  have hy' := atLast.trans (hac.eval (Bindings.only_self l.counter last) (.right first last))
  rw [hx'] at hx
  rw [hy'] at hy
  cases hx
  cases hy
  simp only [hx', hy'] at hv
  by_cases hle : a * first + c ≤ a * last + c
  · rw [if_pos hle] at hv
    cases low <;> simp [hx', hy'] at hv ⊢ <;> omega
  · rw [if_neg hle] at hv
    cases low <;> simp [hx', hy'] at hv ⊢ <;> omega

end LoopLevel

/-! ## Bounds inside outer levels -/

/-- The dependency of a bound is one on an outer level to whose counter it refers, and in which it is
affine. -/
theorem boundDependency_eq_ok {e : Expr} {ty : Ty} {outer : List LoopLevel}
    {dependency : Option Nat} (h : boundDependency e ty outer = .ok dependency) {i : Nat}
    (hi : dependency = some i) :
    ∃ l, outer[i]? = some l ∧ e.references l.counter = true ∧ e.isAffineIn l.counter = true := by
  unfold boundDependency at h
  split at h
  · cases h
    cases hi
  · rename_i l index hfilter
    have found : (l, index) ∈ outer.zipIdx.filter fun p => e.references p.1.counter :=
      hfilter ▸ List.mem_singleton_self _
    obtain ⟨mem, refers⟩ := List.mem_filter.mp found
    split at h
    · rename_i hc
      cases h
      cases hi
      simp only [Bool.and_eq_true] at hc
      exact ⟨l, List.mk_mem_zipIdx_iff_getElem?.mp mem, refers, hc.1.1⟩
    · cases h
  · cases h

/-- What a bound comes to inside outer levels: a constant, or what is affine in the counter of an
outer level over its covering range. -/
inductive Bound (outer : List LoopLevel) (e : Expr) :
    (dependency : Option Nat) → (least greatest : Int) → Prop where
  | constant {v} (value : e.constant? = some v) : Bound outer e none v v
  | affine {i l first last a c} (level : outer[i]? = some l)
      (hfirst : l.effectiveLower.constant? = some first) (hlast : l.lastValue? = some last)
      (form : e.AffineOn l.counter first last a c) :
      Bound outer e (some i) (min (a * first + c) (a * last + c))
        (max (a * first + c) (a * last + c))

namespace Bound

variable {outer : List LoopLevel} {e : Expr} {dependency : Option Nat} {least greatest : Int}

/-- The end of a covering range is the least or the greatest value of the bound. -/
theorem of_dependency {ty : Ty} (h : boundDependency e ty outer = .ok dependency)
    (spans : ∀ l ∈ outer, ∃ first bound step count, l.Spans first bound step count) (low : Bool)
    {v : Int} (hv : (match LoopLevel.coveringIn outer e dependency with
      | some c => if low then c.min else c.max
      | none => e).constant? = some v) :
    ∃ least greatest, Bound outer e dependency least greatest ∧
      v = if low then least else greatest := by
  cases hdep : dependency with
  | none =>
    subst hdep
    exact ⟨v, v, .constant hv, by cases low <;> rfl⟩
  | some i =>
    obtain ⟨l, hl, -, affine⟩ := boundDependency_eq_ok h hdep
    have hcovering : LoopLevel.coveringIn outer e dependency = some (l.covering e) := by
      rw [hdep, LoopLevel.coveringIn, Option.bind_some, hl]
      rfl
    rw [hcovering] at hv
    obtain ⟨first, bound, step, count, hspans⟩ := spans l (List.mem_of_getElem? hl)
    have hv' : (if low then (l.covering e).min else (l.covering e).max).constant? = some v := hv
    obtain ⟨last, a, c, hlast, form, rfl⟩ := hspans.covering affine low hv'
    exact ⟨_, _, .affine hl hspans.effectiveLower hlast form, rfl⟩

/-- The exact value of a bound is settled by the counters outside. -/
theorem value (h : Bound outer e dependency least greatest) {env : Bindings}
    (known : ∀ l ∈ outer, (env l.counter).isSome = true) :
    ∃ v, ∀ env', env.AgreeOn (· ∈ outer.map (·.counter)) env' → e.value env' = some v := by
  cases h with
  | constant value => exact ⟨_, fun env' _ => Expr.value_of_constant value env'⟩
  | @affine i l _ _ a c level _ _ form =>
    have hl := List.mem_of_getElem? level
    obtain ⟨v, hv⟩ := Option.isSome_iff_exists.mp (known l hl)
    refine ⟨a * v + c, fun env' agree => form.value ?_⟩
    rw [agree l.counter (List.mem_map_of_mem hl), hv]

/-- The value of a bound in 128 bits depends on the counters outside only. -/
theorem determined (h : Bound outer e dependency least greatest) {env env' : Bindings}
    (agree : env.AgreeOn (· ∈ outer.map (·.counter)) env') : e.eval env' = e.eval env := by
  cases h with
  | constant value => rw [Expr.eval_of_constant value, Expr.eval_of_constant value]
  | affine level _ _ form =>
    exact form.determined (agree _ (List.mem_map_of_mem (List.mem_of_getElem? level)))

/-- Where the counter on which a bound depends is inside its hull, the bound has a value in 128
bits, between its covering values. -/
theorem eval_of_hull (h : Bound outer e dependency least greatest) {env : Bindings}
    (hull : ∀ i l, dependency = some i → outer[i]? = some l →
      ∃ v, env l.counter = some v ∧ l.Hull v) :
    ∃ v, e.eval env = some v ∧ least ≤ v ∧ v ≤ greatest := by
  cases h with
  | constant value => exact ⟨_, Expr.eval_of_constant value env, Int.le_refl _, Int.le_refl _⟩
  | @affine i l first last a c level hfirst hlast form =>
    obtain ⟨v, hv, first', last', hfirst', hlast', between⟩ := hull i l rfl level
    rw [hfirst] at hfirst'
    rw [hlast] at hlast'
    cases hfirst'
    cases hlast'
    refine ⟨a * v + c, form.eval hv between, ?_⟩
    have := between.affine a c
    unfold Between at this
    omega

end Bound

namespace LoopLevel

/-- Least and greatest values of the bounds of a level, and the progression that it spans. -/
structure Known (l : LoopLevel) (outer : List LoopLevel)
    (lowerLeast lowerGreatest upperLeast upperGreatest step : Int) (count : Nat) : Prop where
  lower : Bound outer l.lower l.lowerDependency lowerLeast lowerGreatest
  upper : Bound outer l.upper l.upperDependency upperLeast upperGreatest
  spans : l.Spans (if l.ascending then lowerLeast else lowerGreatest)
    (if l.ascending then upperGreatest else upperLeast) step count

theorem BuiltFrom.known {l : LoopLevel} {f : ForHeader} {r : Relation} {outer : List LoopLevel}
    {count : Nat} (built : l.BuiltFrom f r outer)
    (spans : ∀ m ∈ outer, ∃ first bound step count, m.Spans first bound step count)
    (hcount : l.tripCount.value = some count) :
    ∃ ll lg ul ug step, l.Known outer ll lg ul ug step count := by
  obtain ⟨first, bound, step, hspans⟩ := built.spans hcount
  obtain ⟨ll, lg, hlower, rfl⟩ := Bound.of_dependency built.lowerDependency spans l.ascending
    (v := first) (by
      have := hspans.effectiveLower
      rw [effectiveLower, built.lowerCovering] at this
      exact this)
  obtain ⟨ul, ug, hupper, rfl⟩ := Bound.of_dependency built.upperDependency spans (!l.ascending)
    (v := bound) (by
      have := hspans.effectiveUpper
      rw [effectiveUpper, built.upperCovering] at this
      rw [← this]
      cases l.ascending <;> rfl)
  refine ⟨ll, lg, ul, ug, step, hlower, hupper, ?_⟩
  cases ha : l.ascending <;> rw [ha] at hspans <;> exact hspans

end LoopLevel

end Directives
