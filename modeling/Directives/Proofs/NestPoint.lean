import Directives.Proofs.MixedRadix
import Directives.Proofs.NestRun
/-!
Points of a flattened nest. Where the trip counts are known, a flattened iteration gives each level
its digit as the iteration, and each counter its value in that iteration; the conditions that are
tested again are those of the levels whose bounds depend on outer counters.
-/

namespace Directives

namespace Bindings

/-- One more pair gives its variable a value, unless it had one. -/
theorem ofList_snoc {pairs : List (DeclId × Int)} {d : DeclId} (fresh : d ∉ pairs.map (·.1))
    (v : Int) : ofList (pairs ++ [(d, v)]) = (ofList pairs).set d v := by
  funext x
  rw [ofList, List.find?_append, set, ofList]
  by_cases hx : x = d
  · subst hx
    have absent : pairs.find? (fun p => decide (p.1 = x)) = Option.none := by
      rw [List.find?_eq_none]
      intro p hp same
      exact fresh (of_decide_eq_true same ▸ List.mem_map_of_mem hp)
    simp [absent]
  · simp [hx, Ne.symm hx]

/-- Distinct variables have the values that are listed with them. -/
theorem point?_ofList_zip {ds : List DeclId} {p : List Int} (distinct : ds.Nodup)
    (length : ds.length = p.length) : (ofList (ds.zip p)).point? ds = some p := by
  induction ds generalizing p with
  | nil =>
    cases p with
    | nil => rfl
    | cons => cases length
  | cons d ds ih =>
    cases p with
    | nil => cases length
    | cons v p =>
      obtain ⟨hd, distinct⟩ := List.nodup_cons.mp distinct
      have rest : (ofList ((d :: ds).zip (v :: p))).point? ds = (ofList (ds.zip p)).point? ds := by
        refine point?_congr fun x hx => ?_
        have hne : d ≠ x := by rintro rfl; exact hd hx
        simp [ofList, hne]
      rw [point?, rest, ih distinct (Nat.succ.inj length)]
      simp [ofList]

end Bindings

/-- Where the counters outside have values, an iteration within the trip count has a counter value
if the lower bound has one of 128 bits and the steps stay in range. -/
theorem LoopLevel.Known.counterValue?_eq_some {outer : List LoopLevel} {l : LoopLevel}
    {ll lg ul ug step : Int} {count : Nat} (h : l.Known outer ll lg ul ug step count)
    {k : Nat} (hk : k < count) (env : Bindings) (v : Int) :
    l.counterValue? env k = some v ↔
      v = l.ownValue env k ∧ (l.lower.eval env).isSome = true ∧
        Wide.InRange (l.ownValue env k) := by
  cases hl : l.lower.eval env with
  | none => simp [LoopLevel.counterValue?, hl]
  | some lower =>
    have hown : l.ownValue env k = stepped l.ascending lower step k := by
      rw [ownValue, ownLower, Expr.value_of_eval hl, Option.getD_some, h.stride]
    rw [h.spans.counterValue? hl (Nat.le_of_lt hk), hown, Wide.check_eq_some]
    simp [Wide.InRange]

/-- In its own iterations a counter stays between its own bounds. -/
theorem LoopLevel.Known.inRange_ownValue {outer : List LoopLevel} {l : LoopLevel}
    {ll lg ul ug step : Int} {count : Nat} (h : l.Known outer ll lg ul ug step count)
    {env : Bindings} {lower upper : Int} (hl : l.lower.eval env = some lower)
    (hu : l.upper.eval env = some upper) (hlower : Wide.InRange lower)
    (hupper : Wide.InRange upper) {k : Nat} (hk : k < l.ownIterations env) :
    Wide.InRange (l.ownValue env k) := by
  have hpos := h.spans.step_pos
  rw [← h.stride] at hpos
  rw [ownIterations, ownLower, ownUpper, Expr.value_of_eval hl, Expr.value_of_eval hu,
    Option.getD_some, Option.getD_some] at hk
  rw [ownValue, ownLower, Expr.value_of_eval hl, Option.getD_some]
  exact inRange_stepped hpos hlower hupper hk

/-- A counter is as many steps from its lower bound as it has made iterations. -/
theorem LoopLevel.Known.natAbs_ownValue {outer : List LoopLevel} {l : LoopLevel}
    {ll lg ul ug step : Int} {count : Nat} (known : l.Known outer ll lg ul ug step count)
    (env : Bindings) (k : Nat) :
    ((l.ownValue env k - l.ownLower env).natAbs : Int) = k * step := by
  have hpos := known.spans.step_pos
  have hnonneg : 0 ≤ (k : Int) * step := Int.mul_nonneg (Int.natCast_nonneg k) (Int.le_of_lt hpos)
  rw [ownValue, known.stride, stepped]
  generalize (k : Int) * step = offset at hnonneg ⊢
  split <;> omega

namespace LoopLevel

/-- The iteration is one of the covering range. -/
def Within (_ : ForHeader) (l : LoopLevel) (_ : Bindings) (k : Nat) : Prop :=
  ∃ count, l.tripCount.value = some count ∧ k < count

/-- The counter has a value of 128 bits in the iteration. -/
def Computable (_ : ForHeader) (l : LoopLevel) (env : Bindings) (k : Nat) : Prop :=
  (l.lower.eval env).isSome = true ∧ Wide.InRange (l.ownValue env k)

/-- Where a bound depends on an outer counter, the condition of the loop holds in the iteration,
and the upper bound has a value of 128 bits. -/
def Accepted (f : ForHeader) (l : LoopLevel) (env : Bindings) (k : Nat) : Prop :=
  l.isNonRectangular = true → (l.upper.eval env).isSome = true ∧
    f.holds (env.set l.counter (l.ownValue env k)) = some true

end LoopLevel

namespace KnownNest

variable {outer : List LoopLevel} {fs : List ForHeader} {ls : List LoopLevel}

/-- The counters of levels in iterations within their trip counts. -/
theorem countersFrom_eq_some (nest : KnownNest outer fs ls) {pairs : List (DeclId × Int)}
    (keys : pairs.map (·.1) = countersOf outer) {ks : List Nat}
    (within : Along LoopLevel.Within fs ls (.ofList pairs) ks) {q : List Int} :
    countersFrom pairs (ls.zip ks) = some q ↔
      q = ownPoint ls (.ofList pairs) ks ∧ Along LoopLevel.Computable fs ls (.ofList pairs) ks := by
  induction nest generalizing pairs ks q with
  | nil =>
    cases along_nil_iff.mp within
    simp [countersFrom, ownPoint, Along, eq_comm]
  | @cons outer f r fs l ls ll lg ul ug step count level known fresh inner ih =>
    obtain ⟨k, ks, rfl, ⟨count', hcount, hk⟩, within⟩ := along_cons_iff.mp within
    rw [known.spans.tripCount] at hcount
    cases hcount
    have first := known.counterValue?_eq_some hk (.ofList pairs)
    have snoc := Bindings.ofList_snoc (keys ▸ fresh) (l.ownValue (.ofList pairs) k)
    let next := (Bindings.ofList pairs).set l.counter (l.ownValue (.ofList pairs) k)
    have inside (q' : List Int) :
        countersFrom (pairs ++ [(l.counter, l.ownValue (.ofList pairs) k)]) (ls.zip ks) = some q' ↔
          q' = ownPoint ls next ks ∧ Along LoopLevel.Computable fs ls next ks := by
      change Along LoopLevel.Within fs ls next ks at within
      rw [show next = _ from snoc.symm] at within ⊢
      exact ih (by simp [keys, countersOf]) within
    simp only [List.zip_cons_cons, countersFrom, Option.bind_eq_bind, Option.bind_eq_some_iff,
      Option.map_eq_some_iff]
    constructor
    · rintro ⟨v, hv, q', hq', rfl⟩
      obtain ⟨rfl, computable⟩ := (first v).mp hv
      obtain ⟨rfl, rest⟩ := (inside q').mp hq'
      exact ⟨rfl, computable, rest⟩
    · rintro ⟨rfl, computable, rest⟩
      exact ⟨_, (first _).mpr ⟨rfl, computable⟩, _, (inside _).mpr ⟨rfl, rest⟩, rfl⟩

/-- Iterations within the trip counts are digits. -/
theorem within_iff (nest : KnownNest outer fs ls) {counts : List Nat}
    (hcounts : ls.map (·.tripCount.value) = counts.map some) {env : Bindings} {ks : List Nat} :
    Along LoopLevel.Within fs ls env ks ↔ IsDigits counts ks := by
  induction nest generalizing counts env ks with
  | nil =>
    cases counts with
    | nil => cases ks <;> simp [Along]
    | cons => cases hcounts
  | cons _ _ _ _ ih =>
    cases counts with
    | nil => cases hcounts
    | cons c counts =>
      obtain ⟨hc, hrest⟩ := List.cons.inj hcounts
      cases ks with
      | nil => simp [Along]
      | cons k ks => simp [Along, LoopLevel.Within, hc, ih hrest]

/-- What is so of each level with the counters of a point is so along the levels. -/
theorem forall_iff (nest : KnownNest outer fs ls) {G : LoopLevel → Prop}
    {P : ForHeader → LoopLevel → Bindings → Nat → Prop} {env env' : Bindings}
    (knows : env.Knows outer) (agree : env.AgreeOn (· ∈ countersOf outer) env')
    (iff : ∀ {outer f r l ll lg ul ug step count env k}, l.BuiltFrom f r outer →
      l.Known outer ll lg ul ug step count → env.Knows outer →
      env.AgreeOn (· ∈ countersOf outer) env' → env' l.counter = some (l.ownValue env k) →
      (G l ↔ P f l env k))
    {Q : ForHeader → LoopLevel → Bindings → Nat → Prop} {ks : List Nat}
    (along : Along Q fs ls env ks)
    (hq : env'.point? (countersOf ls) = some (ownPoint ls env ks)) :
    (∀ l ∈ ls, G l) ↔ Along P fs ls env ks := by
  induction nest generalizing env ks with
  | nil =>
    cases along_nil_iff.mp along
    simp [Along]
  | @cons outer f r fs l ls ll lg ul ug step count level known fresh inner ih =>
    obtain ⟨k, ks, rfl, -, along⟩ := along_cons_iff.mp along
    simp only [countersOf, List.map_cons, ownPoint, Bindings.point?, Option.bind_eq_bind,
      Option.bind_eq_some_iff, Option.pure_def, Option.some.injEq] at hq
    obtain ⟨v, hv, q, hq, hcons⟩ := hq
    obtain ⟨rfl, rfl⟩ := List.cons.inj hcons
    have same := agree.set_both (l := l) (l.ownValue env k)
    rw [Bindings.set_of_eq hv] at same
    have here := iff level known knows agree hv
    have inside := ih (knows.set l _) same along hq
    simp only [List.forall_mem_cons, Along, here, inside]

end KnownNest

/-- All conditions hold if each has a value that is not zero. -/
theorem holdAll_eq_some_true {env : Bindings} {cs : List Expr} :
    holdAll env cs = some true ↔ ∀ c ∈ cs, ∃ x, c.eval env = some x ∧ x ≠ 0 := by
  induction cs with
  | nil => simp [holdAll]
  | cons c cs ih =>
    rw [List.forall_mem_cons, ← ih, holdAll]
    cases c.eval env with
    | none => simp
    | some x => by_cases hx : x = 0 <;> simp [hx]

/-- The condition that is tested again says what the loop tests. -/
theorem LoopLevel.Known.accepted_iff {outer : List LoopLevel} {l : LoopLevel} {f : ForHeader}
    {r : Relation} {ll lg ul ug step : Int} {count : Nat} {env env' : Bindings} {k : Nat}
    (known : l.Known outer ll lg ul ug step count) (built : l.BuiltFrom f r outer)
    (knows : env.Knows outer) (agree : env.AgreeOn (· ∈ countersOf outer) env')
    (hv : env' l.counter = some (l.ownValue env k)) :
    (∀ c, l.finalCondition = some c → ∃ x, c.eval env' = some x ∧ x ≠ 0) ↔ l.Accepted f env k := by
  obtain ⟨_, hc⟩ : ∃ allowed, f.cond.loopCondition? l.counter allowed = some (r, l.upper) :=
    built.read.relation
  have test : f.holds (env.set l.counter (l.ownValue env k)) =
      some (r.holds (l.ownValue env k) (l.ownUpper env)) :=
    (known.counts built knows .refl).test _
  have upper : l.upper.eval env' = l.upper.eval env := known.upper.determined agree
  rw [built.finalCondition, Accepted, test]
  by_cases hn : l.isNonRectangular = true
  · rw [if_pos hn]
    constructor
    · intro passes _
      obtain ⟨x, hx, hne⟩ := passes f.cond rfl
      obtain ⟨v, w, hv', hw, rfl⟩ :=
        (Expr.evalIn_loopCondition? Arithmetic.wide_compares hc).mp hx
      have hw : l.upper.eval env = some w := upper ▸ hw
      have hown : l.ownUpper env = w := by rw [ownUpper, Expr.value_of_eval hw, Option.getD_some]
      rw [hv] at hv'
      cases hv'
      refine ⟨by rw [hw]; rfl, ?_⟩
      cases hholds : r.holds (l.ownValue env k) w with
      | false => rw [hholds] at hne; exact absurd rfl hne
      | true => rw [hown, hholds]
    · intro accepted _ hcond
      cases hcond
      obtain ⟨hw, holds⟩ := accepted hn
      obtain ⟨w, hw⟩ := Option.isSome_iff_exists.mp hw
      have hown : l.ownUpper env = w := by rw [ownUpper, Expr.value_of_eval hw, Option.getD_some]
      refine ⟨1, ?_, by decide⟩
      rw [hown, Option.some.injEq] at holds
      exact (Expr.evalIn_loopCondition? Arithmetic.wide_compares hc).mpr
        ⟨_, w, hv, upper.trans hw, by rw [holds]; rfl⟩
  · simp [hn]

/-! ## Nests of statements -/

/-- The bindings that a point gives the counters. -/
def LoopNest.bindings (n : LoopNest) (p : List Int) : Bindings :=
  .ofList ((countersOf n.levels).zip p)

/-- The nest was made of the loops of the statement, and its trip counts are known. -/
structure LoopNest.Flattens (n : LoopNest) (s : Stmt) (depth : Nat) (fs : List ForHeader)
    (counts : List Nat) : Prop where
  loops : s.loops? depth = some fs
  nest : KnownNest [] fs n.levels
  distinct : (countersOf n.levels).Nodup
  tripCounts : n.levels.map (·.tripCount.value) = counts.map some
  total : n.total.value = some (flatSize counts)
  digits : ∀ iv < flatSize counts,
    mixedDigits (n.recovery.map (·.divisorValue)) iv = some (decode counts iv)

/-- Where the total trip count of a nest is known, so are those of its levels, and the divisors take
every number below the total apart into its digits. -/
theorem canonicalizeLoops_digits {o : Options} {s : Stmt} {depth : Nat} {decls : DeclTable}
    {n : LoopNest} {count : Nat} (h : (canonicalizeLoops o s depth decls).1 = .nest n)
    (total : n.total.value = some count) :
    ∃ counts, n.levels.map (·.tripCount.value) = counts.map some ∧ count = flatSize counts ∧
      ∀ iv < count, mixedDigits (n.recovery.map (·.divisorValue)) iv = some (decode counts iv) := by
  obtain ⟨fs, decls', -, -, hn⟩ := canonicalizeLoops_eq_nest h
  have htotal : TripCount.productValue (n.levels.map (·.tripCount)) = some count := by
    rw [hn] at total
    exact total
  obtain ⟨counts, hcounts, rfl, hle⟩ := TripCount.productValue_eq_some htotal
  rw [List.map_map] at hcounts
  refine ⟨counts, hcounts, rfl, fun iv hiv => ?_⟩
  rw [hn]
  exact mixedDigits_recoveryFrom hcounts (by omega) hle iv

theorem canonicalizeLoops_flattens {o : Options} {s : Stmt} {depth : Nat} {decls : DeclTable}
    {n : LoopNest} {count : Nat} (h : (canonicalizeLoops o s depth decls).1 = .nest n)
    (distinct : (countersOf n.levels).Nodup) (total : n.total.value = some count) :
    ∃ fs counts, n.Flattens s depth fs counts ∧ count = flatSize counts := by
  obtain ⟨fs, -, hloops, levels, -⟩ := canonicalizeLoops_eq_nest h
  obtain ⟨counts, hcounts, rfl, digits⟩ := canonicalizeLoops_digits h total
  refine ⟨fs, counts, ⟨hloops, ?_, distinct, hcounts, total, digits⟩, rfl⟩
  refine levels.knownNest (by simp) (fun l hl => ?_) (by rwa [List.nil_append])
  have hmem : l.tripCount.value ∈ counts.map some :=
    hcounts ▸ List.mem_map_of_mem (f := fun l : LoopLevel => l.tripCount.value) hl
  obtain ⟨c, -, hc⟩ := List.mem_map.mp hmem
  exact ⟨c, hc.symm⟩

namespace LoopNest.Flattens

variable {n : LoopNest} {s : Stmt} {depth : Nat} {fs : List ForHeader} {counts : List Nat}

theorem within_iff (flat : n.Flattens s depth fs counts) {env : Bindings} {ks : List Nat} :
    Along LoopLevel.Within fs n.levels env ks ↔ IsDigits counts ks :=
  flat.nest.within_iff flat.tripCounts

/-- The point of a flattened iteration has its digits as the iterations of the levels. -/
theorem point?_eq_some (flat : n.Flattens s depth fs counts) {iv : Nat} {p : List Int} :
    n.point? iv = some p ↔ iv < flatSize counts ∧ p = ownPoint n.levels .none (decode counts iv) ∧
      Along LoopLevel.Computable fs n.levels .none (decode counts iv) := by
  simp only [point?, indices?, flat.total, Option.bind_eq_bind, Option.bind_some,
    Option.bind_eq_some_iff]
  by_cases hiv : iv < flatSize counts
  · have within : Along LoopLevel.Within fs n.levels (.ofList []) (decode counts iv) :=
      flat.within_iff.mpr (isDigits_decode hiv)
    have counters := flat.nest.countersFrom_eq_some rfl within (q := p)
    rw [if_pos hiv, flat.digits iv hiv]
    constructor
    · rintro ⟨ks, hks, h⟩
      cases hks
      exact ⟨hiv, counters.mp h⟩
    · rintro ⟨-, h⟩
      exact ⟨_, rfl, counters.mpr h⟩
  · simp [hiv]

/-- What is so of each level with the counters of a point is so along the levels. -/
theorem forall_iff (flat : n.Flattens s depth fs counts) {start : Bindings}
    {P Q : ForHeader → LoopLevel → Bindings → Nat → Prop} {G : LoopLevel → Prop} {ks : List Nat}
    (iff : ∀ {outer f r l ll lg ul ug step count env k}, l.BuiltFrom f r outer →
      l.Known outer ll lg ul ug step count → env.Knows outer →
      env.AgreeOn (· ∈ countersOf outer) (n.bindings (ownPoint n.levels start ks)) →
      n.bindings (ownPoint n.levels start ks) l.counter = some (l.ownValue env k) →
      (G l ↔ P f l env k))
    (along : Along Q fs n.levels start ks) :
    (∀ l ∈ n.levels, G l) ↔ Along P fs n.levels start ks := by
  refine flat.nest.forall_iff (Bindings.knows_nil start) (Bindings.agreeOn_nil _ _) iff along ?_
  refine Bindings.point?_ofList_zip flat.distinct ?_
  rw [flat.nest.length_ownPoint along, countersOf, List.length_map]

/-- The point passes the conditions that are tested again if every level accepts it. -/
theorem accepts?_eq_some_true (flat : n.Flattens s depth fs counts) {env : Bindings}
    {P : ForHeader → LoopLevel → Bindings → Nat → Prop} {ks : List Nat}
    (along : Along P fs n.levels env ks) :
    n.accepts? (ownPoint n.levels env ks) = some true ↔
      Along LoopLevel.Accepted fs n.levels env ks := by
  rw [accepts?, if_pos (flat.nest.length_ownPoint along), holdAll_eq_some_true]
  have levelwise := flat.forall_iff
    (fun built known knows agree hv => known.accepted_iff built knows agree hv) along
  rw [← levelwise]
  simp only [List.mem_filterMap]
  constructor
  · exact fun passes l hl c hc => passes c ⟨l, hl, hc⟩
  · rintro passes c ⟨l, hl, hc⟩
    exact passes l hl c hc

/-- Where all conditions are order comparisons, the statement runs through the points of its own
iterations. -/
theorem runs_iff (flat : n.Flattens s depth fs counts) (ordered : s.OrderedLoops depth)
    {env : Bindings} {points : List (List Int)} :
    s.Runs depth (countersOf n.levels) env points ↔
      points = (ownCells n.levels .none).map (ownPoint n.levels .none) := by
  obtain ⟨env', run, -⟩ := flat.nest.runs (ordered fs flat.loops) (p := []) rfl
    (Bindings.knows_nil env)
  obtain ⟨hcells, hpoint⟩ := flat.nest.congr (Bindings.knows_nil .none)
    (Bindings.agreeOn_nil .none env)
  simp only [List.nil_append, hcells, hpoint] at run
  have runs : s.Runs depth (countersOf n.levels) env
      ((ownCells n.levels .none).map (ownPoint n.levels .none)) := ⟨fs, env', flat.loops, run⟩
  exact ⟨fun h => h.unique runs, fun h => h ▸ runs⟩

/-- The statement reaches a point where every loop has kept its condition on the way. -/
theorem reaches_iff (flat : n.Flattens s depth fs counts) {env : Bindings} {p : List Int} :
    s.Reaches depth (countersOf n.levels) env p ↔
      ∃ ks, p = ownPoint n.levels env ks ∧
        Along (fun f l env k => ∀ i ≤ k, f.holds (env.set l.counter (l.ownValue env i)) = some true)
          fs n.levels env ks := by
  have reaches := flat.nest.reaches_iff (p := []) (q := p) rfl (Bindings.knows_nil env)
  simp only [List.nil_append] at reaches
  rw [← reaches]
  constructor
  · rintro ⟨hs, hloops, h⟩
    rw [flat.loops] at hloops
    cases hloops
    exact h
  · exact fun h => ⟨fs, flat.loops, h⟩

end LoopNest.Flattens

end Directives
