import Directives.Proofs.Covering
/-!
Runs of a nest whose trip counts are known. The bounds of a loop are settled by the counters
outside, so a nest of loops that keep an order visits, level by level, as many values as each loop
has iterations of its own.
-/

namespace Directives

/-- The counters of levels, outermost first. -/
abbrev countersOf (levels : List LoopLevel) : List DeclId := levels.map (·.counter)

/-- Every one of the levels has a value for its counter. -/
def Bindings.Knows (env : Bindings) (levels : List LoopLevel) : Prop :=
  ∀ l ∈ levels, (env l.counter).isSome = true

theorem Bindings.knows_nil (env : Bindings) : env.Knows [] := by
  intro l hl
  cases hl

theorem Bindings.agreeOn_nil (env env' : Bindings) : env.AgreeOn (· ∈ countersOf []) env' := by
  intro d hd
  cases hd

theorem Bindings.Knows.of_agree {env env' : Bindings} {levels : List LoopLevel}
    (h : env.Knows levels) (agree : env.AgreeOn (· ∈ countersOf levels) env') :
    env'.Knows levels := by
  intro l hl
  rw [agree l.counter (List.mem_map_of_mem hl)]
  exact h l hl

theorem Bindings.point?_congr {env env' : Bindings} {ds : List DeclId}
    (agree : env.AgreeOn (· ∈ ds) env') : env'.point? ds = env.point? ds := by
  induction ds with
  | nil => rfl
  | cons d ds ih =>
    rw [point?, point?, agree d List.mem_cons_self,
      ih fun x hx => agree x (List.mem_cons_of_mem _ hx)]

theorem Bindings.point?_snoc {env : Bindings} {ds : List DeclId} {d : DeclId} {p : List Int}
    {v : Int} (hp : env.point? ds = some p) (hd : env d = some v) :
    env.point? (ds ++ [d]) = some (p ++ [v]) := by
  induction ds generalizing p with
  | nil =>
    cases hp
    simp [point?, hd]
  | cons x ds ih =>
    simp only [point?, Option.bind_eq_bind, Option.bind_eq_some_iff, Option.pure_def,
      Option.some.injEq, List.cons_append] at hp ⊢
    obtain ⟨w, hw, q, hq, rfl⟩ := hp
    exact ⟨w, hw, q ++ [v], ih hq, rfl⟩

namespace LoopLevel

/-- The lower bound, where the counters outside have values. -/
def ownLower (l : LoopLevel) (env : Bindings) : Int := (l.lower.value env).getD 0

/-- The upper bound, where the counters outside have values. -/
def ownUpper (l : LoopLevel) (env : Bindings) : Int := (l.upper.value env).getD 0

/-- The constant step of a level. -/
def stride (l : LoopLevel) : Int := l.stepValue.getD 1

/-- How often the loop runs, where the counters outside have values. -/
def ownIterations (l : LoopLevel) (env : Bindings) : Nat :=
  iterations (l.ownLower env) (l.ownUpper env) l.stride l.ascending l.strict

/-- The counter in one of its iterations, where the counters outside have values. -/
def ownValue (l : LoopLevel) (env : Bindings) (k : Nat) : Int :=
  stepped l.ascending (l.ownLower env) l.stride k

end LoopLevel

/-- The iterations of the levels at the innermost iterations, in the order in which these are
executed. -/
def ownCells : List LoopLevel → Bindings → List (List Nat)
  | [], _ => [[]]
  | l :: inner, env =>
    (List.range (l.ownIterations env)).flatMap fun k =>
      (ownCells inner (env.set l.counter (l.ownValue env k))).map (k :: ·)

/-- The counters of the levels in some iterations of theirs. -/
def ownPoint : List LoopLevel → Bindings → List Nat → List Int
  | l :: inner, env, k :: ks =>
    l.ownValue env k :: ownPoint inner (env.set l.counter (l.ownValue env k)) ks
  | _, _, _ => []

/-- Levels that were made of loops inside each other, with distinct counters and known trip
counts, inside outer levels. -/
inductive KnownNest : (outer : List LoopLevel) → List ForHeader → List LoopLevel → Prop where
  | nil {outer} : KnownNest outer [] []
  | cons {outer f r fs l ls ll lg ul ug step count} (level : l.BuiltFrom f r outer)
      (known : l.Known outer ll lg ul ug step count) (fresh : l.counter ∉ countersOf outer)
      (inner : KnownNest (outer ++ [l]) fs ls) : KnownNest outer (f :: fs) (l :: ls)

theorem NestLevels.knownNest {outer : List LoopLevel} {fs : List ForHeader} {ls : List LoopLevel}
    (levels : NestLevels outer fs ls)
    (spans : ∀ m ∈ outer, ∃ first bound step count, m.Spans first bound step count)
    (counts : ∀ l ∈ ls, ∃ count, l.tripCount.value = some count)
    (distinct : (countersOf (outer ++ ls)).Nodup) : KnownNest outer fs ls := by
  induction levels with
  | nil => exact .nil
  | @cons outer f r fs l ls level _ ih =>
    obtain ⟨count, hcount⟩ := counts l List.mem_cons_self
    obtain ⟨ll, lg, ul, ug, step, known⟩ := level.known spans hcount
    have fresh : l.counter ∉ countersOf outer := by
      intro hmem
      rw [countersOf, List.map_append, List.nodup_append] at distinct
      exact distinct.2.2 _ hmem _ (List.mem_cons_self ..) rfl
    refine .cons level known fresh (ih ?_ ?_ ?_)
    · intro m hm
      rcases List.mem_append.mp hm with hm | hm
      · exact spans m hm
      · cases List.mem_singleton.mp hm
        exact ⟨_, _, _, _, known.spans⟩
    · exact fun m hm => counts m (List.mem_cons_of_mem _ hm)
    · rwa [List.append_assoc, List.singleton_append]

section
variable {outer : List LoopLevel} {l : LoopLevel} {ll lg ul ug step : Int} {count : Nat}
  {env env' : Bindings}

namespace LoopLevel.Known

theorem stride (h : l.Known outer ll lg ul ug step count) : l.stride = step := by
  rw [LoopLevel.stride, h.spans.stepValue, Option.getD_some]

/-- The counters outside settle the lower bound. -/
theorem lower_value (h : l.Known outer ll lg ul ug step count) (knows : env.Knows outer)
    (agree : env.AgreeOn (· ∈ countersOf outer) env') :
    l.lower.value env' = some (l.ownLower env) := by
  obtain ⟨v, hv⟩ := h.lower.value knows
  rw [ownLower, hv env .refl, hv env' agree, Option.getD_some]

/-- The counters outside settle the upper bound. -/
theorem upper_value (h : l.Known outer ll lg ul ug step count) (knows : env.Knows outer)
    (agree : env.AgreeOn (· ∈ countersOf outer) env') :
    l.upper.value env' = some (l.ownUpper env) := by
  obtain ⟨v, hv⟩ := h.upper.value knows
  rw [ownUpper, hv env .refl, hv env' agree, Option.getD_some]

theorem ownLower_congr (h : l.Known outer ll lg ul ug step count) (knows : env.Knows outer)
    (agree : env.AgreeOn (· ∈ countersOf outer) env') : l.ownLower env' = l.ownLower env := by
  rw [ownLower, h.lower_value knows agree, Option.getD_some]

theorem ownUpper_congr (h : l.Known outer ll lg ul ug step count) (knows : env.Knows outer)
    (agree : env.AgreeOn (· ∈ countersOf outer) env') : l.ownUpper env' = l.ownUpper env := by
  rw [ownUpper, h.upper_value knows agree, Option.getD_some]

/-- Where the counters outside have values, the loop counts from its own lower bound to its own
upper bound. -/
theorem counts {f : ForHeader} {r : Relation} (h : l.Known outer ll lg ul ug step count)
    (built : l.BuiltFrom f r outer) (knows : env.Knows outer)
    (agree : env.AgreeOn (· ∈ countersOf outer) env') :
    f.Counts l.counter r l.ascending (l.ownLower env) (l.ownUpper env) l.stride env' := by
  have := built.read.counts (h.lower_value knows agree) (h.upper_value knows agree)
    (Expr.value_of_constant h.spans.constantStep env')
  rw [h.stride, ← h.spans.direction]
  exact this

end LoopLevel.Known

/-- Bindings that agree outside a level agree after it has set its counter in both. -/
theorem Bindings.AgreeOn.set_both (agree : env.AgreeOn (· ∈ countersOf outer) env') (v : Int) :
    (env.set l.counter v).AgreeOn (· ∈ countersOf (outer ++ [l])) (env'.set l.counter v) := by
  intro d hd
  by_cases hc : d = l.counter
  · rw [hc, set_self, set_self]
  · rw [set_of_ne _ _ hc, set_of_ne _ _ hc]
    rw [countersOf, List.map_append, List.mem_append] at hd
    exact agree d (hd.resolve_right fun h => hc (List.mem_singleton.mp h))

theorem Bindings.Knows.set (knows : env.Knows outer) (l : LoopLevel) (v : Int) :
    (env.set l.counter v).Knows (outer ++ [l]) := by
  intro m hm
  by_cases hc : m.counter = l.counter
  · rw [hc, Bindings.set_self]
    rfl
  · rw [Bindings.set_of_ne _ _ hc]
    rcases List.mem_append.mp hm with hm | hm
    · exact knows m hm
    · exact absurd (congrArg LoopLevel.counter (List.mem_singleton.mp hm)) hc

end

/-- Something holds of every level in one of its iterations, with the counters outside as these
iterations make them. -/
def Along (P : ForHeader → LoopLevel → Bindings → Nat → Prop) :
    List ForHeader → List LoopLevel → Bindings → List Nat → Prop
  | [], [], _, [] => True
  | f :: fs, l :: ls, env, k :: ks =>
    P f l env k ∧ Along P fs ls (env.set l.counter (l.ownValue env k)) ks
  | _, _, _, _ => False

section
variable {P : ForHeader → LoopLevel → Bindings → Nat → Prop} {f : ForHeader}
  {fs : List ForHeader} {l : LoopLevel} {ls : List LoopLevel} {env : Bindings} {ks : List Nat}

theorem along_nil_iff : Along P [] [] env ks ↔ ks = [] := by
  cases ks <;> simp [Along]

theorem along_cons_iff : Along P (f :: fs) (l :: ls) env ks ↔ ∃ k inner, ks = k :: inner ∧
    P f l env k ∧ Along P fs ls (env.set l.counter (l.ownValue env k)) inner := by
  constructor
  · intro along
    cases ks with
    | nil => cases along
    | cons k ks => exact ⟨k, ks, rfl, along⟩
  · rintro ⟨k, inner, rfl, along⟩
    exact along

end

namespace KnownNest

variable {outer : List LoopLevel} {fs : List ForHeader} {ls : List LoopLevel} {env : Bindings}

/-- What follows for one level from how it was made follows along all levels. -/
theorem along_imp {P Q : ForHeader → LoopLevel → Bindings → Nat → Prop}
    (nest : KnownNest outer fs ls) (knows : env.Knows outer)
    (imp : ∀ {outer f r l ll lg ul ug step count env k}, f ∈ fs → l ∈ ls → l.BuiltFrom f r outer →
      l.Known outer ll lg ul ug step count → env.Knows outer → P f l env k → Q f l env k)
    {ks : List Nat} (along : Along P fs ls env ks) : Along Q fs ls env ks := by
  induction nest generalizing env ks with
  | nil => exact along_nil_iff.mpr (along_nil_iff.mp along)
  | cons level known _ _ ih =>
    obtain ⟨k, ks, rfl, here, inside⟩ := along_cons_iff.mp along
    refine ⟨imp List.mem_cons_self List.mem_cons_self level known knows here,
      ih (knows.set _ _) (fun hf hl => ?_) inside⟩
    exact imp (List.mem_cons_of_mem _ hf) (List.mem_cons_of_mem _ hl)

theorem along_and {P Q : ForHeader → LoopLevel → Bindings → Nat → Prop}
    (nest : KnownNest outer fs ls) {ks : List Nat} (hp : Along P fs ls env ks)
    (hq : Along Q fs ls env ks) :
    Along (fun f l env k => P f l env k ∧ Q f l env k) fs ls env ks := by
  induction nest generalizing env ks with
  | nil => exact along_nil_iff.mpr (along_nil_iff.mp hp)
  | cons _ _ _ _ ih =>
    obtain ⟨k, ks, rfl, here, inside⟩ := along_cons_iff.mp hp
    exact ⟨⟨here, hq.1⟩, ih inside hq.2⟩

/-- Along all levels of a nest there are as many counters as levels. -/
theorem length_ownPoint {P : ForHeader → LoopLevel → Bindings → Nat → Prop}
    (nest : KnownNest outer fs ls) {ks : List Nat} (along : Along P fs ls env ks) :
    (ownPoint ls env ks).length = ls.length := by
  induction nest generalizing env ks with
  | nil => rfl
  | cons _ _ _ _ ih =>
    obtain ⟨k, ks, rfl, -, inside⟩ := along_cons_iff.mp along
    exact congrArg (· + 1) (ih inside)

/-- What the levels do inside depends on the counters outside only. -/
theorem congr (nest : KnownNest outer fs ls) {env' : Bindings} (knows : env.Knows outer)
    (agree : env.AgreeOn (· ∈ countersOf outer) env') :
    ownCells ls env' = ownCells ls env ∧ ownPoint ls env' = ownPoint ls env := by
  induction nest generalizing env env' with
  | nil => exact ⟨rfl, rfl⟩
  | @cons outer f r fs l ls ll lg ul ug step count level known fresh inner ih =>
    have hvalue : l.ownValue env' = l.ownValue env := by
      funext k
      rw [LoopLevel.ownValue, LoopLevel.ownValue, known.ownLower_congr knows agree]
    have hiterations : l.ownIterations env' = l.ownIterations env := by
      rw [LoopLevel.ownIterations, LoopLevel.ownIterations, known.ownLower_congr knows agree,
        known.ownUpper_congr knows agree]
    have inside (v : Int) := ih (knows.set l v) (agree.set_both v)
    constructor
    · simp only [ownCells, hiterations, hvalue, (inside _).1]
    · funext ks
      cases ks with
      | nil => rfl
      | cons k ks => simp only [ownPoint, hvalue, (inside _).2]

/-- A nest of loops that keep an order visits what its own bounds let each loop visit. -/
theorem runs (nest : KnownNest outer fs ls) (ordered : ∀ f ∈ fs, f.cond.isOrdering = true)
    {p : List Int} (hp : env.point? (countersOf outer) = some p) (knows : env.Knows outer) :
    ∃ env', NestRuns (countersOf (outer ++ ls)) fs env
        ((ownCells ls env).map fun ks => p ++ ownPoint ls env ks) env' ∧
      env.AgreeOn (· ∈ countersOf outer) env' := by
  induction nest generalizing env p with
  | nil =>
    refine ⟨env, ?_, .refl⟩
    rw [List.append_nil]
    simp only [ownCells, ownPoint, List.map_cons, List.map_nil, List.append_nil]
    exact .iteration hp
  | @cons outer f r fs l ls ll lg ul ug step count level known fresh inner ih =>
    have hr : r ≠ .notEqual := level.read.isOrdering.mp (ordered f List.mem_cons_self)
    have stops : r.Stops l.ascending (l.ownLower env) (l.ownUpper env) l.stride
        (l.ownIterations env) := by
      rw [level.read.order hr]
      exact Relation.stops_order (known.stride ▸ known.spans.step_pos)
    have body (env' : Bindings) (v : Int) (agree : env.AgreeOn (· ∈ countersOf outer) env')
        (hv : env' l.counter = some v) :
        ∃ env₁, NestRuns (countersOf (outer ++ l :: ls)) fs env'
            ((ownCells ls (env.set l.counter v)).map fun ks =>
              p ++ v :: ownPoint ls (env.set l.counter v) ks) env₁ ∧
          env.AgreeOn (· ∈ countersOf outer) env₁ ∧ env₁ l.counter = some v := by
      have same := agree.set_both (l := l) v
      rw [Bindings.set_of_eq hv] at same
      have hp' : env'.point? (countersOf (outer ++ [l])) = some (p ++ [v]) := by
        rw [countersOf, List.map_append]
        exact Bindings.point?_snoc ((Bindings.point?_congr agree).trans hp) hv
      obtain ⟨env₁, run, agree'⟩ := ih (fun f hf => ordered f (List.mem_cons_of_mem _ hf)) hp'
        ((knows.set l v).of_agree same)
      obtain ⟨hcells, hpoint⟩ := inner.congr (knows.set l v) same
      rw [List.append_assoc, List.singleton_append, hcells, hpoint] at run
      simp only [List.append_assoc, List.singleton_append] at run
      rw [countersOf, List.map_append] at agree'
      refine ⟨env₁, run, agree.trans fun d hd => agree' d (List.mem_append_left _ hd), ?_⟩
      rw [agree' l.counter (List.mem_append_right _ (List.mem_singleton_self _)), hv]
    obtain ⟨env', run, agree⟩ := NestRuns.of_counts (fun env' => known.counts level knows) stops
      fresh body
    refine ⟨env', ?_, agree⟩
    rw [ownCells, List.map_flatMap]
    simp only [List.map_map]
    exact run

/-- The iterations of a run are those in which every level is in one of its own. -/
theorem mem_ownCells (nest : KnownNest outer fs ls) {ks : List Nat} :
    ks ∈ ownCells ls env ↔ Along (fun _ l env k => k < l.ownIterations env) fs ls env ks := by
  induction nest generalizing env ks with
  | nil => simp [ownCells, along_nil_iff]
  | cons _ _ _ _ ih =>
    cases ks with
    | nil => simp [ownCells, Along]
    | cons k ks => simp [ownCells, Along, ih]

/-- A run goes through its iterations in lexicographic order. -/
theorem pairwise_ownCells (ls : List LoopLevel) (env : Bindings) :
    (ownCells ls env).Pairwise (List.Lex (· < ·)) := by
  induction ls generalizing env with
  | nil => exact List.pairwise_singleton ..
  | cons l ls ih =>
    rw [ownCells, List.pairwise_flatMap]
    refine ⟨fun k _ => ?_, List.pairwise_lt_range.imp fun {j k} hjk xs hxs ys hys => ?_⟩
    · rw [List.pairwise_map]
      exact (ih _).imp .cons
    · obtain ⟨_, -, rfl⟩ := List.mem_map.mp hxs
      obtain ⟨_, -, rfl⟩ := List.mem_map.mp hys
      exact .rel hjk

/-- The counters of the levels show in which iterations these are. -/
theorem ownPoint_injective (nest : KnownNest outer fs ls)
    {P Q : ForHeader → LoopLevel → Bindings → Nat → Prop} {js ks : List Nat}
    (hjs : Along P fs ls env js) (hks : Along Q fs ls env ks)
    (same : ownPoint ls env js = ownPoint ls env ks) : js = ks := by
  induction nest generalizing env js ks with
  | nil => rw [along_nil_iff.mp hjs, along_nil_iff.mp hks]
  | @cons outer f r fs l ls ll lg ul ug step count level known _ _ ih =>
    obtain ⟨j, js, rfl, -, hjs⟩ := along_cons_iff.mp hjs
    obtain ⟨k, ks, rfl, -, hks⟩ := along_cons_iff.mp hks
    obtain ⟨hvalue, hrest⟩ := List.cons.inj same
    have hjk : j = k := stepped_injective (known.stride ▸ known.spans.step_pos) hvalue
    subst hjk
    rw [ih hjs hks hrest]

/-- The points that a nest reaches are those at which every loop has kept its condition. -/
theorem reaches_iff (nest : KnownNest outer fs ls) {p q : List Int}
    (hp : env.point? (countersOf outer) = some p) (knows : env.Knows outer) :
    NestReaches (countersOf (outer ++ ls)) fs env q ↔
      ∃ ks, q = p ++ ownPoint ls env ks ∧
        Along (fun f l env k =>
          ∀ i ≤ k, f.holds (env.set l.counter (l.ownValue env i)) = some true) fs ls env ks := by
  induction nest generalizing env p with
  | nil =>
    rw [List.append_nil]
    constructor
    · intro reaches
      cases reaches with | iteration visit => ?_
      rw [hp] at visit
      cases visit
      exact ⟨[], (List.append_nil q).symm, trivial⟩
    · rintro ⟨ks, rfl, -⟩
      refine .iteration (hp.trans ?_)
      simp [ownPoint]
  | @cons outer f r fs l ls ll lg ul ug step count level known fresh inner ih =>
    have counts := known.counts level knows .refl
    have start := counts.start
    rw [← stepped_zero l.ascending (l.ownLower env) l.stride] at start
    have visited (k : Nat) : (env.set l.counter (l.ownValue env k)).point?
        (countersOf (outer ++ [l])) = some (p ++ [l.ownValue env k]) := by
      rw [countersOf, List.map_append]
      refine Bindings.point?_snoc ((Bindings.point?_congr ?_).trans hp) (Bindings.set_self ..)
      exact Bindings.AgreeOn.refl.set fresh _
    have inside (k : Nat) := ih (visited k) (knows.set l _)
    simp only [List.append_assoc, List.singleton_append] at inside
    have test (i : Nat) : f.holds (env.set l.counter (l.ownValue env i)) = some true ↔
        r.holds (l.ownValue env i) (l.ownUpper env) = true := by
      rw [counts.test, Option.some.injEq]
    constructor
    · intro reaches
      cases reaches with | enter start' loop body => ?_
      rw [start] at start'
      cases start'
      obtain ⟨k, -, rfl, holds⟩ := (LoopReaches.iff_of_counts counts).mp loop
      obtain ⟨ks, rfl, along⟩ := (inside k).mp body
      exact ⟨k :: ks, rfl, fun i hi => (test i).mpr (holds i (Nat.zero_le i) hi), along⟩
    · rintro ⟨ks, rfl, along⟩
      obtain ⟨k, ks, rfl, holds, along⟩ := along_cons_iff.mp along
      refine .enter start ((LoopReaches.iff_of_counts counts).mpr ⟨k, Nat.zero_le k, rfl, ?_⟩)
        ((inside k).mpr ⟨ks, rfl, along⟩)
      exact fun i _ hi => (test i).mp (holds i hi)

end KnownNest

end Directives
