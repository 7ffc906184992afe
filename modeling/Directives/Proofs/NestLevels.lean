import Directives.Loop.Canonical
import Directives.Proofs.Recognition
/-!
Which levels a nest has. Every level was made of the header of one loop and of the levels outside
it, and the loops stand inside each other in the source.
-/

namespace Directives

namespace LoopLevel

/-- The header that a level was made of, with the condition as it was written. -/
def header (l : LoopLevel) (condition : Expr) : LoopHeader where
  counter := l.counter
  counterTy := l.counterTy
  lower := l.lower
  upper := l.upper
  step := l.step
  stepValue := l.stepValue
  subtract := l.subtract
  ascending := l.ascending
  strict := l.strict
  condition := condition
  location := l.location

/-- A level has the fields of the header that it is made of. -/
theorem header_ofHeader {o : Options} {level : Nat} {h : LoopHeader} {outer : List LoopLevel}
    {decls decls' : DeclTable} {l : LoopLevel}
    (hok : ofHeader o level h outer decls = .ok (l, decls')) : l.header h.condition = h := by
  unfold ofHeader at hok
  cases hlower : boundDependency h.lower h.counterTy outer with
  | error => rw [hlower] at hok; cases hok
  | ok lower =>
    cases hupper : boundDependency h.upper h.counterTy outer with
    | error => rw [hlower, hupper] at hok; cases hok
    | ok upper =>
      rw [hlower, hupper] at hok
      cases hok
      rfl

/-- The covering range of a bound, over the outer level on which it depends. -/
def coveringIn (outer : List LoopLevel) (bound : Expr) (dependency : Option Nat) :
    Option Covering :=
  (dependency.bind (outer[·]?)).map (·.covering bound)

/-- A level was made of the header of a loop inside outer levels. -/
structure BuiltFrom (l : LoopLevel) (f : ForHeader) (r : Relation) (outer : List LoopLevel) :
    Prop where
  read : (l.header f.cond).ReadFrom f r
  lowerDependency : boundDependency l.lower l.counterTy outer = .ok l.lowerDependency
  upperDependency : boundDependency l.upper l.counterTy outer = .ok l.upperDependency
  lowerCovering : l.lowerCovering = coveringIn outer l.lower l.lowerDependency
  upperCovering : l.upperCovering = coveringIn outer l.upper l.upperDependency
  finalCondition : l.finalCondition = if l.isNonRectangular then some f.cond else none
  tripCount : l.tripCount.value = l.bounds.value?

theorem builtFrom_ofHeader {o : Options} {level : Nat} {h : LoopHeader} {outer : List LoopLevel}
    {decls decls' : DeclTable} {l : LoopLevel} {f : ForHeader} {r : Relation}
    (hok : ofHeader o level h outer decls = .ok (l, decls')) (read : h.ReadFrom f r) :
    l.BuiltFrom f r outer := by
  unfold ofHeader at hok
  cases hlower : boundDependency h.lower h.counterTy outer with
  | error => rw [hlower] at hok; cases hok
  | ok lower =>
    cases hupper : boundDependency h.upper h.counterTy outer with
    | error => rw [hlower, hupper] at hok; cases hok
    | ok upper =>
      rw [hlower, hupper] at hok
      cases hok
      exact {
        read := read.condition ▸ read
        lowerDependency := hlower
        upperDependency := hupper
        lowerCovering := rfl
        upperCovering := rfl
        finalCondition := read.condition ▸ rfl
        tripCount := rfl }

end LoopLevel

/-- Levels were made of loops inside each other, inside outer levels. -/
inductive NestLevels : (outer : List LoopLevel) → List ForHeader → List LoopLevel → Prop where
  | nil {outer} : NestLevels outer [] []
  | cons {outer f r fs l ls} (level : l.BuiltFrom f r outer)
      (inner : NestLevels (outer ++ [l]) fs ls) : NestLevels outer (f :: fs) (l :: ls)

/-- Every level was made inside the levels before it. -/
theorem NestLevels.builtFrom_take {outer : List LoopLevel} {fs : List ForHeader} {ls : List LoopLevel}
    (h : NestLevels outer fs ls) {k : Nat} {l : LoopLevel} (hk : ls[k]? = some l) :
    ∃ f r, l.BuiltFrom f r (outer ++ ls.take k) := by
  induction h generalizing k with
  | nil => cases hk
  | @cons outer f r _ l' _ level _ ih =>
    cases k with
    | zero =>
      cases hk
      rw [List.take_zero, List.append_nil]
      exact ⟨f, r, level⟩
    | succ k =>
      rw [List.take_succ_cons, ← List.singleton_append, ← List.append_assoc]
      exact ih hk

theorem Stmt.single_single (s : Stmt) : s.single.single = s.single := by
  fun_induction single s with
  | case1 _ s ih => exact ih
  | case2 s h =>
    unfold single
    split
    · rename_i l s
      exact absurd rfl (h l s)
    · rfl

theorem Stmt.loops?_single (s : Stmt) (depth : Nat) : s.single.loops? depth = s.loops? depth := by
  cases depth with
  | zero => rfl
  | succ depth => rw [loops?, loops?, single_single]

section
variable {o : Options} {remaining level : Nat} {s : Stmt} {outer : List LoopLevel}
  {failures : List (Nat × LoopFailure)} {decls : DeclTable} {n : LoopNest}

/-- A search that has seen a failure does not come to a nest. -/
theorem failures_eq_nil_of_nest
    (h : (canonicalizeFrom o remaining level s outer failures decls).1 = .nest n) : failures = [] := by
  induction remaining generalizing level s outer failures decls with
  | zero =>
    rw [canonicalizeFrom] at h
    split at h
    · rename_i none
      exact List.isEmpty_iff.mp none
    · cases h
  | succ remaining ih =>
    unfold canonicalizeFrom at h
    split at h
    · split at h
      · cases h
      · split at h
        · exact (List.append_eq_nil_iff.mp (ih h)).1
        · split at h
          · exact (List.append_eq_nil_iff.mp (ih h)).1
          · exact ih h
    · cases h

/-- A search that comes to a nest finds a level at every step. -/
theorem canonicalizeFrom_succ_eq_nest
    (h : (canonicalizeFrom o (remaining + 1) level s outer failures decls).1 = .nest n) :
    ∃ location init cond inc body header l decls', s = .forLoop location init cond inc body ∧
      s.recognize o decls = .ok header ∧
      LoopLevel.ofHeader o level header outer decls = .ok (l, decls') ∧
      (canonicalizeFrom o remaining (level + 1) body.single (outer ++ [l]) failures decls').1 =
        .nest n := by
  unfold canonicalizeFrom at h
  split at h
  · rename_i location init cond inc body
    split at h
    · cases h
    · split at h
      · rename_i found failed
        have noMore := (List.append_eq_nil_iff.mp (failures_eq_nil_of_nest h)).2
        rw [List.map_eq_nil_iff] at noMore
        exact absurd (noMore ▸ failed) Stmt.recognize_ne_error_nil
      · rename_i header recognized
        split at h
        · exact absurd (failures_eq_nil_of_nest h) (by simp)
        · rename_i l decls' made
          exact ⟨location, init, cond, inc, body, header, l, decls', rfl, recognized, made, h⟩
  · cases h

theorem canonicalizeFrom_eq_nest
    (h : (canonicalizeFrom o remaining level s outer failures decls).1 = .nest n) :
    ∃ fs ls decls', s.loops? remaining = some fs ∧ NestLevels outer fs ls ∧
      n = (LoopNest.ofLevels o (outer ++ ls) decls').1 := by
  induction remaining generalizing level s outer failures decls with
  | zero =>
    cases failures_eq_nil_of_nest h
    cases h
    refine ⟨[], [], decls, rfl, .nil, ?_⟩
    rw [List.append_nil]
    rfl
  | succ remaining ih =>
    obtain ⟨_, _, _, _, body, header, l, decls', rfl, recognized, made, inside⟩ :=
      canonicalizeFrom_succ_eq_nest h
    obtain ⟨fs, ls, decls'', hloops, levels, hn⟩ := ih inside
    obtain ⟨_, init, cond, inc, _, r, heq, read⟩ := Stmt.recognize_eq_ok recognized
    cases heq
    rw [Stmt.loops?_single] at hloops
    have built := LoopLevel.builtFrom_ofHeader made read
    refine ⟨_ :: fs, l :: ls, decls'', ?_, .cons built levels, ?_⟩
    · simp [Stmt.loops?, Stmt.single, hloops]
    · rw [hn, List.append_assoc, List.singleton_append]

end

/-- A nest for which there is room is what the search for loops comes to. -/
theorem canonicalizeFrom_of_canonicalizeLoops {o : Options} {s : Stmt} {depth : Nat}
    {decls : DeclTable} {n : LoopNest} (h : (canonicalizeLoops o s depth decls).1 = .nest n) :
    (canonicalizeFrom o depth 0 s.single [] [] decls).1 = .nest n := by
  unfold canonicalizeLoops at h
  split at h
  · exact h
  · cases h

/-- A nest that canonicalization comes to is the flattened nest of levels that were made of the
loops of the statement. -/
theorem canonicalizeLoops_eq_nest {o : Options} {s : Stmt} {depth : Nat} {decls : DeclTable}
    {n : LoopNest} (h : (canonicalizeLoops o s depth decls).1 = .nest n) :
    ∃ fs decls', s.loops? depth = some fs ∧ NestLevels [] fs n.levels ∧
      n = (LoopNest.ofLevels o n.levels decls').1 := by
  obtain ⟨fs, ls, decls', hloops, levels, hn⟩ :=
    canonicalizeFrom_eq_nest (canonicalizeFrom_of_canonicalizeLoops h)
  rw [List.nil_append] at hn
  have hls : n.levels = ls := by rw [hn]; rfl
  subst hls
  exact ⟨fs, decls', Stmt.loops?_single s depth ▸ hloops, levels, hn⟩

/-- Every level of a nest was made of a header inside the levels before it. -/
theorem builtFrom_of_canonicalizeLoops {o : Options} {s : Stmt} {depth : Nat} {decls : DeclTable}
    {n : LoopNest} (h : (canonicalizeLoops o s depth decls).1 = .nest n) {k : Nat} {l : LoopLevel}
    (level : n.levels[k]? = some l) : ∃ f r, l.BuiltFrom f r (n.levels.take k) := by
  obtain ⟨_, _, -, levels, -⟩ := canonicalizeLoops_eq_nest h
  exact levels.builtFrom_take level

/-- The recovery of a nest goes down from the induction variable. -/
theorem recovery_eq_recoveryFrom {o : Options} {s : Stmt} {depth : Nat} {decls : DeclTable}
    {n : LoopNest} (h : (canonicalizeLoops o s depth decls).1 = .nest n) :
    ∃ ty location, n.recovery =
      recoveryFrom o.iterationWidth ty location 0 (.ofDecl n.inductionVar ty location) n.levels := by
  obtain ⟨_, decls', -, -, hn⟩ := canonicalizeLoops_eq_nest h
  generalize n.levels = levels at hn
  subst hn
  exact ⟨_, _, rfl⟩

/-- A nest that canonicalization comes to has what evaluation shows of it. -/
theorem NestOutcome.exists_of_decide {outcome : NestOutcome} (P : LoopNest → Prop)
    [DecidablePred P] (h : (outcome.nest?.any fun n => decide (P n)) = true) :
    ∃ n, outcome = .nest n ∧ P n := by
  cases outcome with
  | nest n => exact ⟨n, rfl, of_decide_eq_true h⟩
  | invalid | deferred | noRoom => cases h

end Directives
