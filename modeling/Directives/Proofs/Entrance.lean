import Directives.Proofs.InferenceReports
/-!
How a walk enters a region: its local variables are declared in a new frame, its clauses and loops are
registered there, and its implicit clauses are inferred. What the frame then holds on a variable, and
what was reported on the way, can be read off the region and its loops.
-/

namespace Directives

/-- The variables with automatic storage that are declared inside a region. -/
def Region.locals (decls : DeclTable) (r : Region) : List DeclId :=
  (((r.body.map (·.declared)).getD []).map decls.canonical).filter fun v =>
    (decls.get? v).any (·.isAutomatic)

/-- In `f'` the variables are marked as local, and nothing else is changed of what `f` says. -/
structure Frame.Declares (f : Frame) (vars : List DeclId) (f' : Frame) : Prop where
  defaultMode : f'.defaultMode = f.defaultMode
  entries : f'.entries = f.entries
  rejected : f'.rejected = f.rejected
  counters : f'.counters = f.counters
  isLocal : ∀ v, f'.isLocal v = (f.isLocal v || decide (v ∈ vars))

theorem declareLocals_declares (decls : DeclTable) (r : Region) (f : Frame) :
    f.Declares (r.locals decls) (declareLocals decls r f) := by
  unfold declareLocals Region.locals
  generalize (r.body.map (·.declared)).getD [] = ids
  induction ids generalizing f with
  | nil => exact ⟨rfl, rfl, rfl, rfl, fun v => by simp⟩
  | cons id rest ih =>
    rw [List.foldl_cons, List.map_cons, List.filter_cons]
    dsimp only
    split
    · have declared := ih (f.declareLocal (decls.canonical id))
      refine { declared with isLocal := fun v => ?_ }
      rw [declared.isLocal]
      by_cases same : decls.canonical id = v
      · subst same
        simp [Frame.isLocal, Frame.declareLocal, SortedMap.contains]
      · simp [Frame.isLocal, Frame.declareLocal, SortedMap.contains,
          SortedMap.get?_insert_of_ne _ _ same, Ne.symm same]
    · exact ih f

/-- The frame is that of a region before its clauses are registered: the variables that are declared
inside are local, and nothing else is said. -/
structure Frame.OpensFor (f : Frame) (decls : DeclTable) (r : Region) : Prop where
  defaultMode : f.defaultMode = .unspecified
  explicit : f.AllExplicit
  unknown : ∀ v, ¬ f.Knows v
  counter? : ∀ v, f.counter? v = none
  isLocal : ∀ v, f.isLocal v = decide (v ∈ r.locals decls)

theorem declareLocals_opensFor (decls : DeclTable) (r : Region) :
    (declareLocals decls r (Walk.opening r)).OpensFor decls r := by
  have declares := declareLocals_declares decls r (Walk.opening r)
  have fresh : (Walk.opening r).AllExplicit := by
    intro v e he
    cases he
  refine ⟨declares.defaultMode, fresh.congr declares.entries, fun v => ?_, fun v => ?_, fun v => ?_⟩
  · simp only [Frame.Knows, Frame.entryOf?, Frame.isRejected, declares.entries, declares.rejected]
    exact not_or.mpr ⟨Bool.false_ne_true, Bool.false_ne_true⟩
  · rw [Frame.counter?, declares.counters]
    rfl
  · rw [declares.isLocal]
    exact Bool.false_or _

namespace Walk

variable {o : Options} {r : Region} {sole : Bool} {w w₁ w₂ : Walk} {id : Nat} {f f' : Frame}
  {outer : List Frame} {nest : Option LoopNest}

/-- The scope in which the clauses of a region are registered: its frame is opened, and its local
variables are declared. -/
def opened (w : Walk) (r : Region) : Scope :=
  { w.scope with
    stack :=
      let around := w.scope.stack.noting r
      { around with frames := opening r :: around.frames }.modifyCurrent (declareLocals w.decls r) }

theorem inside_opened (hidden : w.scope.stack.hidden = 0) :
    (w.opened r).stack.Inside (declareLocals w.decls r (opening r)) (w.scope.stack.noting r).frames := by
  have pushed : { w.scope.stack.noting r with
      frames := opening r :: (w.scope.stack.noting r).frames : FrameStack }.Inside (opening r)
        (w.scope.stack.noting r).frames := ⟨rfl, (w.scope.stack.hidden_noting r).trans hidden⟩
  exact pushed.modifyCurrent (declareLocals w.decls r)

/-- What becomes of a region that is not passed by: its clauses and loops are registered. -/
theorem analyzes_arrive (hidden : w.scope.stack.hidden = 0)
    (arrived : ∀ w₁, w.arrive o r sole ≠ .passed w₁) :
    Analyzes o r (w.blank r .legal .analyzed) (w.entering r) (w.arrive o r sole) := by
  obtain ⟨_, passed, -⟩ | ⟨-, analyzed⟩ := arrive_cases o r sole hidden
  · exact absurd passed (arrived _)
  · rw [analyzed]
    exact analyzes_analyzeCurrent ..

/-- A region is entered when all that its clauses list is declared, and there is room for its loops. -/
theorem exists_registered (hidden : w.scope.stack.hidden = 0)
    (entered : w.arrive o r sole = .entered id w₁) :
    ∃ s nest w₂, registerClauses o w.decls r (w.opened r) = .ok s ∧
      ({ w with scope := s } : Walk).registerLoops o r = (.ok nest, w₂) ∧
      w₁ = w₂.conclude o r (w.blank r .legal .analyzed) nest := by
  have analyzes : Analyzes o r (w.blank r .legal .analyzed) (w.entering r) (w.arrive o r sole) :=
    analyzes_arrive hidden fun _ passed => nomatch entered.symm.trans passed
  rw [entered] at analyzes
  cases analyzes with
  | entered clauses loops => exact ⟨_, _, _, clauses, loops, rfl⟩

/-- A walk is stopped in a region by its clauses, or by its loops. -/
theorem registered_of_stopped {e : Error} (hidden : w.scope.stack.hidden = 0)
    (stopped : w.arrive o r sole = .stopped e w₁) :
    (∃ s, registerClauses o w.decls r (w.opened r) = .error (e, s) ∧ w₁ = { w with scope := s }) ∨
      ∃ s, registerClauses o w.decls r (w.opened r) = .ok s ∧
        ({ w with scope := s } : Walk).registerLoops o r = (.error e, w₁) := by
  have analyzes : Analyzes o r (w.blank r .legal .analyzed) (w.entering r) (w.arrive o r sole) :=
    analyzes_arrive hidden fun _ passed => nomatch stopped.symm.trans passed
  rw [stopped] at analyzes
  cases analyzes with
  | refused clauses => exact .inl ⟨_, clauses, rfl⟩
  | lacking clauses loops => exact .inr ⟨_, clauses, loops⟩

/-- How a walk `w` enters a region and comes to `w₁`. Where the walk is `w₂`, the clauses and loops are
registered in the frame `f`, with the frames `outer` around it; inference makes of it the frame
`f'`. -/
structure Entrance (o : Options) (r : Region) (w w₂ w₁ : Walk) (nest : Option LoopNest)
    (f f' : Frame) (outer : List Frame) : Prop where
  depth : outer.length = w.scope.stack.frames.length
  loops : (nest = none ∧ w₂.decls = w.decls) ∨
    (nest = (canonicalizeNest o r w.decls).1.nest? ∧ w₂.decls = (canonicalizeNest o r w.decls).2)
  registered : w₂.scope.stack.Inside f outer
  defaultMode : f.defaultMode = r.defaultMode
  explicit : f.AllExplicit
  knows : ∀ v d, w.decls.get? v = some d → d.threadprivate = false →
    (f.Knows v ↔ r.Lists w.decls.canonical v)
  counter? : ∀ v, f.counter? v =
    if v ∈ ownCounters w₂.decls nest then some (r.fixedSharing nest) else none
  isLocal : ∀ v, f.isLocal v =
    (decide (v ∈ r.locals w.decls) && decide (v ∉ ownCounters w₂.decls nest))
  concluded : w₁ = w₂.conclude o r (w.blank r .legal .analyzed) nest
  regions : w₂.regions = w.regions
  inferred : w₁.scope.stack.Inside f' outer
  marks : f.SameMarks f'
  entries : ∀ v d, w₂.decls.get? v = some d → ¬ f.LeavesOpen o v d → f'.entryOf? v = f.entryOf? v
  reports : ∃ clauses loops, (∀ d ∈ clauses, d.OnClause) ∧ (∀ d ∈ loops, d.OnLoop) ∧
    w₁.scope.diagnostics = w.scope.diagnostics ++ (clauses ++ (loops ++
      ((ownCounters w₂.decls nest).filterMap (f.refusedCounter? (r.fixedSharing nest)) ++
        (r.references w₂.decls).filterMap
          (inferenceReport? o w₂.decls r.kind w₂.scope.stack f))))

theorem loops_of_registerLoops (loops : w.registerLoops o r = (.ok nest, w₂)) :
    (nest = none ∧ w₂.decls = w.decls) ∨
      (nest = (canonicalizeNest o r w.decls).1.nest? ∧
        w₂.decls = (canonicalizeNest o r w.decls).2) := by
  cases registersLoops loops with
  | other => exact .inl ⟨rfl, rfl⟩
  | searched => exact .inr ⟨rfl, rfl⟩

/-- The loops of a region stop a walk where there is no room for them, before anything is declared. -/
theorem noRoom_of_registerLoops {e : Error} (loops : w.registerLoops o r = (.error e, w₂)) :
    (e = .noRoom ∧ r.kind.isLoopAssociated = true ∧ (canonicalizeNest o r w.decls).1 = .noRoom) ∧
      w₂.decls = w.decls ∧ w₂.regions = w.regions := by
  cases registersLoops loops with
  | noRoom associated outcome =>
    exact ⟨⟨rfl, associated, outcome⟩, canonicalizeNest_of_noRoom outcome, rfl⟩

theorem Entrance.decls_eq (h : Entrance o r w w₂ w₁ nest f f' outer) : w₁.decls = w₂.decls := by
  rw [h.concluded]
  rfl

theorem Entrance.extendsTo (h : Entrance o r w w₂ w₁ nest f f' outer) :
    w.decls.ExtendsTo w₂.decls := by
  obtain ⟨-, kept⟩ | ⟨-, grown⟩ := h.loops
  · rw [kept]
    exact .refl _
  · rw [grown]
    exact extendsTo_canonicalizeNest o r w.decls

theorem Entrance.decls (h : Entrance o r w w₂ w₁ nest f f' outer) : w.decls.ExtendsTo w₁.decls :=
  h.decls_eq ▸ h.extendsTo

/-- Inference leaves the marks of the counters. -/
theorem Entrance.counter?_inferred {c : DeclId} (h : Entrance o r w w₂ w₁ nest f f' outer)
    (counter : c ∈ ownCounters w₂.decls nest) : f'.counter? c = some (r.fixedSharing nest) := by
  have marked := h.counter? c
  rw [if_pos counter] at marked
  rw [Frame.counter?, h.marks.counters]
  exact marked

/-- There is one way to enter a region. -/
theorem exists_entrance (hidden : w.scope.stack.hidden = 0)
    (entered : w.arrive o r sole = .entered id w₁) :
    ∃ w₂ nest f f' outer, Entrance o r w w₂ w₁ nest f f' outer := by
  obtain ⟨s, nest, w₂, clauses, hloops, concluded⟩ := exists_registered hidden entered
  have inside₀ := inside_opened (r := r) hidden
  have opens := declareLocals_opensFor w.decls r
  obtain ⟨f₁, inside₁, mode₁, ⟨locals₁, counters₁⟩, ⟨ds₁, reported₁, onClause⟩, knows₁⟩ :=
    registerClauses_frame inside₀ clauses opens.defaultMode
  obtain ⟨f₁', works₁, explicit₁⟩ := registerClauses_works inside₀ clauses
  have sameFrame : f₁' = f₁ := by
    have same := works₁.inside.current?.symm.trans inside₁.current?
    exact Option.some.inj same
  subst sameFrame
  obtain ⟨f₂, inside₂, counts, ds₂, onLoop, reported₂⟩ :=
    registerLoops_frame (w := { w with scope := s }) inside₁ hloops
  obtain ⟨-, -, regions, -⟩ :=
    registerLoops_works (w := { w with scope := s }) inside₁ hloops
  obtain ⟨reported₃, f₃, inside₃, marks, entries⟩ := inferClauses_frame o w₂.decls inside₂ r
  refine ⟨w₂, nest, f₂, f₃, _, {
    depth := (FrameStack.framesKept_noting hidden r).length_eq
    loops := loops_of_registerLoops (w := { w with scope := s }) hloops
    registered := inside₂
    defaultMode := counts.defaultMode.trans mode₁
    explicit := (explicit₁ opens.explicit).congr counts.entries
    knows := fun v d hd notThreadprivate => ?_
    counter? := fun v => ?_
    isLocal := fun v => ?_
    concluded
    regions
    inferred := concluded ▸ inside₃
    marks
    entries
    reports := ⟨ds₁, ds₂, onClause, onLoop, ?_⟩ }⟩
  · rw [counts.knows_iff, knows₁ v d hd notThreadprivate, or_iff_right (opens.unknown v)]
  · rw [counts.counter?, Frame.counter?, counters₁, ← Frame.counter?, opens.counter?]
  · rw [counts.isLocal, Frame.isLocal, locals₁, ← Frame.isLocal, opens.isLocal]
  · have silent : (w.opened r).diagnostics = w.scope.diagnostics := rfl
    have last : w₁.scope.diagnostics = (inferClauses o w₂.decls r w₂.scope).1.diagnostics := by
      rw [concluded]
      rfl
    rw [last, reported₃, reported₂, reported₁, silent, counts.refusedCounter?_eq]
    simp only [List.append_assoc]

end Walk

end Directives
