import Directives.Proofs.FrameAnswer
/-!
What a task inherits. A task without `default` clause shares a variable that is shared at every level
around it, out to the closest frame that starts implicit or explicit tasks, or past all frames; it
gets a copy otherwise. A level is the number of frames that are open. Frames that say nothing make no
difference between the levels on their two sides, and no frame that starts tasks says nothing.
-/

namespace Directives

section
variable {o : Options} {var : DeclId} {d : VarDecl} {f : Frame} {outer frames : List Frame} {i : Nat}

theorem Frame.defaultAnswer_cases (f : Frame) (i : Nat) (d : VarDecl) :
    (∃ r, f.defaultAnswer i d = .settled r) ∨
      (f.defaultAnswer i d = .inherits ∧ f.kind.isTask = true) ∨
      (f.defaultAnswer i d = .silent ∧ f.kind.isTaskBoundary = false) := by
  unfold Frame.defaultAnswer
  split
  · exact .inl ⟨_, rfl⟩
  · exact .inl ⟨_, rfl⟩
  · split
    · exact .inl ⟨_, rfl⟩
    · exact .inl ⟨_, rfl⟩
  · split
    · exact .inl ⟨_, rfl⟩
    · exact .inl ⟨_, rfl⟩
  · split
    · exact .inl ⟨_, rfl⟩
    · rename_i notShared
      split
      · rename_i isTask
        exact .inr (.inl ⟨rfl, isTask⟩)
      · rename_i noTask
        right
        right
        simp only [DirectiveKind.sharesByDefault, Bool.not_eq_true] at notShared noTask
        exact ⟨rfl, by rw [DirectiveKind.isTaskBoundary, notShared, noTask]; rfl⟩

/-- A frame settles what a variable is, or is a task and asks the frames around it, or is silent. A
frame that starts tasks is not silent. -/
theorem Frame.answer_cases (o : Options) (var : DeclId) (d : VarDecl) (i : Nat) (f : Frame) :
    (∃ r, f.answer o var d i = .settled r) ∨
      (f.answer o var d i = .inherits ∧ f.kind.isTask = true) ∨
      (f.answer o var d i = .silent ∧ f.kind.isTaskBoundary = false) := by
  have entryIf (admits : Sharing → Bool) (kind : Sharing) :
      ∃ r, Frame.answer.entryIf var d i f admits kind = .settled r := by
    unfold Frame.answer.entryIf
    split
    · split
      · exact ⟨_, rfl⟩
      · exact ⟨_, rfl⟩
    · exact ⟨_, rfl⟩
  unfold Frame.answer
  split
  · exact .inl (entryIf _ _)
  · split
    · exact .inl ⟨_, rfl⟩
    · split
      · exact .inl (entryIf _ _)
      · split
        · exact .inl ⟨_, rfl⟩
        · split
          · exact .inl ⟨_, rfl⟩
          · exact f.defaultAnswer_cases i d

theorem Frame.answer_of_task (isTask : f.kind.isTask = true)
    (unspecified : f.defaultMode = .unspecified) (leavesOpen : f.LeavesOpen o var d)
    (noEntry : f.entryOf? var = none) (notRejected : f.isRejected var = false) :
    f.answer o var d i = .inherits := by
  have notShared : f.kind.sharesByDefault = false := by
    revert isTask
    cases f.kind <;> decide
  simp [Frame.answer, leavesOpen.counter, leavesOpen.isLocal, leavesOpen.notConst, noEntry,
    notRejected, Frame.defaultAnswer, unspecified, notShared, isTask]

/-! ## One frame after the other -/

/-- The variable is shared. -/
def Resolution.IsShared (r : Resolution) : Prop := r.kind? = some .shared

instance (r : Resolution) : Decidable r.IsShared := inferInstanceAs (Decidable (_ = _))

theorem isShared_outside : d.outside.IsShared ↔ d.hasStaticStorage = true ∨ d.isDataMember = true := by
  unfold VarDecl.outside
  split
  · rename_i static
    simp only [Bool.or_eq_true] at static
    exact ⟨fun _ => static, fun _ => rfl⟩
  · rename_i automatic
    simp only [Bool.or_eq_true] at automatic
    exact ⟨nofun, fun static => absurd static automatic⟩

theorem Promotion.isShared_resolution {p : Promotion} :
    (p.resolution f i).IsShared ↔ p = .shared := by
  cases p <;> simp [resolution, resolution.inherited, Resolution.IsShared, Resolution.kind?,
    Resolution.attr?]

/-- Where a variable is not shared, a task inside takes that over. -/
theorem promotion_of_not_isShared (h : ¬(resolveDeclared o var d frames).IsShared) :
    promotion o var d frames =
      if resolveDeclared o var d frames = .rejected then .rejected else .firstprivate := by
  induction frames with
  | nil =>
    rw [resolveDeclared] at h ⊢
    rw [isShared_outside] at h
    simp only [not_or, Bool.not_eq_true] at h
    simp [promotion, VarDecl.outside, h]
  | cons f outer ih =>
    rw [resolveDeclared] at h ⊢
    rw [promotion]
    obtain ⟨r, answer⟩ | ⟨answer, -⟩ | ⟨answer, -⟩ := f.answer_cases o var d outer.length
    · rw [answer] at h ⊢
      cases r with
      | unresolved => rfl
      | rejected => rfl
      | resolved a =>
        have notShared : a.kind ≠ .shared := by
          intro shared
          apply h
          simp [Resolution.IsShared, Resolution.kind?, Resolution.attr?, shared]
        simp [notShared]
    · rw [answer] at h ⊢
      dsimp only at h ⊢
      rw [Promotion.isShared_resolution] at h
      cases promoted : promotion o var d outer with
      | shared => exact absurd promoted h
      | firstprivate => rfl
      | rejected => rfl
    · rw [answer] at h ⊢
      exact ih h

/-- Where a frame that starts tasks shares a variable, a task inside shares it. -/
theorem promotion_of_boundary (boundary : f.kind.isTaskBoundary = true)
    (h : (resolveDeclared o var d (f :: outer)).IsShared) :
    promotion o var d (f :: outer) = .shared := by
  rw [resolveDeclared] at h
  rw [promotion]
  obtain ⟨r, answer⟩ | ⟨answer, -⟩ | ⟨-, inner⟩ := f.answer_cases o var d outer.length
  · rw [answer] at h ⊢
    cases r with
    | unresolved => cases h
    | rejected => cases h
    | resolved a =>
      have shared : a.kind = .shared := Option.some.inj h
      simp [shared, boundary]
  · rw [answer] at h ⊢
    exact Promotion.isShared_resolution.mp h
  · rw [inner] at boundary
    cases boundary

/-- Where another frame shares a variable, a task inside takes over what is around that frame. -/
theorem promotion_of_no_boundary (inner : f.kind.isTaskBoundary = false)
    (h : (resolveDeclared o var d (f :: outer)).IsShared) :
    promotion o var d (f :: outer) = promotion o var d outer := by
  rw [resolveDeclared] at h
  rw [promotion]
  obtain ⟨r, answer⟩ | ⟨-, isTask⟩ | ⟨answer, -⟩ := f.answer_cases o var d outer.length
  · rw [answer] at h ⊢
    cases r with
    | unresolved => cases h
    | rejected => cases h
    | resolved a =>
      have shared : a.kind = .shared := Option.some.inj h
      simp [shared, inner]
  · simp [DirectiveKind.isTaskBoundary, isTask] at inner
  · rw [answer]

end

/-! ## Levels -/

/-- The resolution of a variable where `level` frames are open, of those that are listed outermost
first. -/
def resolveAt (o : Options) (decls : DeclTable) (frames : List Frame) (level : Nat) (id : DeclId) :
    Resolution :=
  resolve o decls (frames.take level).reverse id

/-- Below the position `t`, the closest frame that starts tasks is the one at position `b`. -/
structure ClosestBoundary (frames : List Frame) (t b : Nat) : Prop where
  below : b < t
  starts : ∃ f, frames[b]? = some f ∧ f.kind.isTaskBoundary = true
  closest : ∀ i f, b < i → i < t → frames[i]? = some f → f.kind.isTaskBoundary = false

/-- A task at position `t` inherits from the level: some frame is open there, and the closest one that
starts tasks is. -/
structure InheritsFrom (frames : List Frame) (t level : Nat) : Prop where
  positive : 1 ≤ level
  upTo : level ≤ t
  inside : ∀ b, ClosestBoundary frames t b → b < level

/-- The variable `var` with declaration `d` is shared at every level from which the task at position
`t` inherits; where no frame around it starts tasks, it is shared outside of all frames as well. -/
structure SharedThroughout (o : Options) (decls : DeclTable) (frames : List Frame) (t : Nat)
    (var : DeclId) (d : VarDecl) : Prop where
  levels : ∀ level, InheritsFrom frames t level → (resolveAt o decls frames level var).IsShared
  outside : (∀ b, ¬ClosestBoundary frames t b) → d.hasStaticStorage = true ∨ d.isDataMember = true

/-- Of the levels from which the task at position `t` inherits, the first one outward at which the
variable is not shared is one where its listing was invalid. -/
def RejectedFirst (o : Options) (decls : DeclTable) (frames : List Frame) (t : Nat) (var : DeclId) :
    Prop :=
  ∃ level, InheritsFrom frames t level ∧ resolveAt o decls frames level var = .rejected ∧
    ∀ inner, level < inner → inner ≤ t → (resolveAt o decls frames inner var).IsShared

section
variable {frames : List Frame} {f : Frame} {t level b : Nat}

theorem inheritsFrom_self (frames : List Frame) (t : Nat) : InheritsFrom frames (t + 1) (t + 1) where
  positive := Nat.succ_pos t
  upTo := Nat.le_refl _
  inside _ closest := closest.below

theorem not_inheritsFrom_zero (frames : List Frame) (level : Nat) : ¬InheritsFrom frames 0 level := by
  intro h
  have positive := h.positive
  have upTo := h.upTo
  omega

theorem closestBoundary_succ_self (is : frames[t]? = some f) (boundary : f.kind.isTaskBoundary = true) :
    ClosestBoundary frames (t + 1) t where
  below := Nat.lt_succ_self t
  starts := ⟨f, is, boundary⟩
  closest i g above below := by omega

theorem closestBoundary_succ_iff (is : frames[t]? = some f) (inner : f.kind.isTaskBoundary = false) :
    ClosestBoundary frames (t + 1) b ↔ ClosestBoundary frames t b := by
  constructor
  · intro h
    have other : b ≠ t := by
      rintro rfl
      obtain ⟨g, is', boundary⟩ := h.starts
      cases is.symm.trans is'
      rw [inner] at boundary
      cases boundary
    have below := h.below
    exact ⟨by omega, h.starts, fun i g above below => h.closest i g above (by omega)⟩
  · intro h
    have below := h.below
    constructor
    · omega
    · exact h.starts
    · intro i g above below' is'
      by_cases last : i = t
      · subst last
        cases is.symm.trans is'
        exact inner
      · exact h.closest i g above (by omega) is'

theorem InheritsFrom.eq_of_boundary (h : InheritsFrom frames (t + 1) level)
    (is : frames[t]? = some f) (boundary : f.kind.isTaskBoundary = true) : level = t + 1 := by
  have inside := h.inside t (closestBoundary_succ_self is boundary)
  have upTo := h.upTo
  omega

theorem inheritsFrom_succ_iff (is : frames[t]? = some f) (inner : f.kind.isTaskBoundary = false) :
    InheritsFrom frames (t + 1) level ↔ level = t + 1 ∨ InheritsFrom frames t level := by
  constructor
  · intro h
    by_cases last : level = t + 1
    · exact .inl last
    · have upTo := h.upTo
      right
      constructor
      · exact h.positive
      · omega
      · intro b closest
        exact h.inside b ((closestBoundary_succ_iff is inner).mpr closest)
  · rintro (rfl | h)
    · exact inheritsFrom_self frames t
    · have upTo := h.upTo
      constructor
      · exact h.positive
      · omega
      · intro b closest
        exact h.inside b ((closestBoundary_succ_iff is inner).mp closest)

end

section
variable {o : Options} {decls : DeclTable} {frames : List Frame} {f task : Frame} {var : DeclId}
  {d : VarDecl} {t level : Nat}

/-- Outside of all frames, the nature of the variable decides. -/
theorem sharedThroughout_zero_iff :
    SharedThroughout o decls frames 0 var d ↔
      d.hasStaticStorage = true ∨ d.isDataMember = true := by
  constructor
  · intro h
    apply h.outside
    intro b closest
    exact Nat.not_lt_zero b closest.below
  · intro outside
    constructor
    · intro level inherits
      exact absurd inherits (not_inheritsFrom_zero frames level)
    · exact fun _ => outside

theorem not_rejectedFirst_zero : ¬RejectedFirst o decls frames 0 var := by
  rintro ⟨level, inherits, -⟩
  exact not_inheritsFrom_zero frames level inherits

/-- A frame that shares the variable and starts tasks ends the search. -/
theorem sharedThroughout_of_boundary (is : frames[t]? = some f)
    (boundary : f.kind.isTaskBoundary = true)
    (shared : (resolveAt o decls frames (t + 1) var).IsShared) :
    SharedThroughout o decls frames (t + 1) var d where
  levels _ h := h.eq_of_boundary is boundary ▸ shared
  outside none := absurd (closestBoundary_succ_self is boundary) (none t)

theorem not_rejectedFirst_of_boundary (is : frames[t]? = some f)
    (boundary : f.kind.isTaskBoundary = true)
    (shared : (resolveAt o decls frames (t + 1) var).IsShared) :
    ¬RejectedFirst o decls frames (t + 1) var := by
  rintro ⟨level, inherits, rejected, -⟩
  rw [← inherits.eq_of_boundary is boundary, rejected] at shared
  cases shared

/-- A frame that shares the variable and starts no tasks is passed. -/
theorem sharedThroughout_succ_iff (is : frames[t]? = some f) (inner : f.kind.isTaskBoundary = false)
    (shared : (resolveAt o decls frames (t + 1) var).IsShared) :
    SharedThroughout o decls frames (t + 1) var d ↔ SharedThroughout o decls frames t var d := by
  constructor
  · intro h
    constructor
    · intro level inherits
      exact h.levels level ((inheritsFrom_succ_iff is inner).mpr (.inr inherits))
    · intro none
      exact h.outside fun b closest => none b ((closestBoundary_succ_iff is inner).mp closest)
  · intro h
    constructor
    · intro level inherits
      obtain rfl | inherits := (inheritsFrom_succ_iff is inner).mp inherits
      · exact shared
      · exact h.levels level inherits
    · intro none
      exact h.outside fun b closest => none b ((closestBoundary_succ_iff is inner).mpr closest)

theorem rejectedFirst_succ_iff (is : frames[t]? = some f) (inner : f.kind.isTaskBoundary = false)
    (shared : (resolveAt o decls frames (t + 1) var).IsShared) :
    RejectedFirst o decls frames (t + 1) var ↔ RejectedFirst o decls frames t var := by
  constructor
  · rintro ⟨level, inherits, rejected, first⟩
    obtain rfl | inherits := (inheritsFrom_succ_iff is inner).mp inherits
    · rw [rejected] at shared
      cases shared
    · exact ⟨level, inherits, rejected, fun k above upTo => first k above (by omega)⟩
  · rintro ⟨level, inherits, rejected, first⟩
    refine ⟨level, (inheritsFrom_succ_iff is inner).mpr (.inr inherits), rejected, ?_⟩
    intro k above upTo
    by_cases last : k = t + 1
    · exact last ▸ shared
    · exact first k above (by omega)

/-- Where the innermost level does not share the variable, the search ends with what it says. -/
theorem rejectedFirst_of_not_isShared
    (h : ¬(resolveAt o decls frames (t + 1) var).IsShared) :
    RejectedFirst o decls frames (t + 1) var ↔
      resolveAt o decls frames (t + 1) var = .rejected := by
  constructor
  · rintro ⟨level, inherits, rejected, first⟩
    have upTo := inherits.upTo
    by_cases last : level = t + 1
    · exact last ▸ rejected
    · exact absurd (first (t + 1) (by omega) (Nat.le_refl _)) h
  · intro rejected
    refine ⟨t + 1, inheritsFrom_self frames t, rejected, ?_⟩
    intro k above upTo
    omega

theorem reverse_take_succ (is : frames[t]? = some f) :
    (frames.take (t + 1)).reverse = f :: (frames.take t).reverse := by
  rw [List.take_add_one, is, List.reverse_append]
  rfl

/-- What a task at position `t` inherits, said of the levels around it. The induction goes inward, from
no frame at all to the frame around the task. -/
theorem promotion_take_iff (canonical : decls.canonical var = var) (hd : decls.get? var = some d)
    (notThreadprivate : d.threadprivate = false) (within : t ≤ frames.length) :
    (promotion o var d (frames.take t).reverse = .shared ↔ SharedThroughout o decls frames t var d) ∧
      (promotion o var d (frames.take t).reverse = .rejected ↔
        RejectedFirst o decls frames t var) := by
  have resolution (level : Nat) : resolveAt o decls frames level var =
      resolveDeclared o var d (frames.take level).reverse :=
    resolve_of_canonical canonical hd notThreadprivate
  induction t with
  | zero =>
    rw [sharedThroughout_zero_iff]
    have promoted : promotion o var d (frames.take 0).reverse =
        if d.hasStaticStorage || d.isDataMember then .shared else .firstprivate := rfl
    rw [promoted, ← Bool.or_eq_true]
    have unrejected : ¬RejectedFirst o decls frames 0 var := not_rejectedFirst_zero
    split
    · rename_i outside
      exact ⟨iff_of_true rfl outside, iff_of_false nofun unrejected⟩
    · rename_i outside
      exact ⟨iff_of_false nofun outside, iff_of_false nofun unrejected⟩
  | succ t ih =>
    have is : frames[t]? = some frames[t] := List.getElem?_eq_getElem within
    specialize ih (Nat.le_of_succ_le within)
    have innermost := resolution (t + 1)
    rw [reverse_take_succ is] at innermost ⊢
    by_cases shared : (resolveAt o decls frames (t + 1) var).IsShared
    · cases boundary : frames[t].kind.isTaskBoundary with
      | true =>
        rw [promotion_of_boundary boundary (innermost ▸ shared)]
        have throughout : SharedThroughout o decls frames (t + 1) var d :=
          sharedThroughout_of_boundary is boundary shared
        have unrejected := not_rejectedFirst_of_boundary is boundary shared
        exact ⟨iff_of_true rfl throughout, iff_of_false nofun unrejected⟩
      | false =>
        rw [promotion_of_no_boundary boundary (innermost ▸ shared),
          sharedThroughout_succ_iff is boundary shared, rejectedFirst_succ_iff is boundary shared]
        exact ih
    -- The search ends at this level, whether or not the frame starts tasks.
    · rw [promotion_of_not_isShared (innermost ▸ shared), rejectedFirst_of_not_isShared shared,
        innermost]
      have never : ¬SharedThroughout o decls frames (t + 1) var d := by
        intro h
        exact shared (h.levels _ (inheritsFrom_self frames t))
      constructor
      · apply iff_of_false _ never
        split <;> exact nofun
      · split
        · rename_i rejected
          exact iff_of_true rfl rejected
        · rename_i other
          exact iff_of_false nofun other

end

/-- A task without `default` clause inherits the attribute of a variable about which its frame says
nothing. It shares the variable where every level shares it, out to the closest frame that starts
tasks; it rejects it where the first other level does; and it gets a copy in all other cases. -/
theorem task_inherits {o : Options} {decls : DeclTable} {frames : List Frame} {t : Nat} {task : Frame}
    {var : DeclId} {d : VarDecl} (is : frames[t]? = some task) (isTask : task.kind.isTask = true)
    (unspecified : task.defaultMode = .unspecified) (declared : decls.get? var = some d)
    (canonical : decls.canonical var = var) (notThreadprivate : d.threadprivate = false)
    (leavesOpen : task.LeavesOpen o var d) (noEntry : task.entryOf? var = none)
    (notRejected : task.isRejected var = false) :
    let inherited (kind : Sharing) : Resolution := .resolved
      { kind, frame := some t, location := some task.location, origin := .inherited }
    (resolveAt o decls frames (t + 1) var = inherited .shared ↔
        SharedThroughout o decls frames t var d) ∧
      (resolveAt o decls frames (t + 1) var = .rejected ↔ RejectedFirst o decls frames t var) ∧
      (resolveAt o decls frames (t + 1) var = inherited .firstprivate ↔
        ¬SharedThroughout o decls frames t var d ∧ ¬RejectedFirst o decls frames t var) := by
  intro inherited
  have inside : t < frames.length := (List.getElem?_eq_some_iff.mp is).1
  have position : (frames.take t).reverse.length = t := by simp; omega
  have answer : task.answer o var d (frames.take t).reverse.length = .inherits :=
    Frame.answer_of_task isTask unspecified leavesOpen noEntry notRejected
  have promoted : resolveAt o decls frames (t + 1) var =
      (promotion o var d (frames.take t).reverse).resolution task t := by
    rw [resolveAt, resolve_of_canonical canonical declared notThreadprivate, reverse_take_succ is,
      resolveDeclared, answer, position]
  have outside : t ≤ frames.length := Nat.le_of_lt inside
  obtain ⟨shares, rejects⟩ := promotion_take_iff (o := o) canonical declared notThreadprivate outside
  rw [promoted, ← shares, ← rejects]
  cases promotion o var d (frames.take t).reverse <;>
    simp [inherited, Promotion.resolution, Promotion.resolution.inherited]

/-- Two tasks, one in the other, share a variable that the parallel region around them shares; and a
task rejects a variable that a region around it lists in an invalid way, past a region that is silent. -/
theorem task_inherits_nested :
    let decls := (({} : DeclTable).declare "x" .int32 .automatic .function ⟨1, 1⟩).2
    let x : DeclId := ⟨0⟩
    let frame (kind : DirectiveKind) : Frame := { kind }
    let nested := [frame .parallel, frame .task, frame .critical, frame .task]
    let refused := [frame .parallel, (frame .single).reject x, frame .taskgroup, frame .task]
    ∃ d, decls.get? x = some d ∧ decls.canonical x = x ∧ (frame .task).LeavesOpen {} x d ∧
      (resolveAt {} decls nested 4 x).IsShared ∧ SharedThroughout {} decls nested 3 x d ∧
      resolveAt {} decls refused 4 x = .rejected ∧ RejectedFirst {} decls refused 3 x := by
  intro decls x frame nested refused
  let d : VarDecl :=
    { id := x, name := "x", ty := .int32, storage := .automatic, scope := .function
      location := ⟨1, 1⟩ }
  have declared : decls.get? x = some d := rfl
  have leavesOpen : (frame .task).LeavesOpen {} x d := ⟨rfl, rfl, rfl⟩
  have inNested : nested[3]? = some (frame .task) := rfl
  have inRefused : refused[3]? = some (frame .task) := rfl
  have shared := task_inherits (o := {}) inNested rfl rfl declared rfl rfl leavesOpen rfl rfl
  have refuses := task_inherits (o := {}) inRefused rfl rfl declared rfl rfl leavesOpen rfl rfl
  have rejected : resolveAt {} decls refused 4 x = .rejected := by decide +kernel
  refine ⟨d, declared, rfl, leavesOpen, by decide +kernel, ?_, rejected, refuses.2.1.mp rejected⟩
  apply shared.1.mp
  decide +kernel

end Directives
