import Directives.Proofs.TaskPromotion
/-!
Which frame decides what a variable is. Frames that are silent about a variable make no difference to
its resolution. The innermost frame that is not silent settles it, by itself or, where it is a task,
with the frames around it; and the attribute names this frame. An attribute that is said to come from a
clause is that of the entry which this frame holds.
-/

namespace Directives

/-- The frame has nothing to say about the variable `var` with declaration `d`: its nature leaves open
what it is there, no clause item of it was entered or rejected, and neither a `default` clause nor the
directive gives a default. -/
structure Frame.IsSilent (f : Frame) (o : Options) (var : DeclId) (d : VarDecl) : Prop
    extends f.LeavesOpen o var d where
  noEntry : f.entryOf? var = none
  notRejected : f.isRejected var = false
  unspecified : f.defaultMode = .unspecified
  notParallel : f.kind.isParallel = false
  notTeams : f.kind.isTeams = false
  notTask : f.kind.isTask = false

/-- The entry is what the attribute says that a clause gave, written or implicit. -/
structure Attribute.Cites (a : Attribute) (e : Entry) : Prop where
  kind : a.kind = e.kind
  modifier : a.modifier = e.modifier
  location : a.location = some e.location
  origin : a.origin = if e.implicit then .implicit else .explicit

theorem Entry.cites_toAttribute (e : Entry) (i : Nat) : (e.toAttribute i).Cites e :=
  ⟨rfl, rfl, rfl, rfl⟩

section
variable {o : Options} {decls : DeclTable} {id var : DeclId} {d : VarDecl} {f : Frame} {i : Nat}
  {inner outer frames : List Frame} {a : Attribute}

theorem Frame.defaultAnswer_eq_silent (h : f.defaultAnswer i d = .silent) :
    f.defaultMode = .unspecified ∧ f.kind.sharesByDefault = false ∧ f.kind.isTask = false := by
  unfold defaultAnswer defaultAnswer.byDefault at h
  split at h
  · cases h
  · cases h
  · split at h <;> cases h
  · split at h <;> cases h
  · rename_i unspecified
    split at h
    · cases h
    · rename_i notShared
      split at h
      · cases h
      · rename_i notTask
        exact ⟨unspecified, Bool.eq_false_iff.mpr notShared, Bool.eq_false_iff.mpr notTask⟩

/-- A frame answers nothing exactly where it has nothing to say. -/
theorem Frame.answer_eq_silent_iff : f.answer o var d i = .silent ↔ f.IsSilent o var d := by
  have entryIf (admits : Sharing → Bool) (kind : Sharing) :
      answer.entryIf var d i f admits kind ≠ .silent := by
    unfold answer.entryIf
    split
    · split <;> exact nofun
    · exact nofun
  constructor
  · intro h
    unfold answer at h
    split at h
    · exact absurd h (entryIf _ _)
    · rename_i counter
      split at h
      · cases h
      · rename_i notLocal
        split at h
        · exact absurd h (entryIf _ _)
        · rename_i notConst
          split at h
          · cases h
          · rename_i noEntry
            split at h
            · cases h
            · rename_i notRejected
              obtain ⟨unspecified, notShared, notTask⟩ := defaultAnswer_eq_silent h
              rw [DirectiveKind.sharesByDefault, Bool.or_eq_false_iff] at notShared
              constructor
              · exact ⟨counter, Bool.eq_false_iff.mpr notLocal, Bool.eq_false_iff.mpr notConst⟩
              · exact noEntry
              · exact Bool.eq_false_iff.mpr notRejected
              · exact unspecified
              · exact notShared.1
              · exact notShared.2
              · exact notTask
  · intro h
    simp [answer, h.counter, h.isLocal, h.notConst, h.noEntry, h.notRejected, defaultAnswer,
      h.unspecified, DirectiveKind.sharesByDefault, h.notParallel, h.notTeams, h.notTask]

instance : Decidable (f.IsSilent o var d) :=
  decidable_of_iff (f.answer o var d 0 = .silent) Frame.answer_eq_silent_iff

/-! ## One frame, then all -/

/-- A silent frame passes the question on. -/
theorem resolveDeclared_cons_of_silent (h : f.IsSilent o var d) :
    resolveDeclared o var d (f :: outer) = resolveDeclared o var d outer := by
  rw [resolveDeclared, Frame.answer_eq_silent_iff.mpr h]

/-- A frame that is not silent names itself in what it resolves, and cites its own entry where a clause
gave the attribute. -/
theorem resolveDeclared_cons_of_not_silent (speaks : ¬ f.IsSilent o var d)
    (h : resolveDeclared o var d (f :: outer) = .resolved a) :
    a.frame = some outer.length ∧
      (a.origin = .explicit ∨ a.origin = .implicit → ∃ e, f.entryOf? var = some e ∧ a.Cites e) := by
  rw [resolveDeclared] at h
  split at h
  · rename_i r answer
    subst h
    obtain ⟨here, ⟨e, entry, rfl⟩ | fixed | byDefault⟩ := Frame.answer_eq_resolved answer
    · exact ⟨here, fun _ => ⟨e, entry, e.cites_toAttribute _⟩⟩
    · exact ⟨here, by simp [fixed]⟩
    · exact ⟨here, by simp [byDefault]⟩
  · obtain ⟨here, inherited⟩ := Promotion.frame_of_resolved h
    exact ⟨here, by simp [inherited]⟩
  · rename_i answer
    exact absurd (Frame.answer_eq_silent_iff.mp answer) speaks

/-- Silent frames inside make no difference. -/
theorem resolveDeclared_append_of_silent (silent : ∀ g ∈ inner, g.IsSilent o var d) :
    resolveDeclared o var d (inner ++ outer) = resolveDeclared o var d outer := by
  induction inner with
  | nil => rfl
  | cons g rest ih =>
    rw [List.forall_mem_cons] at silent
    rw [List.cons_append, resolveDeclared_cons_of_silent silent.1, ih silent.2]

theorem resolveAt_eq_resolveDeclared (declared : decls.get? (decls.canonical id) = some d)
    (notThreadprivate : d.threadprivate = false) (frames : List Frame) (level : Nat) :
    resolveAt o decls frames level id =
      resolveDeclared o (decls.canonical id) d (frames.take level).reverse := by
  simp only [resolveAt, resolve, declared, notThreadprivate, Bool.false_eq_true, ↓reduceIte]

/-- What holds of the open frames at `n` and inside it holds of all members of their list. -/
theorem forall_mem_open_frames {depth n : Nat} {P : Frame → Prop}
    (h : ∀ j < depth, n ≤ j → ∀ g, frames[j]? = some g → P g) :
    ∀ g ∈ ((frames.take depth).drop n).reverse, P g := by
  intro g hg
  obtain ⟨j, hj⟩ := List.getElem?_of_mem (List.mem_reverse.mp hg)
  rw [List.getElem?_drop, List.getElem?_take] at hj
  split at hj
  · rename_i below
    exact h _ below (Nat.le_add_right ..) g hj
  · cases hj

/-- The open frames, innermost first, are those inside a frame, this frame, and those around it. -/
theorem reverse_take_at {depth : Nat} (is : frames[i]? = some f) (below : i < depth) :
    (frames.take depth).reverse =
      ((frames.take depth).drop (i + 1)).reverse ++ f :: (frames.take i).reverse := by
  have upTo : (frames.take depth).take (i + 1) = frames.take (i + 1) := by
    rw [List.take_take, Nat.min_eq_left below]
  rw [← reverse_take_succ is, ← List.reverse_append, ← upTo, List.take_append_drop]

end

/-- Of `depth` frames that are open, listed outermost first, the innermost one that is not silent about
a variable decides what it is: without the frames inside it the variable resolves in the same way, what
it resolves to names this frame, and comes from a clause only with the entry of this frame. Where all
frames are silent, variables with static storage and data members are shared, by no frame, and others
are unresolved. -/
theorem innermost_speaker_decides {o : Options} {decls : DeclTable} {frames : List Frame} {depth : Nat}
    {id : DeclId} {d : VarDecl} (declared : decls.get? (decls.canonical id) = some d)
    (notThreadprivate : d.threadprivate = false) :
    let silentAt (j : Nat) : Prop :=
      ∀ g, frames[j]? = some g → g.IsSilent o (decls.canonical id) d
    let resolution := resolveAt o decls frames depth id
    ((∀ j < depth, silentAt j) →
      if d.hasStaticStorage || d.isDataMember then
        ∃ a, resolution = .resolved a ∧ a.kind = .shared ∧ a.frame = none
      else resolution = .unresolved) ∧
    ∀ i < depth, ¬ silentAt i → (∀ j < depth, i < j → silentAt j) →
      resolution = resolveAt o decls (frames.take (i + 1)) (i + 1) id ∧
      ∀ a, resolution = .resolved a → a.frame = some i ∧
        (a.origin = .explicit ∨ a.origin = .implicit →
          ∃ f e, frames[i]? = some f ∧ f.entryOf? (decls.canonical id) = some e ∧ a.Cites e) := by
  intro silentAt resolution
  have resolved (frames : List Frame) (level : Nat) :=
    resolveAt_eq_resolveDeclared (o := o) declared notThreadprivate frames level
  constructor
  · intro silent
    have outside : resolution = d.outside := by
      have all := forall_mem_open_frames (n := 0) fun j below _ => silent j below
      have past := @resolveDeclared_append_of_silent _ _ _ _ [] all
      rw [List.append_nil] at past
      exact (resolved frames depth).trans past
    rw [outside, VarDecl.outside]
    split
    · exact ⟨_, rfl, rfl, rfl⟩
    · rfl
  · intro i below speaks silent
    obtain ⟨f, is, speaks⟩ : ∃ f, frames[i]? = some f ∧ ¬ f.IsSilent o (decls.canonical id) d := by
      simpa [silentAt] using speaks
    have position : (frames.take i).reverse.length = i := by
      have within := (List.getElem?_eq_some_iff.mp is).1
      simp
      omega
    have inside := forall_mem_open_frames (n := i + 1) silent
    have decided : resolution =
        resolveDeclared o (decls.canonical id) d (f :: (frames.take i).reverse) := by
      rw [← resolveDeclared_append_of_silent inside, ← reverse_take_at is below]
      exact resolved frames depth
    constructor
    · rw [decided, resolved, List.take_take, Nat.min_self, reverse_take_succ is]
    · intro a ha
      obtain ⟨here, cites⟩ := resolveDeclared_cons_of_not_silent speaks (decided.symm.trans ha)
      refine ⟨here.trans (congrArg some position), fun fromClause => ?_⟩
      obtain ⟨e, entry, cited⟩ := cites fromClause
      exact ⟨f, e, is, entry, cited⟩

/-- A placeholder of `x` resolves to the implicit entry for `x` of a `single` region, past two silent
regions; the task inside these is not open. A variable of file scope about which all regions are silent
is shared. -/
theorem innermost_speaker_decides_placeholder :
    let x : VarDecl :=
      { id := ⟨0⟩, name := "x", ty := .int32, storage := .automatic, scope := .function
        location := ⟨1, 1⟩ }
    let placeholder := { x with id := ⟨1⟩, captureOf := some ⟨0⟩, synthesized := true }
    let g := { x with id := ⟨2⟩, name := "g", scope := .file }
    let decls : DeclTable := ⟨[x, placeholder, g]⟩
    let frame (kind : DirectiveKind) : Frame := { kind }
    let entry : Entry := { kind := .firstprivate, location := ⟨2, 3⟩, implicit := true }
    let frames := [frame .parallel, (frame .single).setEntry ⟨0⟩ entry, frame .critical,
      frame .taskgroup, frame .task]
    (∃ a, resolveAt {} decls frames 4 ⟨1⟩ = .resolved a ∧
        resolveAt {} decls (frames.take 2) 2 ⟨1⟩ = .resolved a ∧ a.frame = some 1 ∧ a.Cites entry) ∧
      ∃ a, resolveAt {} decls (frames.drop 2) 2 ⟨2⟩ = .resolved a ∧ a.kind = .shared ∧
        a.frame = none := by
  intro x placeholder g decls frame entry frames
  constructor
  · obtain ⟨same, answers⟩ := (@innermost_speaker_decides {} decls frames 4 ⟨1⟩ x rfl rfl).2 1 (by decide)
      (fun silent => absurd (silent _ rfl) (by decide)) (by
        intro j below inside
        obtain rfl | rfl : j = 2 ∨ j = 3 := by omega
        all_goals
          intro f is
          cases is
          decide)
    obtain ⟨a, resolved, implicit⟩ : ∃ a, resolveAt {} decls frames 4 ⟨1⟩ = .resolved a ∧
        a.origin = .implicit := ⟨_, rfl, rfl⟩
    obtain ⟨here, cites⟩ := answers a resolved
    obtain ⟨f, e, is, held, cited⟩ := cites (.inr implicit)
    cases is
    cases held
    exact ⟨a, resolved, same ▸ resolved, here, cited⟩
  · have outside := (@innermost_speaker_decides {} decls (frames.drop 2) 2 ⟨2⟩ g rfl rfl).1 (by
        intro j below f is
        obtain rfl | rfl : j = 0 ∨ j = 1 := by omega
        all_goals
          cases is
          decide)
    exact outside

end Directives
