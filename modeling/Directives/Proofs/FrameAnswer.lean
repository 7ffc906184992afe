import Directives.Resolution
/-!
What one frame says about a variable. Where the nature of the variable does not fix the attribute,
an entry counts as it is recorded; and an attribute that is said to be implicit is that of an
implicit entry. An attribute names the frame that determined it, by its position.
-/

namespace Directives

namespace Frame

variable {o : Options} {f : Frame} {var : DeclId} {d : VarDecl} {i : Nat} {e : Entry}
  {a : Attribute}

/-- The nature of the variable leaves open what it is in the region: it is no counter there, it is
not local, and it is not shared for being read-only. -/
structure LeavesOpen (f : Frame) (o : Options) (var : DeclId) (d : VarDecl) : Prop where
  counter : f.counter? var = none
  isLocal : f.isLocal var = false
  notConst : (o.sharesConst && d.ty.isReadOnly) = false

theorem LeavesOpen.congr {f' : Frame} (h : f.LeavesOpen o var d) (counters : f'.counters = f.counters)
    (locals : f'.locals = f.locals) : f'.LeavesOpen o var d where
  counter := by rw [counter?, counters]; exact h.counter
  isLocal := by rw [Frame.isLocal, locals]; exact h.isLocal
  notConst := h.notConst

theorem answer_of_entry (h : f.LeavesOpen o var d) (he : f.entryOf? var = some e) :
    f.answer o var d i = .settled (.resolved (e.toAttribute i)) := by
  simp only [answer, h.counter, h.isLocal, h.notConst, he, Bool.false_eq_true, ↓reduceIte]

/-- Where the nature of a variable without entry does not leave it open, it fixes the attribute. -/
theorem answer_of_not_leavesOpen (h : ¬ f.LeavesOpen o var d) (he : f.entryOf? var = none) :
    ∃ a, f.answer o var d i = .settled (.resolved a) ∧ a.origin = .predetermined ∧
      a.frame = some i := by
  unfold answer
  cases hc : f.counter? var with
  | some kind =>
    simp only [answer.entryIf, he, answer.fixed]
    exact ⟨_, rfl, rfl, rfl⟩
  | none =>
    dsimp only
    split
    · exact ⟨_, rfl, rfl, rfl⟩
    · rename_i hlocal
      split
      · simp only [answer.entryIf, he, answer.fixed]
        exact ⟨_, rfl, rfl, rfl⟩
      · rename_i hconst
        exact absurd ⟨hc, by simpa using hlocal, by simpa using hconst⟩ h

theorem defaultAnswer_eq_resolved (h : f.defaultAnswer i d = .settled (.resolved a)) :
    a.frame = some i ∧ a.origin = .default := by
  unfold defaultAnswer defaultAnswer.byDefault at h
  repeat' split at h
  all_goals
    cases h
    try exact ⟨rfl, rfl⟩

/-- A settled answer is that of an entry, or is fixed by the nature of the variable or by the
default of the frame. -/
theorem answer_eq_resolved (h : f.answer o var d i = .settled (.resolved a)) :
    a.frame = some i ∧
      ((∃ e, f.entryOf? var = some e ∧ a = e.toAttribute i) ∨
        a.origin = .predetermined ∨ a.origin = .default) := by
  have entryIf {admits : Sharing → Bool} {kind : Sharing}
      (h : answer.entryIf var d i f admits kind = .settled (.resolved a)) :
      a.frame = some i ∧ ((∃ e, f.entryOf? var = some e ∧ a = e.toAttribute i) ∨
        a.origin = .predetermined ∨ a.origin = .default) := by
    unfold answer.entryIf at h
    split at h
    · rename_i e he
      split at h
      · cases h
        exact ⟨rfl, .inl ⟨e, he, rfl⟩⟩
      · cases h
        exact ⟨rfl, .inr (.inl rfl)⟩
    · cases h
      exact ⟨rfl, .inr (.inl rfl)⟩
  unfold answer at h
  split at h
  · exact entryIf h
  · split at h
    · cases h
      exact ⟨rfl, .inr (.inl rfl)⟩
    · split at h
      · exact entryIf h
      · split at h
        · rename_i e he
          cases h
          exact ⟨rfl, .inl ⟨e, he, rfl⟩⟩
        · split at h
          · cases h
          · obtain ⟨here, byDefault⟩ := defaultAnswer_eq_resolved h
            exact ⟨here, .inr (.inr byDefault)⟩

theorem entry_of_answer_implicit (h : f.answer o var d i = .settled (.resolved a))
    (implicit : a.origin = .implicit) :
    ∃ e, f.entryOf? var = some e ∧ e.implicit = true ∧ a = e.toAttribute i := by
  obtain ⟨-, ⟨e, he, rfl⟩ | fixed | default⟩ := answer_eq_resolved h
  · refine ⟨e, he, ?_, rfl⟩
    cases hi : e.implicit with
    | true => rfl
    | false => simp [Entry.toAttribute, hi] at implicit
  · rw [fixed] at implicit
    cases implicit
  · rw [default] at implicit
    cases implicit

end Frame

variable {o : Options} {var : DeclId} {d : VarDecl} {a : Attribute} {i : Nat}

theorem Promotion.frame_of_resolved {p : Promotion} {task : Frame}
    (h : p.resolution task i = .resolved a) : a.frame = some i ∧ a.origin = .inherited := by
  cases p with
  | shared | firstprivate =>
    cases h
    exact ⟨rfl, rfl⟩
  | rejected => cases h

/-- The frame that determined an attribute is one of those that were asked. -/
theorem frame_lt_of_resolveDeclared {frames : List Frame}
    (h : resolveDeclared o var d frames = .resolved a) (hi : a.frame = some i) :
    i < frames.length := by
  induction frames with
  | nil =>
    rw [resolveDeclared, VarDecl.outside] at h
    split at h
    · cases h
      cases hi
    · cases h
  | cons f outer ih =>
    rw [resolveDeclared] at h
    split at h
    · rename_i r hanswer
      subst h
      rw [(Frame.answer_eq_resolved hanswer).1] at hi
      cases hi
      exact Nat.lt_succ_self _
    · rw [(Promotion.frame_of_resolved h).1] at hi
      cases hi
      exact Nat.lt_succ_self _
    · exact Nat.lt_succ_of_lt (ih h)

/-- An implicit attribute that the innermost frame determined is that of an implicit entry in it. -/
theorem entry_of_resolveDeclared_implicit {f : Frame} {outer : List Frame}
    (h : resolveDeclared o var d (f :: outer) = .resolved a) (implicit : a.origin = .implicit)
    (here : a.frame = some outer.length) :
    ∃ e, f.entryOf? var = some e ∧ e.implicit = true ∧ a = e.toAttribute outer.length := by
  rw [resolveDeclared] at h
  split at h
  · rename_i r hanswer
    subst h
    exact Frame.entry_of_answer_implicit hanswer implicit
  · rw [(Promotion.frame_of_resolved h).2] at implicit
    cases implicit
  · exact absurd (frame_lt_of_resolveDeclared h here) (Nat.lt_irrefl _)

theorem resolve_of_canonical {decls : DeclTable} {frames : List Frame}
    (canonical : decls.canonical var = var) (hd : decls.get? var = some d)
    (notThreadprivate : d.threadprivate = false) :
    resolve o decls frames var = resolveDeclared o var d frames := by
  simp only [resolve, canonical, hd, notThreadprivate, Bool.false_eq_true, ↓reduceIte]

end Directives
