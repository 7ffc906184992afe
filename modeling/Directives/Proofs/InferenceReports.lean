import Mathlib.Data.List.Basic
import Directives.Proofs.RegisteredFrame
import Directives.Proofs.ReferencedVariables
/-!
What inference reports. What is inferred for a variable depends on what the current frame says about
this variable alone, and an inference changes what it says about its own variable alone. So the
reports on a region are those that are due in its frame before anything is inferred.
-/

namespace Directives

/-- The frames are of the same region and say the same about the variable. -/
structure Frame.AgreesOn (var : DeclId) (f f' : Frame) : Prop where
  kind : f'.kind = f.kind
  location : f'.location = f.location
  defaultMode : f'.defaultMode = f.defaultMode
  mapDefaults : f'.mapDefaults = f.mapDefaults
  entry : f'.entryOf? var = f.entryOf? var
  rejected : f'.isRejected var = f.isRejected var
  counter : f'.counter? var = f.counter? var
  isLocal : f'.isLocal var = f.isLocal var

namespace Frame.AgreesOn

variable {o : Options} {var v : DeclId} {d : VarDecl} {f f' f'' : Frame}

theorem refl (var : DeclId) (f : Frame) : f.AgreesOn var f := ⟨rfl, rfl, rfl, rfl, rfl, rfl, rfl, rfl⟩

theorem trans (h : f.AgreesOn var f') (h' : f'.AgreesOn var f'') : f.AgreesOn var f'' where
  kind := h'.kind.trans h.kind
  location := h'.location.trans h.location
  defaultMode := h'.defaultMode.trans h.defaultMode
  mapDefaults := h'.mapDefaults.trans h.mapDefaults
  entry := h'.entry.trans h.entry
  rejected := h'.rejected.trans h.rejected
  counter := h'.counter.trans h.counter
  isLocal := h'.isLocal.trans h.isLocal

theorem answer_eq (h : f.AgreesOn var f') (i : Nat) : f'.answer o var d i = f.answer o var d i := by
  unfold Frame.answer
  simp only [h.counter, h.isLocal, h.entry, h.rejected, Frame.answer.entryIf, Frame.defaultAnswer,
    Frame.defaultAnswer.byDefault, h.kind, h.location, h.defaultMode]

theorem reject (f : Frame) (other : var ≠ v) : f.AgreesOn v (f.reject var) := by
  have entry := f.entryOf?_reject var v
  have mark := f.isRejected_reject_of_ne other
  unfold Frame.reject at entry mark ⊢
  split
  · exact .refl v f
  · rename_i absent
    rw [if_neg absent] at entry mark
    exact ⟨rfl, rfl, rfl, rfl, entry, mark, rfl, rfl⟩

theorem insertImplicit (f : Frame) (e : Entry) (other : var ≠ v) :
    f.AgreesOn v (f.insertImplicit var e).1 := by
  unfold Frame.insertImplicit
  split
  · exact .refl v f
  · exact ⟨rfl, rfl, rfl, rfl, Frame.entryOf?_setEntry_of_ne other, rfl, rfl, rfl⟩

end Frame.AgreesOn

section
variable {o : Options} {decls : DeclTable} {stack stack' : FrameStack} {f f' : Frame}
  {outer : List Frame} {directive : DirectiveKind} {var v : DeclId} {d : VarDecl}

theorem isEnclosingReductionItem_of_inside (inside : stack.Inside f outer) (var : DeclId) :
    isEnclosingReductionItem stack var = (FrameStack.innermost?.search (fun f =>
      f.kind.isParallel || f.kind.isWorksharing || f.kind.isTeams) outer).any fun found =>
        found.2.isReductionItem var := by
  have outside : stack.suppress.visible = outer := by
    rw [FrameStack.visible, FrameStack.suppress, inside.frames, inside.hidden]
    rfl
  rw [isEnclosingReductionItem, FrameStack.innermost?, outside]

/-- What is inferred for a variable depends on what the frame says about it, and on the frames
around. -/
theorem infer_congr (inside : stack.Inside f outer) (inside' : stack'.Inside f' outer)
    (agrees : f.AgreesOn var f') (canonical : decls.canonical var = var)
    (hd : decls.get? var = some d) :
    infer o decls stack' f' directive var d = infer o decls stack f directive var d := by
  have known : f'.entries.contains var = f.entries.contains var :=
    congrArg Option.isSome agrees.entry
  by_cases threadprivate : d.threadprivate = true
  · unfold infer
    rw [threadprivate]
    rfl
  · have resolved : resolve o decls stack'.visible var = resolve o decls stack.visible var := by
      have notThreadprivate := Bool.not_eq_true _ ▸ threadprivate
      rw [resolve_of_canonical canonical hd notThreadprivate,
        resolve_of_canonical canonical hd notThreadprivate, inside.visible, inside'.visible,
        resolveDeclared, resolveDeclared, agrees.answer_eq]
      simp only [Promotion.resolution, Promotion.resolution.inherited, agrees.location]
    unfold infer
    rw [known, agrees.rejected, inside.depth, inside'.depth, resolved, agrees.defaultMode,
      agrees.mapDefaults, isEnclosingReductionItem_of_inside inside,
      isEnclosingReductionItem_of_inside inside']

/-- Where the nature of a variable fixes its attribute, nothing is inferred. -/
theorem infer_of_not_leavesOpen (inside : stack.Inside f outer)
    (canonical : decls.canonical var = var) (hd : decls.get? var = some d)
    (fixed : ¬ f.LeavesOpen o var d) : infer o decls stack f directive var d = .nothing := by
  unfold infer
  split
  · rfl
  · rename_i untouched
    simp only [SortedMap.contains, Bool.or_eq_true, not_or, Bool.not_eq_true,
      Option.isSome_eq_false_iff, Option.isNone_iff_eq_none] at untouched
    obtain ⟨⟨notThreadprivate, noEntry⟩, -⟩ := untouched
    obtain ⟨a, answer, origin, here⟩ :=
      Frame.answer_of_not_leavesOpen (i := outer.length) fixed noEntry
    rw [resolve_of_canonical canonical hd notThreadprivate, inside.visible, resolveDeclared, answer,
      inside.depth]
    simp [Resolution.attr?, origin, here]

/-- A variable is left unresolved only where its nature leaves open what it is and the clauses do not
concern it. -/
theorem untouched_of_infer_unresolved (inside : stack.Inside f outer)
    (canonical : decls.canonical var = var) (hd : decls.get? var = some d)
    {context : UnresolvedContext} (h : infer o decls stack f directive var d = .unresolved context) :
    d.threadprivate = false ∧ ¬ f.Knows var ∧ f.LeavesOpen o var d := by
  have leavesOpen : f.LeavesOpen o var d := by
    refine Classical.byContradiction fun fixed => ?_
    rw [infer_of_not_leavesOpen inside canonical hd fixed] at h
    cases h
  unfold infer at h
  split at h
  · cases h
  · rename_i untouched
    simp only [SortedMap.contains, Bool.or_eq_true, not_or, Bool.not_eq_true] at untouched
    obtain ⟨⟨notThreadprivate, noEntry⟩, notRejected⟩ := untouched
    refine ⟨notThreadprivate, ?_, leavesOpen⟩
    rintro (entered | rejected)
    · exact Bool.false_ne_true (noEntry.symm.trans entered)
    · exact Bool.false_ne_true (notRejected.symm.trans rejected)

/-- Under `default(none)`, a variable is left unresolved exactly where its nature leaves open what it
is and the clauses do not concern it. -/
theorem infer_under_none (inside : stack.Inside f outer) (canonical : decls.canonical var = var)
    (hd : decls.get? var = some d) (none : f.defaultMode = .none) :
    (∃ context, infer o decls stack f directive var d = .unresolved context) ↔
      d.threadprivate = false ∧ ¬ f.Knows var ∧ f.LeavesOpen o var d := by
  constructor
  · rintro ⟨context, h⟩
    exact untouched_of_infer_unresolved inside canonical hd h
  · rintro ⟨notThreadprivate, unknown, leavesOpen⟩
    rw [Frame.Knows, not_or, Bool.not_eq_true, Bool.not_eq_true] at unknown
    obtain ⟨noEntry, notRejected⟩ := unknown
    have silent : f.entryOf? var = Option.none := Option.isNone_iff_eq_none.mp (by simpa using noEntry)
    have answer : f.answer o var d outer.length = .settled .unresolved := by
      simp only [Frame.answer, leavesOpen.counter, leavesOpen.isLocal, leavesOpen.notConst, silent,
        notRejected, Frame.defaultAnswer, none, Bool.false_eq_true, ↓reduceIte]
    have known : f.entries.contains var = false := noEntry
    refine ⟨.defaultNone, ?_⟩
    rw [infer, notThreadprivate, known, notRejected,
      resolve_of_canonical canonical hd notThreadprivate, inside.visible, resolveDeclared, answer,
      none]
    rfl

/-! ## One variable after the other -/

/-- The report on what is inferred for a variable referred to at `location`. -/
def Inference.report? (frame : Frame) (directive : DirectiveKind) (occ : Occurrence) :
    Inference → Option Diagnostic
  | .nothing | .attr _ _ => none
  | .unresolved context =>
    some
      { location := occ.2
        kind := .unresolvedUnderNoDefault context
        args := [.var occ.1, .directive frame.kind] }
  | .reductionInTask =>
    some
      { location := occ.2
        kind := .attributeConflict .reductionInTask
        args := [.var occ.1, .directive directive] }

/-- The report that is due on a referenced variable. -/
def inferenceReport? (o : Options) (decls : DeclTable) (directive : DirectiveKind)
    (stack : FrameStack) (frame : Frame) (occ : Occurrence) : Option Diagnostic :=
  (decls.get? occ.1).bind fun d =>
    (infer o decls stack frame directive occ.1 d).report? frame directive occ

theorem inferOccurrence_reports {s : Scope} (inside : s.stack.Inside f outer) (c : ImplicitClauses)
    (occ : Occurrence) :
    (inferOccurrence o decls directive (s, c) occ).1.diagnostics =
      s.diagnostics ++ (inferenceReport? o decls directive s.stack f occ).toList := by
  unfold inferOccurrence inferenceReport?
  rw [inside.current?]
  cases decls.get? occ.1 with
  | none => exact (List.append_nil _).symm
  | some d =>
    dsimp only [Option.bind_some]
    cases infer o decls s.stack f directive occ.1 d with
    | nothing => exact (List.append_nil _).symm
    | unresolved | reductionInTask => rfl
    | attr kind modifier => exact (diagnostics_copyFor s kind).trans (List.append_nil _).symm

namespace InferenceStep

variable {c c' : ImplicitClauses}

theorem agreesOn (h : InferenceStep o decls stack directive var f c f' c') (other : var ≠ v) :
    f.AgreesOn v f' := by
  cases h with
  | kept => exact .refl v f
  | rejected => exact .reject f other
  | entered => exact .insertImplicit f _ other

theorem sameMarks (h : InferenceStep o decls stack directive var f c f' c') : f.SameMarks f' := by
  cases h with
  | kept => exact .refl f
  | rejected => exact f.sameMarks_reject var
  | entered => exact f.sameMarks_insertImplicit var _

/-- An entry is made only where the nature of the variable leaves open what it is. -/
theorem entry_eq (h : InferenceStep o decls stack directive var f c f' c')
    (inside : stack.Inside f outer) (canonical : decls.canonical var = var)
    (hd : decls.get? v = some d) (fixed : ¬ f.LeavesOpen o v d) : f'.entryOf? v = f.entryOf? v := by
  cases h with
  | kept => rfl
  | rejected => exact f.entryOf?_reject var v
  | @entered d' _ _ _ _ declared inferred =>
    by_cases same : var = v
    · subst same
      cases hd.symm.trans declared
      rw [infer_of_not_leavesOpen inside canonical hd fixed] at inferred
      cases inferred
    · exact (Frame.AgreesOn.insertImplicit f _ same).entry

end InferenceStep

/-- What is reported on distinct variables is what is due before anything is inferred. -/
theorem foldl_inferOccurrence_reports {s : Scope} (inside : s.stack.Inside f outer)
    (c : ImplicitClauses) {occs : List Occurrence} (distinct : (occs.map (·.1)).Nodup)
    (canonical : ∀ occ ∈ occs, decls.canonical occ.1 = occ.1) :
    (occs.foldl (inferOccurrence o decls directive) (s, c)).1.diagnostics =
      s.diagnostics ++ occs.filterMap (inferenceReport? o decls directive s.stack f) := by
  induction occs generalizing s f c with
  | nil => exact (List.append_nil _).symm
  | cons occ rest ih =>
    obtain ⟨f₁, works₁, step⟩ : ∃ f₁,
        s.stack.Works f outer (inferOccurrence o decls directive (s, c) occ).1.stack f₁ ∧
          InferenceStep o decls s.stack directive occ.1 f c f₁ _ := inferOccurrence_works inside occ
    rw [List.map_cons, List.nodup_cons] at distinct
    rw [List.forall_mem_cons] at canonical
    have due : rest.filterMap (inferenceReport? o decls directive
          (inferOccurrence o decls directive (s, c) occ).1.stack f₁) =
        rest.filterMap (inferenceReport? o decls directive s.stack f) := by
      refine List.filterMap_congr fun later hlater => ?_
      have other : occ.1 ≠ later.1 := fun same =>
        distinct.1 (same ▸ List.mem_map_of_mem hlater)
      have agrees := step.agreesOn other
      unfold inferenceReport?
      cases hd : decls.get? later.1 with
      | none => rfl
      | some d =>
        rw [Option.bind_some, Option.bind_some,
          infer_congr inside works₁.inside agrees (canonical.2 later hlater) hd]
        unfold Inference.report?
        rw [agrees.kind]
    rw [List.foldl_cons, ih works₁.inside _ distinct.2 canonical.2, inferOccurrence_reports inside,
      due, List.append_assoc, List.filterMap_cons]
    cases inferenceReport? o decls directive s.stack f occ <;> rfl

theorem foldl_inferOccurrence_frame {s : Scope} (inside : s.stack.Inside f outer)
    (c : ImplicitClauses) {occs : List Occurrence}
    (canonical : ∀ occ ∈ occs, decls.canonical occ.1 = occ.1) :
    ∃ f', (occs.foldl (inferOccurrence o decls directive) (s, c)).1.stack.Inside f' outer ∧
      f.SameMarks f' ∧
      ∀ v d, decls.get? v = some d → ¬ f.LeavesOpen o v d → f'.entryOf? v = f.entryOf? v := by
  induction occs generalizing s f c with
  | nil => exact ⟨f, inside, .refl f, fun _ _ _ _ => rfl⟩
  | cons occ rest ih =>
    obtain ⟨f₁, works₁, step⟩ : ∃ f₁,
        s.stack.Works f outer (inferOccurrence o decls directive (s, c) occ).1.stack f₁ ∧
          InferenceStep o decls s.stack directive occ.1 f c f₁ _ := inferOccurrence_works inside occ
    rw [List.forall_mem_cons] at canonical
    obtain ⟨f₂, inside₂, marks₂, entries₂⟩ := ih works₁.inside _ canonical.2
    have marks₁ := step.sameMarks
    refine ⟨f₂, inside₂, marks₁.trans marks₂, fun v d hd fixed => ?_⟩
    have still : ¬ f₁.LeavesOpen o v d := fun leavesOpen =>
      fixed (leavesOpen.congr marks₁.counters.symm marks₁.locals.symm)
    rw [entries₂ v d hd still, step.entry_eq inside canonical.1 hd fixed]

end

/-! ## The references of a region -/

/-- The references in the body of a region that reach the region itself, the first to each
variable. -/
def Region.references (decls : DeclTable) (r : Region) : List Occurrence :=
  (r.body.map (referencedVariables decls)).getD []

/-- What inferring the implicit clauses of a region reports, and what it leaves of its frame. -/
theorem inferClauses_frame (o : Options) (decls : DeclTable) {f : Frame} {outer : List Frame}
    {s : Scope} (inside : s.stack.Inside f outer) (r : Region) :
    (inferClauses o decls r s).1.diagnostics = s.diagnostics ++
        (r.references decls).filterMap (inferenceReport? o decls r.kind s.stack f) ∧
      ∃ f', (inferClauses o decls r s).1.stack.Inside f' outer ∧ f.SameMarks f' ∧
        ∀ v d, decls.get? v = some d → ¬ f.LeavesOpen o v d → f'.entryOf? v = f.entryOf? v := by
  unfold inferClauses Region.references
  cases r.body with
  | none => exact ⟨(List.append_nil _).symm, f, inside, .refl f, fun _ _ _ _ => rfl⟩
  | some body =>
    have canonical : ∀ occ ∈ referencedVariables decls body, decls.canonical occ.1 = occ.1 :=
      fun _ => canonical_of_mem_referencedVariables
    exact ⟨foldl_inferOccurrence_reports inside _ (nodup_referencedVariables decls body) canonical,
      foldl_inferOccurrence_frame inside _ canonical⟩

end Directives
