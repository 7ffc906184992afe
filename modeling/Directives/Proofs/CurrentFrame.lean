import Directives.Analysis.Walk
import Directives.Proofs.Declarations
/-!
What is done while a region is open is done in its own frame: clauses, counters and inferred
attributes are recorded in the current frame, and the frames around it stay as they are. The frame
stays that of the same region, and private copies are only handed out. Clauses leave entries that
are marked as explicit.
-/

namespace Directives

namespace Frame

variable {f : Frame} {var v : DeclId} {e : Entry}

@[simp] theorem entryOf?_setEntry_self : (f.setEntry var e).entryOf? var = some e :=
  SortedMap.get?_insert_self ..

theorem entryOf?_setEntry_of_ne (h : var ≠ v) : (f.setEntry var e).entryOf? v = f.entryOf? v :=
  SortedMap.get?_insert_of_ne _ _ h

@[simp] theorem entries_reject (f : Frame) (var : DeclId) : (f.reject var).entries = f.entries := by
  unfold reject
  split <;> rfl

/-- What recording an explicit entry can come to. -/
inductive InsertsExplicit (f : Frame) (var : DeclId) (e : Entry) : Frame × Insertion → Prop where
  | first (unknown : f.entryOf? var = none) :
      InsertsExplicit f var e ({ f.setEntry var e with rejected := f.rejected.erase var }, .inserted)
  | replaced {old} (held : f.entryOf? var = some old) (gives : old.implicit = true) :
      InsertsExplicit f var e (f.setEntry var e, .inserted)
  | merged {old} (held : f.entryOf? var = some old) (stays : old.implicit = false)
      (first : old.kind = .firstprivate) (last : e.kind = .lastprivate) :
      InsertsExplicit f var e
        (f.setEntry var { e with alsoFirstprivate := true, copy := old.copy.or e.copy }, .merged)
  | joined {old} (held : f.entryOf? var = some old) (stays : old.implicit = false)
      (last : old.kind = .lastprivate) (first : e.kind = .firstprivate)
      (single : old.alsoFirstprivate = false) :
      InsertsExplicit f var e (f.setEntry var { old with alsoFirstprivate := true }, .merged)
  | duplicate {old} (held : f.entryOf? var = some old) (stays : old.implicit = false)
      (shared : old.kind = .shared) (again : e.kind = .shared) :
      InsertsExplicit f var e (f, .duplicate)
  | conflict {old} (held : f.entryOf? var = some old) (stays : old.implicit = false) :
      InsertsExplicit f var e (f, .conflict old)

theorem insertsExplicit (f : Frame) (var : DeclId) (e : Entry) :
    f.InsertsExplicit var e (f.insertExplicit var e) := by
  unfold insertExplicit
  cases held : f.entryOf? var with
  | none => exact .first held
  | some old =>
    dsimp only
    split
    · rename_i gives
      exact .replaced held gives
    · rename_i stays
      have stays : old.implicit = false := Bool.eq_false_iff.mpr stays
      split
      · rename_i first last
        exact .merged held stays first last
      · rename_i last first
        split
        · exact .conflict held stays
        · rename_i single
          exact .joined held stays last first (Bool.eq_false_iff.mpr single)
      · rename_i shared again
        exact .duplicate held stays shared again
      · exact .conflict held stays

/-- An implicit entry is turned down where the variable is known, and recorded where it is not. -/
theorem insertImplicit_cases (f : Frame) (var : DeclId) (e : Entry) :
    f.insertImplicit var e = (f, false) ∨
      (f.entryOf? var = none ∧ f.isRejected var = false ∧
        f.insertImplicit var e = (f.setEntry var { e with implicit := true }, true)) := by
  unfold insertImplicit
  split
  · exact .inl rfl
  · rename_i unknown
    simp only [SortedMap.contains, Bool.or_eq_true, not_or, Bool.not_eq_true,
      Option.isSome_eq_false_iff, Option.isNone_iff_eq_none] at unknown
    exact .inr ⟨unknown.1, unknown.2, rfl⟩

/-- Every entry stems from a clause. -/
def AllExplicit (f : Frame) : Prop := ∀ v e, f.entryOf? v = some e → e.implicit = false

theorem AllExplicit.congr {f' : Frame} (h : f.AllExplicit) (same : f'.entries = f.entries) :
    f'.AllExplicit := by
  intro v e he
  rw [entryOf?, same] at he
  exact h v e he

theorem AllExplicit.setEntry (h : f.AllExplicit) (explicit : e.implicit = false) :
    (f.setEntry var e).AllExplicit := by
  intro v e' he'
  by_cases hv : var = v
  · subst hv
    rw [entryOf?_setEntry_self] at he'
    cases he'
    exact explicit
  · rw [entryOf?_setEntry_of_ne hv] at he'
    exact h v e' he'

theorem AllExplicit.insertExplicit (h : f.AllExplicit) (var : DeclId)
    (explicit : e.implicit = false) : (f.insertExplicit var e).1.AllExplicit := by
  have inserts := f.insertsExplicit var e
  generalize f.insertExplicit var e = result at inserts ⊢
  cases inserts with
  | first => exact (h.setEntry explicit : (f.setEntry var e).AllExplicit).congr rfl
  | replaced | merged => exact h.setEntry explicit
  | @joined old held => exact h.setEntry (h var old held)
  | duplicate | conflict => exact h

/-- The frame `f'` is that of the same open region as `f`: what was recorded in between concerns
variables, clauses and loops, and no cancellation was noted. -/
structure Continues (f f' : Frame) : Prop where
  kind : f'.kind = f.kind
  name : f'.name = f.name
  cancelPresent : f'.flags.cancelPresent = f.flags.cancelPresent

theorem Continues.refl (f : Frame) : f.Continues f := ⟨rfl, rfl, rfl⟩

theorem Continues.trans {f f' f'' : Frame} (h : f.Continues f') (h' : f'.Continues f'') :
    f.Continues f'' where
  kind := h'.kind.trans h.kind
  name := h'.name.trans h.name
  cancelPresent := h'.cancelPresent.trans h.cancelPresent

theorem continues_reject (f : Frame) (var : DeclId) : f.Continues (f.reject var) := by
  unfold reject
  split
  · exact .refl f
  · exact ⟨rfl, rfl, rfl⟩

theorem continues_insertExplicit (f : Frame) (var : DeclId) (e : Entry) :
    f.Continues (f.insertExplicit var e).1 := by
  have inserts := f.insertsExplicit var e
  generalize f.insertExplicit var e = result at inserts ⊢
  cases inserts with
  | first | replaced | merged | joined => exact ⟨rfl, rfl, rfl⟩
  | duplicate | conflict => exact .refl f

theorem continues_insertImplicit (f : Frame) (var : DeclId) (e : Entry) :
    f.Continues (f.insertImplicit var e).1 := by
  obtain same | ⟨-, -, recorded⟩ := f.insertImplicit_cases var e
  · rw [same]
    exact .refl f
  · rw [recorded]
    exact ⟨rfl, rfl, rfl⟩

end Frame

/-- The frame `f` is the current one, the frames `outer` stand around it, and none is hidden. -/
structure FrameStack.Inside (s : FrameStack) (f : Frame) (outer : List Frame) : Prop where
  frames : s.frames = f :: outer
  hidden : s.hidden = 0

namespace FrameStack.Inside

variable {s : FrameStack} {f : Frame} {outer : List Frame}

theorem visible (h : s.Inside f outer) : s.visible = f :: outer := by
  rw [FrameStack.visible, h.frames, h.hidden, List.drop_zero]

theorem current? (h : s.Inside f outer) : s.current? = some f := by
  rw [FrameStack.current?, h.visible, List.head?_cons]

theorem depth (h : s.Inside f outer) : s.depth = outer.length + 1 := by
  rw [FrameStack.depth, h.visible, List.length_cons]

theorem modifyCurrent (h : s.Inside f outer) (change : Frame → Frame) :
    (s.modifyCurrent change).Inside (change f) outer where
  frames := by
    rw [FrameStack.modifyCurrent, h.frames, h.hidden]
    rfl
  hidden := h.hidden

end FrameStack.Inside

/-- Work in the current frame `f` of a stack: it leaves the frame `f'` of the same region inside the
same frames, and takes private copies at most. -/
structure FrameStack.Works (s : FrameStack) (f : Frame) (outer : List Frame) (s' : FrameStack)
    (f' : Frame) : Prop where
  inside : s'.Inside f' outer
  continues : f.Continues f'
  copies : s.nextCopy ≤ s'.nextCopy

namespace FrameStack.Works

variable {s s' s'' : FrameStack} {f f' f'' : Frame} {outer : List Frame}

theorem refl (h : s.Inside f outer) : s.Works f outer s f := ⟨h, .refl f, Nat.le_refl _⟩

theorem trans (h : s.Works f outer s' f') (h' : s'.Works f' outer s'' f'') :
    s.Works f outer s'' f'' where
  inside := h'.inside
  continues := h.continues.trans h'.continues
  copies := Nat.le_trans h.copies h'.copies

theorem modifyCurrent (h : s.Works f outer s' f') (change : Frame → Frame)
    (continues : f'.Continues (change f')) :
    s.Works f outer (s'.modifyCurrent change) (change f') where
  inside := h.inside.modifyCurrent change
  continues := h.continues.trans continues
  copies := h.copies

end FrameStack.Works

section
variable {s s' : Scope} {f : Frame} {outer : List Frame} {o : Options} {decls : DeclTable}
  {directive : DirectiveKind}

theorem Scope.copyFor_works (h : s.stack.Inside f outer) (kind : Sharing) :
    s.stack.Works f outer (s.copyFor kind).2.stack f := by
  unfold copyFor
  split
  · exact ⟨⟨h.frames, h.hidden⟩, .refl f, Nat.le_succ _⟩
  · exact .refl h

theorem registerMode_works (directive : DirectiveKind) (h : s.stack.Inside f outer) (c : Clause) :
    ∃ f', s.stack.Works f outer (registerMode directive s c).stack f' ∧
      f'.entries = f.entries := by
  have here := FrameStack.Works.refl h
  unfold registerMode
  split
  · exact ⟨_, here.modifyCurrent _ ⟨rfl, rfl, rfl⟩, rfl⟩
  · split
    · exact ⟨_, here.modifyCurrent _ ⟨rfl, rfl, rfl⟩, rfl⟩
    · exact ⟨f, here, rfl⟩
  · exact ⟨_, here.modifyCurrent _ ⟨rfl, rfl, rfl⟩, rfl⟩
  · exact ⟨_, here.modifyCurrent _ ⟨rfl, rfl, rfl⟩, rfl⟩
  · exact ⟨_, here.modifyCurrent _ ⟨rfl, rfl, rfl⟩, rfl⟩
  · exact ⟨_, here.modifyCurrent _ ⟨rfl, rfl, rfl⟩, rfl⟩
  · exact ⟨f, here, rfl⟩

theorem foldl_registerMode_works (directive : DirectiveKind) (h : s.stack.Inside f outer)
    (clauses : List Clause) :
    ∃ f', s.stack.Works f outer (clauses.foldl (registerMode directive) s).stack f' ∧
      f'.entries = f.entries := by
  induction clauses generalizing s f with
  | nil => exact ⟨f, .refl h, rfl⟩
  | cons c rest ih =>
    obtain ⟨f₁, works₁, same₁⟩ := registerMode_works directive h c
    obtain ⟨f₂, works₂, same₂⟩ := ih works₁.inside
    exact ⟨f₂, works₁.trans works₂, same₂.trans same₁⟩

theorem enterItem_works (h : s.stack.Inside f outer) (item : ClauseItem) (var : DeclId)
    (d : VarDecl) (kind : Sharing) (modifier : Modifier) :
    ∃ f', s.stack.Works f outer (enterItem item var d kind modifier s).stack f' ∧
      (f.AllExplicit → f'.AllExplicit) := by
  have copied := Scope.copyFor_works h kind
  have continues := f.continues_insertExplicit var
    { kind, modifier, copy := (s.copyFor kind).1, location := item.location
      ofPointee := item.ofSection && d.ty.isPointer }
  unfold enterItem
  simp only [copied.inside.current?]
  split
  · exact ⟨f, copied, id⟩
  · rename_i f' _ _ hinsert
    rw [hinsert] at continues
    refine ⟨f', copied.modifyCurrent (fun _ => f') continues, fun explicit => ?_⟩
    have kept := explicit.insertExplicit var (e :=
      { kind, modifier, copy := (s.copyFor kind).1, location := item.location
        ofPointee := item.ofSection && d.ty.isPointer }) rfl
    rwa [hinsert] at kept

theorem registerItem_works (h : s.stack.Inside f outer) {clause : ClauseKind} {item : ClauseItem}
    (hok : registerItem o decls directive clause item s = .ok s') :
    ∃ f', s.stack.Works f outer s'.stack f' ∧ (f.AllExplicit → f'.AllExplicit) := by
  have here := FrameStack.Works.refl h
  unfold registerItem at hok
  dsimp only at hok
  split at hok
  · cases hok
  · cases hok
    split
    · exact ⟨f, here, id⟩
    · exact ⟨f, here, id⟩
    · exact ⟨_, here.modifyCurrent _ (f.continues_reject _),
        fun explicit => explicit.congr (Frame.entries_reject f _)⟩
    · exact enterItem_works h ..

theorem registerItems_works (h : s.stack.Inside f outer) {items : List (ClauseKind × ClauseItem)}
    (hok : registerItems o decls directive items s = .ok s') :
    ∃ f', s.stack.Works f outer s'.stack f' ∧ (f.AllExplicit → f'.AllExplicit) := by
  induction items generalizing s f with
  | nil =>
    cases hok
    exact ⟨f, .refl h, id⟩
  | cons item rest ih =>
    rw [registerItems] at hok
    split at hok
    · cases hok
    · rename_i s₁ hitem
      obtain ⟨f₁, works₁, explicit₁⟩ := registerItem_works h hitem
      obtain ⟨f₂, works₂, explicit₂⟩ := ih works₁.inside hok
      exact ⟨f₂, works₁.trans works₂, explicit₂ ∘ explicit₁⟩

theorem registerClauses_works (h : s.stack.Inside f outer) {r : Region}
    (hok : registerClauses o decls r s = .ok s') :
    ∃ f', s.stack.Works f outer s'.stack f' ∧ (f.AllExplicit → f'.AllExplicit) := by
  obtain ⟨f₁, works₁, same⟩ := foldl_registerMode_works r.kind h r.clauses
  unfold registerClauses at hok
  rw [h.current?, Option.isSome_some, if_pos rfl] at hok
  obtain ⟨f₂, works₂, explicit⟩ := registerItems_works works₁.inside hok
  exact ⟨f₂, works₁.trans works₂, fun hf => explicit (hf.congr same)⟩

/-- The region whose registration is stopped is still the current one. -/
theorem inside_of_registerItems_error (h : s.stack.Inside f outer)
    {items : List (ClauseKind × ClauseItem)} {e : Error} {s' : Scope}
    (herr : registerItems o decls directive items s = .error (e, s')) :
    ∃ f', s'.stack.Inside f' outer := by
  induction items generalizing s f with
  | nil => cases herr
  | cons item rest ih =>
    rw [registerItems] at herr
    split at herr
    · cases herr
      exact ⟨f, h⟩
    · rename_i registered
      obtain ⟨f₁, works₁, -⟩ := registerItem_works h registered
      exact ih works₁.inside herr

theorem inside_of_registerClauses_error (h : s.stack.Inside f outer) {r : Region} {e : Error}
    {s' : Scope} (herr : registerClauses o decls r s = .error (e, s')) :
    ∃ f', s'.stack.Inside f' outer := by
  obtain ⟨f₁, works₁, -⟩ := foldl_registerMode_works r.kind h r.clauses
  unfold registerClauses at herr
  rw [h.current?, Option.isSome_some, if_pos rfl] at herr
  exact inside_of_registerItems_error works₁.inside herr

theorem registerCounter_works (decls : DeclTable) (h : s.stack.Inside f outer) (counter : DeclId)
    (fixed : Sharing) :
    ∃ f', s.stack.Works f outer (registerCounter decls counter fixed s).stack f' ∧
      f'.entries = f.entries := by
  have here := FrameStack.Works.refl h
  unfold registerCounter
  simp only [h.current?]
  split
  · split
    · exact ⟨_, here.modifyCurrent _ ⟨rfl, rfl, rfl⟩, rfl⟩
    · exact ⟨_, here.modifyCurrent _ ⟨rfl, rfl, rfl⟩, rfl⟩
  · exact ⟨_, here.modifyCurrent _ ⟨rfl, rfl, rfl⟩, rfl⟩

theorem foldl_registerCounter_works (decls : DeclTable) (h : s.stack.Inside f outer)
    (levels : List LoopLevel) (fixed : Sharing) :
    ∃ f', s.stack.Works f outer
      (levels.foldl (fun s l => registerCounter decls l.counter fixed s) s).stack f' ∧
        f'.entries = f.entries := by
  induction levels generalizing s f with
  | nil => exact ⟨f, .refl h, rfl⟩
  | cons l rest ih =>
    obtain ⟨f₁, works₁, same₁⟩ := registerCounter_works decls h l.counter fixed
    obtain ⟨f₂, works₂, same₂⟩ := ih works₁.inside
    exact ⟨f₂, works₁.trans works₂, same₂.trans same₁⟩

/-- Reports leave the stack alone. -/
theorem stack_foldl_report (s : Scope) (diagnostics : List Diagnostic) :
    (diagnostics.foldl Scope.report s).stack = s.stack := by
  induction diagnostics generalizing s with
  | nil => rfl
  | cons d rest ih => exact ih (s.report d)

/-- Declaring the locals of a region is no more than that. -/
theorem declareLocals_keeps (decls : DeclTable) (r : Region) (f : Frame) :
    f.Continues (declareLocals decls r f) ∧ (declareLocals decls r f).entries = f.entries := by
  unfold declareLocals
  generalize (r.body.map (·.declared)).getD [] = ids
  induction ids generalizing f with
  | nil => exact ⟨.refl f, rfl⟩
  | cons id rest ih =>
    rw [List.foldl_cons]
    dsimp only
    split
    · have declared : f.Continues (f.declareLocal (decls.canonical id)) := ⟨rfl, rfl, rfl⟩
      obtain ⟨continues, same⟩ := ih (f.declareLocal (decls.canonical id))
      exact ⟨declared.trans continues, same⟩
    · exact ih f

end

/-! ## The loops of a region -/

namespace Region

/-- The frame with the number of loops that the directive applies to, where its clauses say it. -/
def notingLoops (r : Region) (f : Frame) : Frame :=
  match r.association with
  | .ok (some a) => { f with associatedLoops := a.depth, orderedDepth := a.ordered }
  | _ => f

/-- The number of loops is noted in the current frame, as a walk does it: the clauses are asked first. -/
def noteLoops (r : Region) (s : Scope) : Scope :=
  match r.association with
  | .ok (some a) => s.modifyCurrent fun f =>
    { f with associatedLoops := a.depth, orderedDepth := a.ordered }
  | _ => s

/-- The attribute that is fixed for the counters of a nest. -/
def fixedSharing (r : Region) (nest : Option LoopNest) : Sharing :=
  r.kind.counterSharing ((nest.map (·.depth)).getD 0)

theorem continues_notingLoops (r : Region) (f : Frame) : f.Continues (r.notingLoops f) := by
  unfold notingLoops
  split <;> exact ⟨rfl, rfl, rfl⟩

theorem entries_notingLoops (r : Region) (f : Frame) : (r.notingLoops f).entries = f.entries := by
  unfold notingLoops
  split <;> rfl

theorem noteLoops_eq (r : Region) (s : Scope) : r.noteLoops s = s.modifyCurrent r.notingLoops := by
  have unchanged : s.modifyCurrent (fun f => f) = s := by
    have frames : s.stack.frames.modify s.stack.hidden (fun f => f) = s.stack.frames :=
      List.modify_id ..
    rw [Scope.modifyCurrent, FrameStack.modifyCurrent, frames]
  unfold noteLoops notingLoops
  rcases r.association with f | _ | a
  · exact unchanged.symm
  · exact unchanged.symm
  · rfl

end Region

namespace Walk

variable {o : Options} {r : Region} {w w' : Walk} {found : Except Error (Option LoopNest)}

/-- The walk after the search for loops: what failed is reported, and the counters of a nest are
marked. -/
def afterLoops (r : Region) (search : NestOutcome × DeclTable) (w : Walk) : Walk :=
  { w with
    decls := search.2
    scope := ((search.1.nest?.map (·.levels)).getD []).foldl
      (fun s l => registerCounter search.2 l.counter (r.fixedSharing search.1.nest?) s)
      (search.1.diagnostics.foldl Scope.report (r.noteLoops w.scope)) }

/-- What registering the loops of a region comes to: the directive is about no loops, or there is no room
for them, or the search ended with a nest or without one. -/
inductive RegistersLoops (o : Options) (r : Region) (w : Walk) :
    Except Error (Option LoopNest) → Walk → Prop where
  | other (other : r.kind.isLoopAssociated ≠ true) : RegistersLoops o r w (.ok none) w
  | noRoom (associated : r.kind.isLoopAssociated = true)
      (outcome : (canonicalizeNest o r w.decls).1 = .noRoom) :
      RegistersLoops o r w (.error .noRoom) (w.afterLoops r (canonicalizeNest o r w.decls))
  | searched (associated : r.kind.isLoopAssociated = true)
      (room : (canonicalizeNest o r w.decls).1 ≠ .noRoom) :
      RegistersLoops o r w (.ok (canonicalizeNest o r w.decls).1.nest?)
        (w.afterLoops r (canonicalizeNest o r w.decls))

theorem registersLoops (loops : w.registerLoops o r = (found, w')) : w.RegistersLoops o r found w' := by
  unfold registerLoops at loops
  split at loops
  · rename_i associated
    have noRoom := RegistersLoops.noRoom (o := o) (r := r) (w := w) associated
    have searched := RegistersLoops.searched (o := o) (r := r) (w := w) associated
    generalize canonicalizeNest o r w.decls = search at loops noRoom searched
    obtain ⟨outcome, decls⟩ := search
    cases outcome with
    | noRoom =>
      cases loops
      exact noRoom rfl
    | invalid | deferred | nest =>
      cases loops
      exact searched nofun
  · rename_i other
    cases loops
    exact .other other

theorem growsTo_registerLoops (loops : w.registerLoops o r = (found, w')) : w.decls.GrowsTo w'.decls := by
  cases registersLoops loops with
  | other => exact .refl _
  | noRoom | searched => exact growsTo_canonicalizeNest o r w.decls

/-- Registering the loops of a region adds declarations and marks counters in its frame. -/
theorem registerLoops_works {f : Frame} {outer : List Frame} (h : w.scope.stack.Inside f outer)
    (loops : w.registerLoops o r = (found, w')) :
    (∃ f', w.scope.stack.Works f outer w'.scope.stack f' ∧ f'.entries = f.entries) ∧
      w.decls.GrowsTo w'.decls ∧ w'.regions = w.regions ∧ w'.parents = w.parents := by
  have here := FrameStack.Works.refl h
  have grows := growsTo_registerLoops loops
  have marked (search : NestOutcome × DeclTable) :
      ∃ f', w.scope.stack.Works f outer (w.afterLoops r search).scope.stack f' ∧
        f'.entries = f.entries := by
    have noted := here.modifyCurrent r.notingLoops (r.continues_notingLoops f)
    have reported : w.scope.stack.Works f outer
        (search.1.diagnostics.foldl Scope.report (r.noteLoops w.scope)).stack (r.notingLoops f) := by
      rw [stack_foldl_report, r.noteLoops_eq]
      exact noted
    obtain ⟨f', works, same⟩ := foldl_registerCounter_works search.2 reported.inside
      ((search.1.nest?.map (·.levels)).getD []) (r.fixedSharing search.1.nest?)
    exact ⟨f', reported.trans works, same.trans (r.entries_notingLoops f)⟩
  cases registersLoops loops with
  | other => exact ⟨⟨f, here, rfl⟩, grows, rfl, rfl⟩
  | noRoom | searched => exact ⟨marked _, grows, rfl, rfl⟩

end Walk

end Directives
