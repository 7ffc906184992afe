import Directives.Proofs.FrameEffect
/-!
Private copies. A copy is taken before it is known what becomes of the entry that asks for it, so that
some copies are never used; but each entry of an open region whose attribute needs a copy has one, and no
two entries have the same. This holds between any two of the changes that an analysis makes to the open
regions.
-/

namespace Directives

/-! ## Entries and their copies -/

/-- The entries with attributes that need a copy have one, and the others have none; no two have the same
copy; and all copies are among the first `next`. -/
structure OwnCopies (es : List Entry) (next : Nat) : Prop where
  complete : ∀ e ∈ es, e.copy.isSome = e.kind.isPrivatizing
  distinct : (es.filterMap (·.copy)).Nodup
  below : ∀ e ∈ es, ∀ c, e.copy = some c → c.index < next

namespace OwnCopies

variable {es es' : List Entry} {e old : Entry} {next next' : Nat} {s : Scope}

theorem nil : OwnCopies [] 0 where
  complete _ h := absurd h List.not_mem_nil
  distinct := List.nodup_nil
  below _ h := absurd h List.not_mem_nil

theorem sublist (h : OwnCopies es next) (sub : es'.Sublist es) : OwnCopies es' next where
  complete e he := h.complete e (sub.subset he)
  distinct := h.distinct.sublist (sub.filterMap _)
  below e he := h.below e (sub.subset he)

theorem perm (h : OwnCopies es next) (same : es.Perm es') : OwnCopies es' next where
  complete e he := h.complete e (same.mem_iff.mpr he)
  distinct := (same.filterMap _).nodup_iff.mp h.distinct
  below e he := h.below e (same.mem_iff.mpr he)

theorem widen (h : OwnCopies es next) (le : next ≤ next') : OwnCopies es next' :=
  { h with below := fun e he c is => Nat.lt_of_lt_of_le (h.below e he c is) le }

/-- An entry may take over the copy of another one. -/
theorem replace (h : OwnCopies (old :: es) next) (copy : e.copy = old.copy)
    (complete : e.copy.isSome = e.kind.isPrivatizing) : OwnCopies (e :: es) next where
  complete := List.forall_mem_cons.mpr ⟨complete, (List.forall_mem_cons.mp h.complete).2⟩
  distinct := by
    have distinct := h.distinct
    rw [List.filterMap_cons] at distinct ⊢
    rwa [copy]
  below := by
    obtain ⟨own, others⟩ := List.forall_mem_cons.mp h.below
    rw [List.forall_mem_cons, copy]
    exact ⟨own, others⟩

/-- An entry may have the copy that was taken for it. -/
theorem enter (h : OwnCopies es s.stack.nextCopy) (copy : e.copy = (s.copyFor e.kind).1) :
    OwnCopies (e :: es) (s.copyFor e.kind).2.stack.nextCopy := by
  unfold Scope.copyFor at copy ⊢
  split at copy
  · rename_i needed
    rw [if_pos needed]
    have fresh : e.copy = some ⟨s.stack.nextCopy⟩ := copy
    have later : OwnCopies es (s.stack.nextCopy + 1) := h.widen (Nat.le_succ _)
    constructor
    · rw [List.forall_mem_cons, fresh, needed]
      exact ⟨rfl, h.complete⟩
    · rw [List.filterMap_cons_some fresh, List.nodup_cons]
      refine ⟨fun taken => ?_, h.distinct⟩
      obtain ⟨e', he', is⟩ := List.mem_filterMap.mp taken
      exact Nat.lt_irrefl _ (h.below e' he' _ is)
    · rw [List.forall_mem_cons, fresh]
      refine ⟨?_, later.below⟩
      rintro _ ⟨⟩
      exact Nat.lt_succ_self _
  · rename_i needless
    rw [if_neg needless]
    have none : e.copy = none := copy
    rw [Bool.not_eq_true] at needless
    constructor
    · rw [List.forall_mem_cons, none, needless]
      exact ⟨rfl, h.complete⟩
    · rw [List.filterMap_cons_none none]
      exact h.distinct
    · rw [List.forall_mem_cons, none]
      exact ⟨nofun, h.below⟩

end OwnCopies

theorem Scope.nextCopy_copyFor (s : Scope) (kind : Sharing) :
    s.stack.nextCopy ≤ (s.copyFor kind).2.stack.nextCopy := by
  unfold copyFor
  split
  · exact Nat.le_succ _
  · exact Nat.le_refl _

/-! ## Insertions into a frame -/

namespace Frame

/-- The entries of a frame. -/
def held (f : Frame) : List Entry := f.entries.entries.map (·.2)

variable {f f' : Frame} {var : DeclId} {e old : Entry} {others : List Entry} {s : Scope}

theorem exists_others (f : Frame) (var : DeclId) :
    ∃ rest, f.held.Perm ((f.entryOf? var).toList ++ rest) ∧
      ∀ e, (f.setEntry var e).held.Perm (e :: rest) := by
  obtain ⟨rest, before, after⟩ := f.entries.exists_rest var
  refine ⟨rest.map Prod.snd, ?_, fun e => (after e).map Prod.snd⟩
  have same := before.map Prod.snd
  rw [List.map_append, List.map_map] at same
  refine same.trans (.append_right _ ?_)
  rw [entryOf?]
  cases f.entries.get? var <;> exact .refl _

/-- Where an entry takes over the copy of the earlier one, each entry still has its own. -/
theorem ownCopies_replace (h : OwnCopies (f.held ++ others) s.stack.nextCopy)
    (hold : f.entryOf? var = some old) (copy : e.copy = old.copy)
    (complete : e.copy.isSome = e.kind.isPrivatizing) :
    OwnCopies ((f.setEntry var e).held ++ others) s.stack.nextCopy := by
  obtain ⟨rest, before, after⟩ := f.exists_others var
  rw [hold] at before
  have owned : OwnCopies (old :: (rest ++ others)) s.stack.nextCopy := h.perm (before.append_right _)
  exact (owned.replace copy complete).perm ((after e).append_right _).symm

/-- Where an entry has the copy that was taken for it, and the earlier one is forgotten, each entry still
has its own. -/
theorem ownCopies_setEntry (h : OwnCopies (f.held ++ others) s.stack.nextCopy) (var : DeclId)
    (copy : e.copy = (s.copyFor e.kind).1) :
    OwnCopies ((f.setEntry var e).held ++ others) (s.copyFor e.kind).2.stack.nextCopy := by
  obtain ⟨rest, before, after⟩ := f.exists_others var
  have owned : OwnCopies (rest ++ others) s.stack.nextCopy := by
    refine (h.perm (before.append_right _)).sublist ?_
    exact (List.sublist_append_right _ _).append_right _
  exact (owned.enter copy).perm ((after e).append_right _).symm

theorem ownCopies_insertExplicit (h : OwnCopies (f.held ++ others) s.stack.nextCopy) (var : DeclId)
    (copy : e.copy = (s.copyFor e.kind).1) :
    OwnCopies ((f.insertExplicit var e).1.held ++ others) (s.copyFor e.kind).2.stack.nextCopy := by
  have later := s.nextCopy_copyFor e.kind
  have complete {old : Entry} (held : f.entryOf? var = some old) :
      old.copy.isSome = old.kind.isPrivatizing := by
    obtain ⟨rest, before, -⟩ := f.exists_others var
    rw [held] at before
    exact h.complete old (List.mem_append_left _ (before.mem_iff.mpr List.mem_cons_self))
  have inserts := f.insertsExplicit var e
  generalize f.insertExplicit var e = result at inserts ⊢
  cases inserts with
  | first | replaced => exact ownCopies_setEntry h var copy
  -- The earlier entry stays, with its own copy; the one that was just taken belongs to no entry.
  | merged held _ first last =>
    have taken := complete held
    rw [first] at taken
    obtain ⟨c, is⟩ := Option.isSome_iff_exists.mp taken
    refine (ownCopies_replace h held ?_ ?_).widen later
    · rw [is, Option.some_or]
    · rw [is, Option.some_or, last]
      rfl
  | @joined old held =>
    have still := complete held
    exact (ownCopies_replace (e := { old with alsoFirstprivate := true }) h held rfl still).widen later
  | duplicate | conflict => exact h.widen later

theorem ownCopies_insertImplicit (h : OwnCopies (f.held ++ others) s.stack.nextCopy) (var : DeclId)
    (copy : e.copy = (s.copyFor e.kind).1) :
    OwnCopies ((f.insertImplicit var e).1.held ++ others) (s.copyFor e.kind).2.stack.nextCopy := by
  obtain same | ⟨-, -, recorded⟩ := f.insertImplicit_cases var e
  · rw [same]
    exact h.widen (s.nextCopy_copyFor e.kind)
  · rw [recorded]
    exact ownCopies_setEntry (e := { e with implicit := true }) h var copy

end Frame

/-! ## The changes of an analysis -/

/-- The entries of all open regions. -/
def FrameStack.held (s : FrameStack) : List Entry := s.frames.flatMap (·.held)

/-- Each entry of the open regions has the private copy that it needs, and has it for its own. -/
def FrameStack.OwnCopies (s : FrameStack) : Prop := Directives.OwnCopies s.held s.nextCopy

namespace Scope

/-- One change that an analysis makes to the open regions: something is reported; a private copy is
taken; the current frame is changed, but for its entries; a cancellation is noted; a region is entered or
left; a listed variable is entered, or an inferred one. -/
inductive Step : Scope → Scope → Prop where
  | report {s : Scope} (d : Diagnostic) : Step s (s.report d)
  | copy {s : Scope} (kind : Sharing) : Step s (s.copyFor kind).2
  | change {s : Scope} (change : Frame → Frame) (entries : ∀ f, (change f).entries = f.entries) :
      Step s (s.modifyCurrent change)
  | note {s : Scope} (r : Region) : Step s { s with stack := s.stack.noting r }
  | push {s : Scope} {f : Frame} {stack : FrameStack} (empty : f.entries = .empty)
      (pushed : s.stack.push f = .ok stack) : Step s { s with stack }
  | pop {s : Scope} {f : Frame} {stack : FrameStack} (popped : s.stack.pop = .ok (f, stack)) :
      Step s { s with stack }
  | enter {s : Scope} (item : ClauseItem) (var : DeclId) (d : VarDecl) (kind : Sharing)
      (modifier : Modifier) : Step s (enterItem item var d kind modifier s)
  | infer {s : Scope} (var : DeclId) (kind : Sharing) (modifier : Modifier) (location : Location) :
      Step s ((s.copyFor kind).2.modifyCurrent fun f =>
        (f.insertImplicit var { kind, modifier, copy := (s.copyFor kind).1, location }).1)

/-- The open regions between any two changes of an analysis. -/
inductive Reached : Scope → Prop where
  | start : Reached {}
  | next {s s' : Scope} (reached : Reached s) (step : Step s s') : Reached s'

/-- No frame is hidden, and the entries have their own copies. -/
structure Owns (s : Scope) : Prop where
  hidden : s.stack.hidden = 0
  copies : s.stack.OwnCopies

variable {s s' : Scope} {f : Frame} {outer : List Frame}

theorem inside_copyFor_iff (kind : Sharing) :
    (s.copyFor kind).2.stack.Inside f outer ↔ s.stack.Inside f outer := by
  unfold copyFor
  split <;>
    exact ⟨fun inside => ⟨inside.frames, inside.hidden⟩,
      fun inside => ⟨inside.frames, inside.hidden⟩⟩

theorem Owns.congr (h : s.Owns) (hidden : s'.stack.hidden = s.stack.hidden)
    (held : s'.stack.held = s.stack.held) (later : s.stack.nextCopy ≤ s'.stack.nextCopy) :
    s'.Owns where
  hidden := hidden.trans h.hidden
  copies := by
    rw [FrameStack.OwnCopies, held]
    exact h.copies.widen later

theorem Owns.copy (h : s.Owns) (kind : Sharing) : (s.copyFor kind).2.Owns := by
  refine h.congr ?_ ?_ (s.nextCopy_copyFor kind)
  all_goals
    unfold copyFor
    split <;> rfl

theorem Owns.inside (h : s.Owns) (inside : s.stack.Inside f outer) :
    Directives.OwnCopies (f.held ++ outer.flatMap (·.held)) s.stack.nextCopy := by
  have copies := h.copies
  rwa [FrameStack.OwnCopies, FrameStack.held, inside.frames, List.flatMap_cons] at copies

/-- To change the current frame is well, if its entries still have their own copies. -/
theorem Owns.modify (h : s.Owns) (change : Frame → Frame)
    (copies : ∀ f outer, s.stack.Inside f outer →
      Directives.OwnCopies ((change f).held ++ outer.flatMap (·.held)) s.stack.nextCopy) :
    (s.modifyCurrent change).Owns := by
  cases frames : s.stack.frames with
  | nil =>
    refine h.congr rfl ?_ (Nat.le_refl _)
    simp only [FrameStack.held, modifyCurrent, FrameStack.modifyCurrent, frames, List.modify_nil]
  | cons f outer =>
    have inside : s.stack.Inside f outer := ⟨frames, h.hidden⟩
    have inside' := inside.modifyCurrent change
    refine ⟨inside'.hidden, ?_⟩
    rw [FrameStack.OwnCopies, FrameStack.held, modifyCurrent, inside'.frames, List.flatMap_cons]
    exact copies f outer inside

theorem Owns.change (h : s.Owns) (change : Frame → Frame)
    (entries : ∀ f, (change f).entries = f.entries) : (s.modifyCurrent change).Owns := by
  apply h.modify
  intro f outer inside
  rw [Frame.held, entries]
  exact h.inside inside

theorem held_of_noted {f f' : Frame} (noted : f.Noted f') : f'.held = f.held := by
  rcases noted with rfl | rfl <;> rfl

theorem held_of_framesKept {frames frames' : List Frame} (kept : FramesKept frames frames') :
    frames'.flatMap (·.held) = frames.flatMap (·.held) := by
  cases kept with
  | none => rfl
  | innermost own => rw [List.flatMap_cons, List.flatMap_cons, held_of_noted own]
  | «section» own _ around =>
    rw [List.flatMap_cons, List.flatMap_cons, List.flatMap_cons, List.flatMap_cons,
      held_of_noted own, held_of_noted around]

theorem Owns.note (h : s.Owns) (r : Region) : Owns { s with stack := s.stack.noting r } :=
  h.congr (s.stack.hidden_noting r) (held_of_framesKept (FrameStack.framesKept_noting h.hidden r))
    (Nat.le_of_eq (s.stack.nextCopy_noting r).symm)

theorem Owns.push {stack : FrameStack} (h : s.Owns) (empty : f.entries = .empty)
    (pushed : s.stack.push f = .ok stack) : Owns { s with stack } := by
  rw [FrameStack.push, if_pos h.hidden] at pushed
  cases pushed
  have none : f.held = [] := by
    rw [Frame.held, empty]
    rfl
  refine h.congr rfl ?_ (Nat.le_refl _)
  rw [FrameStack.held, List.flatMap_cons, none]
  rfl

theorem Owns.pop {stack : FrameStack} (h : s.Owns) (popped : s.stack.pop = .ok (f, stack)) :
    Owns { s with stack } := by
  rw [FrameStack.pop, if_pos h.hidden] at popped
  cases frames : s.stack.frames with
  | nil =>
    rw [frames] at popped
    cases popped
  | cons g outer =>
    rw [frames] at popped
    cases popped
    refine ⟨h.hidden, h.copies.sublist ?_⟩
    rw [FrameStack.held, FrameStack.held, frames, List.flatMap_cons]
    exact List.sublist_append_right _ _

theorem Owns.enter (h : s.Owns) (item : ClauseItem) (var : DeclId) (d : VarDecl) (kind : Sharing)
    (modifier : Modifier) : (enterItem item var d kind modifier s).Owns := by
  let e : Entry :=
    { kind, modifier, copy := (s.copyFor kind).1, location := item.location
      ofPointee := item.ofSection && d.ty.isPointer }
  have copied := h.copy kind
  unfold enterItem
  dsimp only
  split
  · exact copied
  · rename_i f current
    split
    · exact copied.congr rfl rfl (Nat.le_refl _)
    · rename_i f' _ _ inserted
      apply copied.modify
      intro g outer inside
      cases inside.current?.symm.trans current
      have copies := Frame.ownCopies_insertExplicit (e := e)
        (h.inside ((inside_copyFor_iff kind).mp inside)) var rfl
      rwa [inserted] at copies

theorem Owns.infer (h : s.Owns) (var : DeclId) (kind : Sharing) (modifier : Modifier)
    (location : Location) :
    ((s.copyFor kind).2.modifyCurrent fun f =>
      (f.insertImplicit var { kind, modifier, copy := (s.copyFor kind).1, location }).1).Owns := by
  let e : Entry := { kind, modifier, copy := (s.copyFor kind).1, location }
  apply (h.copy kind).modify
  intro f outer inside
  exact Frame.ownCopies_insertImplicit (e := e)
    (h.inside ((inside_copyFor_iff kind).mp inside)) var rfl

theorem Owns.step (h : s.Owns) (step : Step s s') : s'.Owns := by
  cases step with
  | report => exact h.congr rfl rfl (Nat.le_refl _)
  | copy kind => exact h.copy kind
  | change change entries => exact h.change change entries
  | note r => exact h.note r
  | push empty pushed => exact h.push empty pushed
  | pop popped => exact h.pop popped
  | enter item var d kind modifier => exact h.enter item var d kind modifier
  | infer var kind modifier location => exact h.infer var kind modifier location

theorem Reached.owns (reached : s.Reached) : s.Owns := by
  induction reached with
  | start => exact ⟨rfl, .nil⟩
  | next _ step ih => exact ih.step step

end Scope

/-! ## Walks make these changes only -/

namespace Scope.Reached

variable {o : Options} {decls : DeclTable} {directive : DirectiveKind} {s s' : Scope} {e : Error}

theorem report (reached : s.Reached) (d : Diagnostic) : (s.report d).Reached := reached.next (.report d)

theorem change (reached : s.Reached) {change : Frame → Frame}
    (entries : ∀ f, (change f).entries = f.entries) : (s.modifyCurrent change).Reached :=
  reached.next (.change change entries)

theorem reject (reached : s.Reached) (var : DeclId) : (s.modifyCurrent (·.reject var)).Reached :=
  reached.change fun f => f.entries_reject var

theorem mode (reached : s.Reached) (c : Clause) : (registerMode directive s c).Reached := by
  unfold registerMode
  split
  · exact reached.change fun _ => rfl
  · split
    · exact reached.change fun _ => rfl
    · exact reached.report _
  · exact reached.change fun _ => rfl
  · exact reached.change fun _ => rfl
  · exact reached.change fun _ => rfl
  · exact reached.change fun _ => rfl
  · exact reached

theorem item (reached : s.Reached) {clause : ClauseKind} {item : ClauseItem}
    (registered : registerItem o decls directive clause item s = .ok s') : s'.Reached := by
  unfold registerItem at registered
  dsimp only at registered
  split at registered
  · cases registered
  · cases registered
    split
    · exact reached
    · exact reached.report _
    · exact (reached.report _).reject _
    · exact reached.next (.enter _ _ _ _ _)

/-- The items are registered one after the other, up to one that is not declared. -/
theorem items (reached : s.Reached) {listed : List (ClauseKind × ClauseItem)} :
    (∀ s', registerItems o decls directive listed s = .ok s' → s'.Reached) ∧
      ∀ e s', registerItems o decls directive listed s = .error (e, s') → s'.Reached := by
  induction listed generalizing s with
  | nil =>
    constructor
    · rintro s' ⟨⟩
      exact reached
    · rintro e s' ⟨⟩
  | cons first rest ih =>
    obtain ⟨clause, item⟩ := first
    rw [registerItems]
    cases registered : registerItem o decls directive clause item s with
    | error e =>
      constructor
      · rintro s' ⟨⟩
      · rintro e s' ⟨⟩
        exact reached
    | ok s₁ => exact ih (reached.item registered)

theorem clauses (reached : s.Reached) {r : Region} :
    (∀ s', registerClauses o decls r s = .ok s' → s'.Reached) ∧
      ∀ e s', registerClauses o decls r s = .error (e, s') → s'.Reached := by
  unfold registerClauses
  apply items
  split
  · exact List.foldlRecOn (motive := Reached) r.clauses _ reached fun _ reached c _ => reached.mode c
  · exact reached

theorem counter (reached : s.Reached) (counter : DeclId) (fixed : Sharing) :
    (registerCounter decls counter fixed s).Reached := by
  unfold registerCounter
  dsimp only
  split
  · exact reached
  · apply change
    · split
      · split
        · exact reached.report _
        · exact reached
      · exact reached
    · exact fun _ => rfl

theorem reports (reached : s.Reached) (ds : List Diagnostic) : (ds.foldl Scope.report s).Reached :=
  List.foldlRecOn (motive := Reached) ds Scope.report reached fun _ reached d _ => reached.report d

theorem counters (reached : s.Reached) (levels : List LoopLevel) (fixed : Sharing) :
    (levels.foldl (fun s l => registerCounter decls l.counter fixed s) s).Reached :=
  List.foldlRecOn (motive := Reached) levels _ reached fun _ reached l _ =>
    reached.counter l.counter fixed

theorem occurrence {result : Scope × ImplicitClauses} (reached : result.1.Reached)
    (occ : Occurrence) : (inferOccurrence o decls directive result occ).1.Reached := by
  unfold inferOccurrence
  split
  · unfold applyInference
    split
    · exact reached
    · exact (reached.report _).reject _
    · exact (reached.report _).reject _
    · exact reached.next (.infer _ _ _ _)
  · exact reached

theorem inference (reached : s.Reached) (r : Region) : (inferClauses o decls r s).1.Reached := by
  unfold inferClauses
  split
  · exact reached
  · exact List.foldlRecOn (motive := fun (result : Scope × ImplicitClauses) => result.1.Reached) _ _
      reached
      fun _ reached occ _ => occurrence reached occ

end Scope.Reached

namespace Walk

variable {o : Options} {r : Region} {w w' : Walk}

theorem reached_afterLoops (reached : w.scope.Reached) (search : NestOutcome × DeclTable) :
    (w.afterLoops r search).scope.Reached := by
  have noted : (r.noteLoops w.scope).Reached := by
    rw [r.noteLoops_eq]
    exact reached.change fun f => r.entries_notingLoops f
  exact (noted.reports _).counters _ _

theorem reached_registerLoops {found : Except Error (Option LoopNest)} (reached : w.scope.Reached)
    (loops : w.registerLoops o r = (found, w')) : w'.scope.Reached := by
  cases registersLoops loops with
  | other => exact reached
  | noRoom | searched => exact reached_afterLoops reached _

theorem reached_analyzeCurrent {report : RegionReport} (reached : w.scope.Reached) :
    (w.analyzeCurrent o r report).last.scope.Reached := by
  have declared : (w.scope.modifyCurrent (declareLocals w.decls r)).Reached :=
    reached.change fun f => (declareLocals_keeps w.decls r f).2
  unfold analyzeCurrent
  dsimp only
  split
  · rename_i refused
    exact declared.clauses.2 _ _ refused
  · rename_i registered
    have clauses := declared.clauses.1 _ registered
    split
    · rename_i lacking
      exact reached_registerLoops (w := { w with scope := _ }) clauses lacking
    · rename_i found
      exact (reached_registerLoops (w := { w with scope := _ }) clauses found).inference r

theorem reached_arrive (reached : w.scope.Reached) (sole : Bool) :
    (w.arrive o r sole).last.scope.Reached := by
  unfold arrive
  split
  · exact reached
  · dsimp only
    split
    · exact reached.report _
    · have noted := reached.next (.note r)
      rw [← FrameStack.noting]
      split
      · exact noted
      · rename_i stack pushed
        exact reached_analyzeCurrent (w := { w with scope := { w.scope with stack } })
          (noted.next (.push rfl pushed))

/-- In every state of an analysis, the open regions are between two of the changes that it makes. -/
theorem Reachable.scope (reachable : Reachable o w) : w.scope.Reached := by
  induction reachable with
  | start => exact .start
  | next _ step ih =>
    cases step with
    | arrived r sole => exact reached_arrive ih sole
    | left _ left =>
      unfold leave at left
      dsimp only at left
      split at left
      · cases left
      · rename_i popped
        cases left
        exact ih.next (.pop popped)

end Walk

/-! ## Variables that are listed as firstprivate and as lastprivate -/

/-- The variable of the entry is listed as firstprivate or as lastprivate, and `kind` is the other one of
the two. -/
def Entry.MergesWith (old : Entry) (kind : Sharing) : Prop :=
  old.implicit = false ∧ ((old.kind = .firstprivate ∧ kind = .lastprivate) ∨
    (old.kind = .lastprivate ∧ kind = .firstprivate ∧ old.alsoFirstprivate = false))

/-- In `f'` the variable is lastprivate, and firstprivate as well, with the copy `c`; and the entries of
both frames have the same copies. -/
structure Frame.MergesTo (f : Frame) (var : DeclId) (c : CopyId) (f' : Frame) : Prop where
  entry : ∃ e, f'.entryOf? var = some e ∧ e.kind = .lastprivate ∧ e.alsoFirstprivate = true ∧
    e.copy = some c
  copies : (f'.held.filterMap (·.copy)).Perm (f.held.filterMap (·.copy))

theorem Frame.mergesTo_setEntry {f : Frame} {var : DeclId} {old e : Entry} {c : CopyId}
    (hold : f.entryOf? var = some old) (copy : old.copy = some c) (last : e.kind = .lastprivate)
    (first : e.alsoFirstprivate = true) (same : e.copy = some c) :
    f.MergesTo var c (f.setEntry var e) where
  entry := ⟨e, entryOf?_setEntry_self, last, first, same⟩
  copies := by
    obtain ⟨rest, before, after⟩ := f.exists_others var
    rw [hold] at before
    have kept := (after e).filterMap (·.copy)
    rw [List.filterMap_cons_some same, ← List.filterMap_cons_some copy] at kept
    exact kept.trans (before.filterMap _).symm

/-- A variable that is listed as firstprivate and as lastprivate, in either order, keeps the copy that it
got first. -/
theorem Frame.insertExplicit_merges {f : Frame} {var : DeclId} {old e : Entry}
    (hold : f.entryOf? var = some old) (complete : old.copy.isSome = old.kind.isPrivatizing)
    (merges : old.MergesWith e.kind) :
    ∃ c f', old.copy = some c ∧ f.insertExplicit var e = (f', .merged) ∧ f.MergesTo var c f' := by
  obtain ⟨explicit, kinds⟩ := merges
  have privatizing : old.kind.isPrivatizing = true := by
    rcases kinds with ⟨kind, -⟩ | ⟨kind, -⟩ <;> rw [kind] <;> rfl
  obtain ⟨c, copy⟩ := Option.isSome_iff_exists.mp (complete.trans privatizing)
  obtain ⟨first, last⟩ | ⟨last, first, single⟩ := kinds
  · refine ⟨c, f.setEntry var { e with alsoFirstprivate := true, copy := old.copy.or e.copy }, copy, ?_,
      mergesTo_setEntry hold copy last rfl ?_⟩
    · simp [insertExplicit, hold, explicit, first, last]
    · rw [copy, Option.some_or]
  · refine ⟨c, f.setEntry var { old with alsoFirstprivate := true }, copy, ?_,
      mergesTo_setEntry hold copy last rfl copy⟩
    simp [insertExplicit, hold, explicit, first, last, single]

/-- In every state of an analysis, and between any two of the changes that it makes to the open regions,
an entry of an open region has a private copy exactly if its attribute needs one, no two entries have the
same, and every copy was taken. Where a variable is listed as firstprivate and as lastprivate, its entry
keeps the copy that it has. -/
theorem private_copies_owned (o : Options) :
    (∀ w, Walk.Reachable o w → w.scope.Reached) ∧
      ∀ s : Scope, s.Reached → s.stack.OwnCopies ∧
        ∀ f ∈ s.stack.frames, ∀ var old e, f.entryOf? var = some old → old.MergesWith e.kind →
          ∃ c f', old.copy = some c ∧ f.insertExplicit var e = (f', .merged) ∧
            f.MergesTo var c f' := by
  refine ⟨fun w reachable => reachable.scope, fun s reached => ?_⟩
  have copies := reached.owns.copies
  refine ⟨copies, fun f hf var old e hold merges => ?_⟩
  refine Frame.insertExplicit_merges hold (copies.complete old ?_) merges
  obtain ⟨rest, before, -⟩ := f.exists_others var
  rw [hold] at before
  exact List.mem_flatMap.mpr ⟨f, hf, before.mem_iff.mpr List.mem_cons_self⟩

/-- In `sections`, two variables are listed as firstprivate and as lastprivate, one in either order. Of the
five copies that were taken, two belong to no entry. -/
theorem private_copies_owned_sections :
    let declared (name : String) (t : DeclTable) := (t.declare name .int32 .automatic .function ⟨1, 1⟩).2
    let decls := declared "z" (declared "y" (declared "x" {}))
    let parallel := ({ kind := .parallel, location := ⟨2, 1⟩ } : Region).withList .priv [⟨2⟩]
    let sections := ((({ kind := .sections, location := ⟨3, 1⟩ } : Region).withList .firstprivate
      [⟨0⟩]).withList (.lastprivate false) [⟨0⟩, ⟨1⟩]).withList .firstprivate [⟨1⟩]
    let inParallel := ((Walk.start decls).arrive {} parallel false).last
    let inSections := (inParallel.arrive {} sections false).last
    Walk.Reachable {} inSections ∧
      inSections.scope.stack.held.map (fun e => (e.kind, e.alsoFirstprivate, e.copy)) =
        [(.lastprivate, true, some ⟨1⟩), (.lastprivate, true, some ⟨3⟩), (.priv, false, some ⟨0⟩)] ∧
      inSections.scope.stack.nextCopy = 5 ∧ inSections.scope.stack.OwnCopies := by
  intro declared decls parallel sections inParallel inSections
  have reachable : Walk.Reachable {} inSections :=
    ((Walk.Reachable.start decls).next (.arrived parallel false)).next (.arrived sections false)
  obtain ⟨reached, owned⟩ := private_copies_owned {}
  have copies := owned inSections.scope (reached inSections reachable)
  exact ⟨reachable, by decide +kernel, by decide +kernel, copies.1⟩

end Directives
