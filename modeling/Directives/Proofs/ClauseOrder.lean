import Mathlib.Data.List.Sort
import Mathlib.Logic.Function.Basic
import Directives.Proofs.SingleReports
/-!
The order of the clauses of a region. As long as no two of them exclude each other, clauses may stand
in any order in which the `default` clauses, and the `defaultmap` clauses, follow each other as before:
the same is reported, and the frame of the region comes to say the same. Each listed variable is judged
by what its region and those around it are, not by what was listed before, and of two listings of one
variable it does not matter which is entered first.
-/

namespace Directives

namespace SortedMap

/-- Maps that hold the same are the same. -/
theorem ext_get? {κ α : Type} [Ranked κ] {m m' : SortedMap κ α}
    (same : ∀ k, m.get? k = m'.get? k) : m = m' := by
  have irrefl : Std.Irrefl fun a b : κ × α => rank a.1 < rank b.1 := ⟨fun _ => Nat.lt_irrefl _⟩
  have antisymm : Std.Antisymm fun a b : κ × α => rank a.1 < rank b.1 :=
    ⟨fun _ _ before after => absurd after (Nat.lt_asymm before)⟩
  refine eq_of_entries (m.ascending.eq_of_mem_iff m'.ascending fun (k, v) => ?_)
  rw [← get?_eq_some_iff, ← get?_eq_some_iff, same]

end SortedMap

/-! ## What is known of a variable -/

/-- What an entry says about its variable, apart from its private copy and the place it comes from. -/
structure Share where
  kind : Sharing
  modifier : Modifier
  alsoFirstprivate : Bool := false
  implicit : Bool := false
  deriving DecidableEq

def Entry.share (e : Entry) : Share := ⟨e.kind, e.modifier, e.alsoFirstprivate, e.implicit⟩

/-- What a frame knows of a variable. -/
structure Standing where
  share? : Option Share
  rejected : Bool

def Frame.standing (f : Frame) (var : DeclId) : Standing :=
  ⟨(f.entryOf? var).map (·.share), f.isRejected var⟩

/-- What is said of a variable that is listed once more, unless the listings exclude each other. -/
def Share.listed? (old : Share) (kind : Sharing) (modifier : Modifier) : Option Share :=
  if old.implicit then some { kind, modifier }
  else
    match old.kind, kind with
    | .firstprivate, .lastprivate => some { kind, modifier, alsoFirstprivate := true }
    | .lastprivate, .firstprivate =>
      if old.alsoFirstprivate then none else some { old with alsoFirstprivate := true }
    | .shared, .shared => some old
    | _, _ => none

namespace Standing

/-- What is known of a variable after an entry for it, unless this conflicts with what was known. -/
def entered? (known : Standing) (kind : Sharing) (modifier : Modifier) : Option Standing :=
  match known.share? with
  | none => some { share? := some { kind, modifier }, rejected := false }
  | some old => (old.listed? kind modifier).map fun share => { known with share? := some share }

/-- What is known of a variable after an invalid listing of it. -/
def reject (known : Standing) : Standing :=
  { known with rejected := known.rejected || known.share?.isNone }

/-- What is known of a variable after a judgement on it, unless this conflicts with what was known. -/
def judged? (known : Standing) : Judgement → Option Standing
  | .pass | .report _ => some known
  | .reject _ => some known.reject
  | .enter kind modifier => known.entered? kind modifier

end Standing

/-- As clauses have it: nothing more is said where a variable is shared. -/
def Judgement.Plain (j : Judgement) : Prop := ∀ modifier, j = .enter .shared modifier → modifier = .none

section
variable {kind kind' : Sharing} {modifier modifier' : Modifier} {j j' : Judgement}

/-- Only as shared may a variable be listed twice more. -/
theorem Share.listed?_listed? {old : Share} (explicit : old.implicit = false) :
    (old.listed? kind modifier).bind (·.listed? kind' modifier') =
      if old.kind = .shared ∧ kind = .shared ∧ kind' = .shared then some old else none := by
  obtain ⟨old, modifier₀, also, implicit⟩ := old
  cases explicit
  cases old with
  | shared =>
    cases kind with
    | shared => cases kind' <;> simp [listed?]
    | _ => simp [listed?]
  | firstprivate =>
    cases kind with
    | lastprivate => cases kind' <;> simp [listed?]
    | _ => simp [listed?]
  | lastprivate =>
    cases kind with
    | firstprivate => cases also <;> cases kind' <;> simp [listed?]
    | _ => simp [listed?]
  | _ => simp [listed?]

/-- Of two listings it does not matter which comes first. -/
theorem Share.listed?_comm (plain : kind = .shared → modifier = .none)
    (plain' : kind' = .shared → modifier' = .none) :
    ({ kind, modifier } : Share).listed? kind' modifier' =
      ({ kind := kind', modifier := modifier' } : Share).listed? kind modifier := by
  cases kind <;> cases kind' <;> simp_all [listed?]

namespace Standing

theorem entered?_comm (known : Standing) (plain : kind = .shared → modifier = .none)
    (plain' : kind' = .shared → modifier' = .none) :
    (known.entered? kind modifier).bind (·.entered? kind' modifier') =
      (known.entered? kind' modifier').bind (·.entered? kind modifier) := by
  have once := Share.listed?_comm plain plain'
  obtain ⟨share?, rejected⟩ := known
  cases share? with
  | none => simp [entered?, once]
  | some old =>
    have twice (kind kind' : Sharing) (modifier modifier' : Modifier) :
        ((entered? ⟨some old, rejected⟩ kind modifier).bind (·.entered? kind' modifier')) =
          ((old.listed? kind modifier).bind (·.listed? kind' modifier')).map (⟨some ·, rejected⟩) := by
      simp [entered?, Option.bind_map, Option.map_bind]
    rw [twice, twice]
    cases explicit : old.implicit with
    | true =>
      have replaced (kind : Sharing) (modifier : Modifier) :
          old.listed? kind modifier = some { kind, modifier } := by
        simp [Share.listed?, explicit]
      rw [replaced, replaced, Option.bind_some, Option.bind_some, once]
    | false => simp only [Share.listed?_listed? explicit, and_comm]

theorem entered?_reject (known : Standing) :
    known.reject.entered? kind modifier = (known.entered? kind modifier).map reject := by
  obtain ⟨share?, rejected⟩ := known
  cases share? <;> simp [entered?, reject, Function.comp_def]

/-- Of two judgements on a variable it does not matter which comes first. -/
theorem judged?_comm (known : Standing) (plain : j.Plain) (plain' : j'.Plain) :
    (known.judged? j).bind (·.judged? j') = (known.judged? j').bind (·.judged? j) := by
  have passed (known? : Option Standing) : known?.bind (fun known => some known) = known? :=
    Option.bind_fun_some known?
  cases j with
  | pass | report => exact (passed _).symm
  | reject =>
    cases j' with
    | pass | report => exact passed _
    | reject => rfl
    | enter kind modifier => exact (known.entered?_reject).trans (Option.map_eq_bind ..)
  | enter kind modifier =>
    cases j' with
    | pass | report => exact passed _
    | reject => exact ((known.entered?_reject).trans (Option.map_eq_bind ..)).symm
    | enter kind' modifier' =>
      refine known.entered?_comm ?_ ?_
      · rintro rfl
        exact plain modifier rfl
      · rintro rfl
        exact plain' modifier' rfl

end Standing

/-! ## What is known of all variables -/

/-- What is known of each variable after a judgement on one of them, unless this conflicts with what was
known of that one, or there was a conflict before. -/
def knownAfter? (known? : Option (DeclId → Standing)) (listed : DeclId × Judgement) :
    Option (DeclId → Standing) :=
  known?.bind fun known =>
    ((known listed.1).judged? listed.2).map (Function.update known listed.1)

theorem knownAfter?_comm {listed listed' : DeclId × Judgement} (plain : listed.2.Plain)
    (plain' : listed'.2.Plain) (known? : Option (DeclId → Standing)) :
    knownAfter? (knownAfter? known? listed) listed' = knownAfter? (knownAfter? known? listed') listed := by
  obtain ⟨var, j⟩ := listed
  obtain ⟨var', j'⟩ := listed'
  cases known? with
  | none => rfl
  | some known =>
    by_cases same : var = var'
    · subst same
      have again (after : Standing) :
          Function.update (Function.update known var after) var = Function.update known var :=
        funext fun _ => Function.update_idem ..
      have twice (j j' : Judgement) : knownAfter? (knownAfter? (some known) (var, j)) (var, j') =
          (((known var).judged? j).bind (·.judged? j')).map (Function.update known var) := by
        simp [knownAfter?, Option.bind_map, Option.map_bind, again]
      rw [twice, twice, Standing.judged?_comm _ plain plain']
    · simp only [knownAfter?, Option.bind_some]
      cases after : (known var).judged? j <;> cases after' : (known var').judged? j' <;>
        simp [Function.update_of_ne, same, Ne.symm same, after, after']
      exact Function.update_comm same ..

/-- What is known after several judgements does not depend on their order. -/
theorem foldl_knownAfter?_of_perm {listed listed' : List (DeclId × Judgement)}
    (order : listed.Perm listed') (plain : ∀ l ∈ listed, l.2.Plain)
    (known? : Option (DeclId → Standing)) :
    listed.foldl knownAfter? known? = listed'.foldl knownAfter? known? :=
  order.foldl_eq' (fun l hl l' hl' before => knownAfter?_comm (plain l hl) (plain l' hl') before) known?

theorem foldl_knownAfter?_none (listed : List (DeclId × Judgement)) :
    listed.foldl knownAfter? none = none := by
  induction listed with
  | nil => rfl
  | cons _ _ ih => exact ih

end

/-- The entry that was asked for conflicts with the one that is there. -/
def Insertion.isConflict : Insertion → Bool
  | .conflict _ => true
  | .inserted | .merged | .duplicate => false

namespace Frame

variable {f f' f'' : Frame} {var : DeclId} {e : Entry}

/-- Nothing of the frame is changed but its entries and its rejections. -/
def Relisted (f f' : Frame) : Prop := ∃ entries rejected, f' = { f with entries, rejected }

theorem Relisted.refl (f : Frame) : f.Relisted f := ⟨f.entries, f.rejected, rfl⟩

theorem Relisted.trans (h : f.Relisted f') (h' : f'.Relisted f'') : f.Relisted f'' := by
  obtain ⟨_, _, rfl⟩ := h
  obtain ⟨entries, rejected, rfl⟩ := h'
  exact ⟨entries, rejected, rfl⟩

theorem standing_setEntry (f : Frame) (var : DeclId) (e : Entry) :
    (f.setEntry var e).standing =
      Function.update f.standing var { f.standing var with share? := some e.share } := by
  funext v
  by_cases same : var = v
  · subst same
    rw [Function.update_self, standing, entryOf?_setEntry_self]
    rfl
  · rw [Function.update_of_ne (Ne.symm same), standing, entryOf?_setEntry_of_ne same]
    rfl

theorem standing_reject (f : Frame) (var : DeclId) :
    (f.reject var).standing = Function.update f.standing var (f.standing var).reject := by
  funext v
  by_cases same : var = v
  · subst same
    rw [Function.update_self, standing, entryOf?_reject]
    unfold reject
    cases held : f.entryOf? var with
    | none =>
      have absent : ¬f.entries.contains var = true := Bool.eq_false_iff.mp (congrArg Option.isSome held)
      rw [if_neg absent]
      simp [Standing.reject, standing, held, isRejected, SortedMap.contains]
    | some e =>
      have present : f.entries.contains var = true := congrArg Option.isSome held
      rw [if_pos present]
      simp [Standing.reject, standing, held]
  · rw [Function.update_of_ne (Ne.symm same), standing, entryOf?_reject, isRejected_reject_of_ne same]
    rfl

theorem standing_lift (f : Frame) (var : DeclId) :
    ({ f with rejected := f.rejected.erase var } : Frame).standing =
      Function.update f.standing var { f.standing var with rejected := false } := by
  funext v
  by_cases same : var = v
  · subst same
    simp [standing, isRejected, SortedMap.contains, entryOf?]
  · simp [Function.update_of_ne (Ne.symm same), standing, isRejected, SortedMap.contains, entryOf?,
      SortedMap.get?_erase_of_ne _ same]

/-- What an explicit entry makes of an entry that is there already; or the two conflict. -/
theorem insertExplicit_over {old : Entry} (held : f.entryOf? var = some old)
    (first : e.alsoFirstprivate = false) (explicit : e.implicit = false) :
    (∃ e' insertion, f.insertExplicit var e = (f.setEntry var e', insertion) ∧
        insertion.isConflict = false ∧ old.share.listed? e.kind e.modifier = some e'.share) ∨
      (f.insertExplicit var e = (f, .duplicate) ∧
        old.share.listed? e.kind e.modifier = some old.share) ∨
      (f.insertExplicit var e = (f, .conflict old) ∧ old.share.listed? e.kind e.modifier = none) := by
  unfold insertExplicit
  rw [held]
  dsimp only
  split
  · rename_i gives
    exact .inl ⟨e, _, rfl, rfl, by simp [Share.listed?, Entry.share, gives, first, explicit]⟩
  · rename_i stays
    split
    · rename_i wasFirst last
      exact .inl ⟨_, _, rfl, rfl, by
        simp [Share.listed?, Entry.share, stays, wasFirst, last, explicit]⟩
    · rename_i wasLast again
      split
      · rename_i both
        exact .inr (.inr ⟨rfl, by simp [Share.listed?, Entry.share, stays, wasLast, again, both]⟩)
      · rename_i notBoth
        exact .inl ⟨_, _, rfl, rfl, by
          simp [Share.listed?, Entry.share, stays, wasLast, again, notBoth]⟩
    · rename_i wasShared again
      exact .inr (.inl ⟨rfl, by simp [Share.listed?, Entry.share, stays, wasShared, again]⟩)
    · rename_i notFirst notLast notShared
      refine .inr (.inr ⟨rfl, ?_⟩)
      rw [Share.listed?, if_neg (show ¬old.share.implicit = true from stays)]
      exacts [notFirst, notLast, notShared]

/-- What an explicit entry makes of what is known of its variable; or it conflicts. -/
theorem insertExplicit_standing (f : Frame) (var : DeclId) (first : e.alsoFirstprivate = false)
    (explicit : e.implicit = false) :
    (∃ f' insertion, f.insertExplicit var e = (f', insertion) ∧ insertion.isConflict = false ∧
        f.Relisted f' ∧ ∃ known, (f.standing var).entered? e.kind e.modifier = some known ∧
          f'.standing = Function.update f.standing var known) ∨
      ∃ old, f.insertExplicit var e = (f, .conflict old) ∧
        (f.standing var).entered? e.kind e.modifier = none := by
  have share : e.share = { kind := e.kind, modifier := e.modifier } := by
    rw [Entry.share, first, explicit]
  cases held : f.entryOf? var with
  | none =>
    have inserted : f.insertExplicit var e =
        ({ f.setEntry var e with rejected := f.rejected.erase var }, .inserted) := by
      unfold insertExplicit
      rw [held]
    refine .inl ⟨_, _, inserted, rfl, ⟨_, _, rfl⟩, ⟨some e.share, false⟩, ?_, ?_⟩
    · simp [Standing.entered?, standing, held, share]
    · have lifted := (f.setEntry var e).standing_lift var
      rw [standing_setEntry, Function.update_self, Function.update_idem] at lifted
      exact lifted
  | some old =>
    have entered : (f.standing var).entered? e.kind e.modifier =
        (old.share.listed? e.kind e.modifier).map fun share =>
          { f.standing var with share? := some share } := by
      simp [Standing.entered?, standing, held]
    obtain ⟨e', insertion, is, noConflict, listed⟩ | ⟨is, listed⟩ | ⟨is, listed⟩ :=
      f.insertExplicit_over held first explicit
    · exact .inl ⟨_, _, is, noConflict, ⟨_, _, rfl⟩, _, by rw [entered, listed, Option.map_some],
        standing_setEntry ..⟩
    · refine .inl ⟨_, _, is, rfl, .refl f, f.standing var, ?_, (Function.update_eq_self ..).symm⟩
      rw [entered, listed, Option.map_some, standing, held]
      rfl
    · exact .inr ⟨old, is, by rw [entered, listed, Option.map_none]⟩

end Frame

/-! ## Registering listed variables -/

section
variable {o : Options} {decls : DeclTable} {directive : DirectiveKind} {clause : ClauseKind}
  {item : ClauseItem} {items : List (ClauseKind × ClauseItem)} {stack stack' : FrameStack}
  {s : Scope} {f f' f₀ : Frame} {outer : List Frame} {var : DeclId} {d : VarDecl}

theorem FrameStack.visible_modifyCurrent (visible : stack.visible = f :: outer)
    (change : Frame → Frame) : (stack.modifyCurrent change).visible = change f :: outer := by
  have kept : (stack.modifyCurrent change).visible = stack.visible.modify 0 change := by
    simp [modifyCurrent, FrameStack.visible, List.drop_modify_of_ge]
  rw [kept, visible]
  rfl

theorem Scope.visible_copyFor (s : Scope) (kind : Sharing) :
    (s.copyFor kind).2.stack.visible = s.stack.visible := by
  unfold copyFor
  split <;> rfl

/-- A listed variable is judged by the local variables of its region and by the regions around it. -/
theorem judge_congr (visible : stack.visible = f :: outer) (visible' : stack'.visible = f' :: outer)
    (locals : f'.locals = f.locals) :
    judge o decls stack directive clause var d = judge o decls stack' directive clause var d := by
  have around : stack'.suppress.visible = stack.suppress.visible := by
    rw [FrameStack.visible_suppress, FrameStack.visible_suppress, visible, visible']
    rfl
  have excluded : excludedByParallel o decls stack var = excludedByParallel o decls stack' var := by
    funext kind
    simp only [excludedByParallel, FrameStack.innermost?, around]
  have here : stack.current?.any (·.isLocal var) = stack'.current?.any (·.isLocal var) := by
    simp [FrameStack.current?, visible, visible', Frame.isLocal, locals]
  simp only [judge, excluded, here]

theorem ClauseKind.plain_of_sharing? {modifier : Modifier}
    (given : clause.sharing? = some (.shared, modifier)) : modifier = .none := by
  cases clause <;> cases given
  rfl

theorem plain_judge : (judge o decls stack directive clause var d).Plain := by
  intro modifier entered
  unfold judge at entered
  repeat' split at entered
  all_goals cases entered
  exact ClauseKind.plain_of_sharing? ‹_›

theorem judge_refused?_ne_conflictingClauses :
    (judge o decls stack directive clause var d).refused? ≠ some .conflictingClauses := by
  unfold judge
  repeat' split
  all_goals exact nofun

/-- A listed variable, and the judgement on it. -/
def listing (o : Options) (decls : DeclTable) (stack : FrameStack) (directive : DirectiveKind)
    (item : ClauseKind × ClauseItem) : DeclId × Judgement :=
  let var := decls.canonical item.2.decl
  (var, match decls.get? var with
    | some d => judge o decls stack directive item.1 var d
    | none => .pass)

/-- The report on a listed variable that is refused. -/
def listingReport? (o : Options) (decls : DeclTable) (stack : FrameStack) (directive : DirectiveKind)
    (item : ClauseKind × ClauseItem) : Option Diagnostic :=
  (listing o decls stack directive item).2.refused?.map
    (refusal item.2 (decls.canonical item.2.decl) item.1.tag)

theorem plain_listing (item : ClauseKind × ClauseItem) :
    (listing o decls stack directive item).2.Plain := by
  unfold listing
  dsimp only
  split
  · exact plain_judge
  · exact nofun

/-- The diagnostic is about two clauses that exclude each other. -/
def Diagnostic.OnConflict (d : Diagnostic) : Prop := d.kind = .attributeConflict .conflictingClauses

theorem not_onConflict_of_listingReport? {item : ClauseKind × ClauseItem} {e : Diagnostic}
    (report : listingReport? o decls stack directive item = some e) : ¬e.OnConflict := by
  obtain ⟨reason, refused, rfl⟩ := Option.map_eq_some_iff.mp report
  rintro conflict
  cases conflict
  unfold listing at refused
  dsimp only at refused
  split at refused
  · exact judge_refused?_ne_conflictingClauses refused
  · cases refused

/-- From `s`, where `f` is the current frame, to `s'`, where `f'` is, variables were registered that were
judged as `listed` says. Either their judgements went together, and the frame knows what follows from
them, and just `due` was reported; or a conflict was reported. -/
structure Scope.Registers (s : Scope) (f : Frame) (outer : List Frame) (listed : List (DeclId × Judgement))
    (due : List Diagnostic) (s' : Scope) (f' : Frame) : Prop where
  visible : s'.stack.visible = f' :: outer
  relisted : f.Relisted f'
  reported : ∃ ds, s'.diagnostics = s.diagnostics ++ ds ∧
    ((listed.foldl knownAfter? (some f.standing) = some f'.standing ∧ ds = due) ∨
      (listed.foldl knownAfter? (some f.standing) = none ∧ ∃ e ∈ ds, e.OnConflict))

namespace Scope.Registers

variable {s' s'' : Scope} {f'' : Frame} {listed listed' : List (DeclId × Judgement)}
  {due due' : List Diagnostic}

theorem nil (visible : s.stack.visible = f :: outer) : s.Registers f outer [] [] s f where
  visible := visible
  relisted := .refl f
  reported := ⟨[], (List.append_nil _).symm, .inl ⟨rfl, rfl⟩⟩

theorem append (h : s.Registers f outer listed due s' f')
    (h' : s'.Registers f' outer listed' due' s'' f'') :
    s.Registers f outer (listed ++ listed') (due ++ due') s'' f'' where
  visible := h'.visible
  relisted := h.relisted.trans h'.relisted
  reported := by
    obtain ⟨ds, reported, outcome⟩ := h.reported
    obtain ⟨ds', reported', outcome'⟩ := h'.reported
    refine ⟨ds ++ ds', by rw [reported', reported, List.append_assoc], ?_⟩
    rw [List.foldl_append]
    obtain ⟨known, rfl⟩ | ⟨clash, e, he, conflict⟩ := outcome
    · rw [known]
      obtain ⟨known', rfl⟩ | ⟨clash', e, he, conflict⟩ := outcome'
      · exact .inl ⟨known', rfl⟩
      · exact .inr ⟨clash', e, List.mem_append_right _ he, conflict⟩
    · rw [clash, foldl_knownAfter?_none]
      exact .inr ⟨rfl, e, List.mem_append_left _ he, conflict⟩

end Scope.Registers

/-- Entering a listed variable, unless it conflicts with what was known of it. -/
theorem enterItem_registers (visible : s.stack.visible = f :: outer) (item : ClauseItem) (var : DeclId)
    (d : VarDecl) (kind : Sharing) (modifier : Modifier) :
    ∃ f', s.Registers f outer [(var, .enter kind modifier)] []
      (enterItem item var d kind modifier s) f' := by
  have silent := diagnostics_copyFor s kind
  have stays := (s.visible_copyFor kind).trans visible
  have current : (s.copyFor kind).2.stack.current? = some f := by
    rw [FrameStack.current?, stays, List.head?_cons]
  have step : knownAfter? (some f.standing) (var, .enter kind modifier) =
      ((f.standing var).entered? kind modifier).map (Function.update f.standing var) := rfl
  unfold enterItem
  simp only [current]
  obtain ⟨f', insertion, is, noConflict, relisted, known, entered, standing⟩ | ⟨old, is, entered⟩ :=
    f.insertExplicit_standing var (e := { kind, modifier, copy := (s.copyFor kind).1
                                          location := item.location
                                          ofPointee := item.ofSection && d.ty.isPointer }) rfl rfl
  · rw [is]
    have goesOn : knownAfter? (some f.standing) (var, .enter kind modifier) = some f'.standing := by
      rw [step, entered, standing, Option.map_some]
    have registers : s.Registers f outer [(var, .enter kind modifier)] []
        ((s.copyFor kind).2.modifyCurrent fun _ => f') f' :=
      ⟨FrameStack.visible_modifyCurrent stays _, relisted, [],
        silent.trans (List.append_nil _).symm, .inl ⟨goesOn, rfl⟩⟩
    cases insertion with
    | conflict old => cases noConflict
    | inserted | merged | duplicate => exact ⟨f', registers⟩
  · rw [is]
    refine ⟨f, stays, .refl f, _, congrArg (· ++ [_]) silent,
      .inr ⟨?_, _, List.mem_singleton_self _, rfl⟩⟩
    rw [List.foldl_cons, List.foldl_nil, step, entered, Option.map_none]

/-- Registering a listed variable. -/
theorem registerItem_registers (o : Options) (directive : DirectiveKind)
    (visible : s.stack.visible = f :: outer) (clause : ClauseKind)
    (declared : item.decl.index < decls.size) :
    ∃ s' f', registerItem o decls directive clause item s = .ok s' ∧
      s.Registers f outer [listing o decls s.stack directive (clause, item)]
        (listingReport? o decls s.stack directive (clause, item)).toList s' f' := by
  obtain ⟨d, found, held⟩ := DeclTable.exists_decl_canonical declared
  unfold registerItem listingReport? listing
  simp only [found, held]
  cases judge o decls s.stack directive clause (decls.canonical item.decl) d with
  | pass =>
    exact ⟨_, f, rfl, visible, .refl f, [], (List.append_nil _).symm, .inl ⟨by
      simp [knownAfter?, Standing.judged?], rfl⟩⟩
  | report reason =>
    exact ⟨_, f, rfl, visible, .refl f, _, rfl, .inl ⟨by
      simp [knownAfter?, Standing.judged?], rfl⟩⟩
  | reject reason =>
    refine ⟨_, f.reject (decls.canonical item.decl), rfl, FrameStack.visible_modifyCurrent visible _, ?_, _,
      rfl, .inl ⟨?_, rfl⟩⟩
    · unfold Frame.reject
      split
      · exact .refl f
      · exact ⟨_, _, rfl⟩
    · rw [f.standing_reject]
      rfl
  | enter kind modifier =>
    obtain ⟨f', registers⟩ := enterItem_registers visible item (decls.canonical item.decl) d kind modifier
    exact ⟨_, f', rfl, registers⟩

/-- Registering listed variables, each judged as at the start. -/
theorem registerItems_registers (o : Options) (directive : DirectiveKind)
    (start : stack.visible = f₀ :: outer)
    (visible : s.stack.visible = f :: outer) (locals : f.locals = f₀.locals)
    (declared : ∀ item ∈ items, item.2.decl.index < decls.size) :
    ∃ s' f', registerItems o decls directive items s = .ok s' ∧
      s.Registers f outer (items.map (listing o decls stack directive))
        (items.filterMap (listingReport? o decls stack directive)) s' f' := by
  induction items generalizing s f with
  | nil => exact ⟨s, f, rfl, .nil visible⟩
  | cons item rest ih =>
    obtain ⟨declaredFirst, declaredRest⟩ := List.forall_mem_cons.mp declared
    obtain ⟨s₁, f₁, registered, first⟩ :=
      registerItem_registers o directive visible item.1 declaredFirst
    have locals₁ : f₁.locals = f.locals := by
      obtain ⟨_, _, rfl⟩ := first.relisted
      rfl
    obtain ⟨s₂, f₂, registeredRest, others⟩ := ih first.visible (locals₁.trans locals) declaredRest
    have sameListing : listing o decls s.stack directive item = listing o decls stack directive item := by
      simp only [listing, judge_congr start visible locals]
    have sameReport : listingReport? o decls s.stack directive item =
        listingReport? o decls stack directive item := by
      rw [listingReport?, sameListing, listingReport?]
    refine ⟨s₂, f₂, ?_, ?_⟩
    · rw [registerItems, registered]
      exact registeredRest
    · have together := first.append others
      rw [sameListing, sameReport] at together
      cases report : listingReport? o decls stack directive item with
      | none =>
        rw [List.filterMap_cons_none report]
        rwa [report] at together
      | some e =>
        rw [List.filterMap_cons_some report]
        rwa [report] at together

end

/-! ## What clauses say about the region as a whole -/

/-- The marks of a region with one more clause. -/
def FrameFlags.marked (flags : FrameFlags) (tag : ClauseTag) : FrameFlags :=
  { flags with
    ordered := flags.ordered || tag = .ordered
    nowait := flags.nowait || tag = .nowait
    untied := flags.untied || tag = .untied
    orderConcurrent := flags.orderConcurrent || tag = .order }

theorem FrameFlags.marked_comm (flags : FrameFlags) (tag tag' : ClauseTag) :
    (flags.marked tag).marked tag' = (flags.marked tag').marked tag := by
  simp [marked, Bool.or_right_comm]

/-- The mode of a region with one more clause. -/
def ClauseKind.mode (mode : DefaultMode) : ClauseKind → DefaultMode
  | .default given => given
  | _ => mode

/-- The mapping defaults of a region with one more clause. -/
def ClauseKind.mapDefaults (directive : DirectiveKind) (defaults : MapDefaults) : ClauseKind → MapDefaults
  | .defaultmap behavior category =>
    if directive.isTarget then defaults.set behavior category else defaults
  | _ => defaults

/-- Only a `default` clause gives a mode. -/
theorem ClauseKind.mode_of_other {clause : ClauseKind} (other : clause.tag ≠ .default)
    (mode : DefaultMode) : clause.mode mode = mode := by
  cases clause with
  | default => exact absurd rfl other
  | _ => rfl

/-- Only a `defaultmap` clause gives a default for mapping. -/
theorem ClauseKind.mapDefaults_of_other {clause : ClauseKind} (other : clause.tag ≠ .defaultmap)
    (directive : DirectiveKind) (defaults : MapDefaults) :
    clause.mapDefaults directive defaults = defaults := by
  cases clause with
  | defaultmap => exact absurd rfl other
  | _ => rfl

/-- The report on a clause that the directive does not take. -/
def Clause.misplaced? (directive : DirectiveKind) (c : Clause) : Option Diagnostic :=
  match c.kind with
  | .defaultmap _ _ =>
    if directive.isTarget then none
    else some
      { location := c.location
        kind := .attributeConflict .invalidForDirective
        args := [.clause .defaultmap, .directive directive] }
  | _ => none

/-- The frame of a region after what its clauses say about the region as a whole. -/
def Frame.noting (directive : DirectiveKind) (f : Frame) (clauses : List Clause) : Frame :=
  { f with
    defaultMode := clauses.foldl (fun mode c => c.kind.mode mode) f.defaultMode
    mapDefaults := clauses.foldl (fun defaults c => c.kind.mapDefaults directive defaults) f.mapDefaults
    flags := clauses.foldl (fun flags c => flags.marked c.kind.tag) f.flags }

section
variable {directive : DirectiveKind} {s : Scope} {f : Frame} {outer : List Frame}

theorem registerMode_notes (directive : DirectiveKind) (visible : s.stack.visible = f :: outer)
    (c : Clause) :
    (registerMode directive s c).stack.visible = f.noting directive [c] :: outer ∧
      (registerMode directive s c).diagnostics = s.diagnostics ++ (c.misplaced? directive).toList := by
  have changed (change : Frame → Frame) (is : change f = f.noting directive [c])
      (silent : c.misplaced? directive = none) :
      (s.modifyCurrent change).stack.visible = f.noting directive [c] :: outer ∧
        (s.modifyCurrent change).diagnostics = s.diagnostics ++ (c.misplaced? directive).toList := by
    rw [silent, ← is]
    exact ⟨FrameStack.visible_modifyCurrent visible change, (List.append_nil _).symm⟩
  obtain ⟨kind, items, location⟩ := c
  unfold registerMode
  cases kind with
  | default | nowait | untied | ordered | order =>
    refine changed _ ?_ rfl
    simp [Frame.noting, ClauseKind.mode, ClauseKind.mapDefaults, FrameFlags.marked, ClauseKind.tag]
  | defaultmap =>
    by_cases target : directive.isTarget = true
    · simp only [target, if_true]
      refine changed _ ?_ (if_pos target)
      simp [Frame.noting, ClauseKind.mode, ClauseKind.mapDefaults, FrameFlags.marked, ClauseKind.tag,
        target]
    · simp [Frame.noting, ClauseKind.mode, ClauseKind.mapDefaults, FrameFlags.marked, ClauseKind.tag,
        target, Scope.report, Clause.misplaced?, visible]
  | _ =>
    simp [Frame.noting, ClauseKind.mode, ClauseKind.mapDefaults, FrameFlags.marked, ClauseKind.tag,
      Clause.misplaced?, visible]

theorem foldl_registerMode_notes (directive : DirectiveKind) (visible : s.stack.visible = f :: outer)
    (clauses : List Clause) :
    (clauses.foldl (registerMode directive) s).stack.visible = f.noting directive clauses :: outer ∧
      (clauses.foldl (registerMode directive) s).diagnostics =
        s.diagnostics ++ clauses.filterMap (·.misplaced? directive) := by
  induction clauses generalizing s f with
  | nil => exact ⟨visible, (List.append_nil _).symm⟩
  | cons c rest ih =>
    obtain ⟨visible₁, reported₁⟩ := registerMode_notes directive visible c
    obtain ⟨visible₂, reported₂⟩ := ih visible₁
    refine ⟨visible₂, ?_⟩
    rw [List.foldl_cons, reported₂, reported₁, List.append_assoc, List.filterMap_cons]
    cases c.misplaced? directive <;> rfl

/-- Only some of the listed steps do anything, and these come in the same order. -/
theorem foldl_eq_of_filter {α β : Type} (step : β → α → β) {p : α → Bool}
    (idle : ∀ b a, p a = false → step b a = b) {l l' : List α} (same : l'.filter p = l.filter p) (b : β) :
    l'.foldl step b = l.foldl step b := by
  have filtered (l : List α) : l.foldl step b = (l.filter p).foldl step b := by
    rw [List.foldl_filter]
    congr 1
    funext b a
    split
    · rfl
    · exact idle b a (Bool.eq_false_iff.mpr ‹_›)
  rw [filtered, filtered l, same]

theorem Frame.noting_of_perm {clauses clauses' : List Clause} (order : clauses.Perm clauses')
    (defaults : clauses'.filter (·.kind.tag = .default) = clauses.filter (·.kind.tag = .default))
    (defaultmaps :
      clauses'.filter (·.kind.tag = .defaultmap) = clauses.filter (·.kind.tag = .defaultmap)) :
    f.noting directive clauses' = f.noting directive clauses := by
  have mode := foldl_eq_of_filter (fun mode (c : Clause) => c.kind.mode mode)
    (fun mode c other => c.kind.mode_of_other (of_decide_eq_false other) mode) defaults
  have mapDefaults := foldl_eq_of_filter
    (fun defaults (c : Clause) => c.kind.mapDefaults directive defaults)
    (fun given c other => c.kind.mapDefaults_of_other (of_decide_eq_false other) directive given)
    defaultmaps
  have flags := order.foldl_eq' (f := fun flags (c : Clause) => flags.marked c.kind.tag)
    (fun _ _ _ _ flags => flags.marked_comm ..) f.flags
  rw [noting, noting, mode, mapDefaults, flags]

end

/-! ## Clauses in another order -/

/-- The frames say the same, apart from private copies and the places that their entries come from. -/
structure Frame.Agrees (f f' : Frame) : Prop where
  defaultMode : f'.defaultMode = f.defaultMode
  mapDefaults : f'.mapDefaults = f.mapDefaults
  flags : f'.flags = f.flags
  rejected : f'.rejected = f.rejected
  shares : ∀ v, (f'.entryOf? v).map (·.share) = (f.entryOf? v).map (·.share)

theorem Frame.agrees_of_relisted {f f₁ f₂ : Frame} (relisted₁ : f.Relisted f₁) (relisted₂ : f.Relisted f₂)
    (same : f₂.standing = f₁.standing) : f₁.Agrees f₂ := by
  have known (v : DeclId) : f₂.standing v = f₁.standing v := congrFun same v
  have rejected : f₂.rejected = f₁.rejected := by
    refine SortedMap.ext_get? fun v => ?_
    have mark : (f₂.rejected.get? v).isSome = (f₁.rejected.get? v).isSome :=
      congrArg Standing.rejected (known v)
    cases h₁ : f₁.rejected.get? v <;> cases h₂ : f₂.rejected.get? v <;> simp_all
  obtain ⟨_, _, rfl⟩ := relisted₁
  obtain ⟨_, _, rfl⟩ := relisted₂
  exact ⟨rfl, rfl, rfl, rejected, fun v => congrArg Standing.share? (known v)⟩

/-- The variables that the clauses list, each with the clause that lists it. -/
def Region.listedItems (r : Region) : List (ClauseKind × ClauseItem) :=
  r.clauses.flatMap fun c => c.items.map (c.kind, ·)

section
variable {o : Options} {decls : DeclTable} {r : Region} {s : Scope} {f : Frame} {outer : List Frame}

/-- What holds of the items of a region holds of them where they are listed. -/
theorem Region.forall_mem_listedItems (r : Region) {p : ClauseItem → Prop} (h : ∀ item ∈ r.items, p item) :
    ∀ listed ∈ r.listedItems, p listed.2 := by
  intro listed hlisted
  obtain ⟨c, hc, hlisted⟩ := List.mem_flatMap.mp hlisted
  obtain ⟨i, hi, rfl⟩ := List.mem_map.mp hlisted
  exact h i (List.mem_flatMap.mpr ⟨c, hc, hi⟩)

/-- Registering the clauses of a region: what they say about it as a whole, and then what they list. -/
theorem registerClauses_registers (visible : s.stack.visible = f :: outer)
    (declared : ∀ item ∈ r.items, item.decl.index < decls.size) :
    ∃ (s₀ s' : Scope) (f' : Frame), registerClauses o decls r s = .ok s' ∧
      s₀.diagnostics = s.diagnostics ++ r.clauses.filterMap (·.misplaced? r.kind) ∧
      s₀.Registers (f.noting r.kind r.clauses) outer
        (r.listedItems.map (listing o decls s.stack r.kind))
        (r.listedItems.filterMap (listingReport? o decls s.stack r.kind)) s' f' := by
  obtain ⟨noted, misplaced⟩ := foldl_registerMode_notes r.kind visible r.clauses
  obtain ⟨s', f', registered, registers⟩ := registerItems_registers o r.kind visible noted rfl
    (r.forall_mem_listedItems declared)
  refine ⟨_, s', f', ?_, misplaced, registers⟩
  rw [registerClauses, FrameStack.current?, visible]
  exact registered

theorem not_onConflict_of_misplaced? {directive : DirectiveKind} {c : Clause} {e : Diagnostic}
    (report : c.misplaced? directive = some e) : ¬e.OnConflict := by
  unfold Clause.misplaced? at report
  repeat' split at report
  all_goals cases report
  exact nofun

/-- What is reported on clauses that go together is not about a conflict. -/
theorem not_onConflict_of_reports {stack : FrameStack} {directive : DirectiveKind} {clauses : List Clause}
    {items : List (ClauseKind × ClauseItem)} {e : Diagnostic}
    (he : e ∈ clauses.filterMap (·.misplaced? directive) ++
      items.filterMap (listingReport? o decls stack directive)) : ¬e.OnConflict := by
  obtain he | he := List.mem_append.mp he
  · obtain ⟨c, -, report⟩ := List.mem_filterMap.mp he
    exact not_onConflict_of_misplaced? report
  · obtain ⟨item, -, report⟩ := List.mem_filterMap.mp he
    exact not_onConflict_of_listingReport? report

/-- Clauses may be written in another order, as long as the `default` clauses follow each other as before,
and the `defaultmap` clauses: if no two of them exclude each other, the same is reported, and the frame of
the region comes to say the same. -/
theorem clauses_reordered {clauses : List Clause} (current : s.stack.current? = some f)
    (declared : ∀ item ∈ r.items, item.decl.index < decls.size)
    (order : r.clauses.Perm clauses)
    (defaults : clauses.filter (·.kind.tag = .default) = r.clauses.filter (·.kind.tag = .default))
    (defaultmaps :
      clauses.filter (·.kind.tag = .defaultmap) = r.clauses.filter (·.kind.tag = .defaultmap)) :
    ∃ s₁ s₂ f₁ f₂ ds₁ ds₂,
      registerClauses o decls r s = .ok s₁ ∧ registerClauses o decls { r with clauses } s = .ok s₂ ∧
      s₁.stack.current? = some f₁ ∧ s₂.stack.current? = some f₂ ∧
      s₁.diagnostics = s.diagnostics ++ ds₁ ∧ s₂.diagnostics = s.diagnostics ++ ds₂ ∧
      ((∀ e ∈ ds₁, ¬e.OnConflict) → (∀ e ∈ ds₂, ¬e.OnConflict) ∧ ds₁.Perm ds₂ ∧ f₁.Agrees f₂) := by
  obtain ⟨outer, visible⟩ : ∃ outer, s.stack.visible = f :: outer := List.head?_eq_some_iff.mp current
  obtain ⟨t₁, s₁, f₁, registered₁, misplaced₁, registers₁⟩ :=
    registerClauses_registers (o := o) visible declared
  obtain ⟨t₂, s₂, f₂, registered₂, misplaced₂, registers₂⟩ :=
    registerClauses_registers (o := o) (r := { r with clauses }) visible
      fun item hitem => declared item ((order.flatMap_right _).mem_iff.mpr hitem)
  obtain ⟨ds₁, reported₁, outcome₁⟩ := registers₁.reported
  obtain ⟨ds₂, reported₂, outcome₂⟩ := registers₂.reported
  rw [misplaced₁, List.append_assoc] at reported₁
  rw [misplaced₂, List.append_assoc] at reported₂
  have current₁ : s₁.stack.current? = some f₁ := by
    rw [FrameStack.current?, registers₁.visible, List.head?_cons]
  have current₂ : s₂.stack.current? = some f₂ := by
    rw [FrameStack.current?, registers₂.visible, List.head?_cons]
  refine ⟨s₁, s₂, f₁, f₂, _, _, registered₁, registered₂, current₁, current₂, reported₁, reported₂, ?_⟩
  intro quiet
  have items : r.listedItems.Perm (Region.listedItems { r with clauses }) := order.flatMap_right _
  have noted : f.noting r.kind clauses = f.noting r.kind r.clauses :=
    Frame.noting_of_perm order defaults defaultmaps
  have plain : ∀ l ∈ r.listedItems.map (listing o decls s.stack r.kind), l.2.Plain :=
    List.forall_mem_map.mpr fun item _ => plain_listing item
  have together := foldl_knownAfter?_of_perm (items.map _) plain
    (some (f.noting r.kind r.clauses).standing)
  obtain ⟨known₁, rfl⟩ | ⟨-, e, he, conflict⟩ := outcome₁
  · dsimp only at outcome₂
    rw [noted, ← together, known₁] at outcome₂
    obtain ⟨known₂, rfl⟩ | ⟨clash, -⟩ := outcome₂
    · have agrees : f₁.Agrees f₂ := Frame.agrees_of_relisted registers₁.relisted
        (noted ▸ registers₂.relisted) (Option.some.inj known₂).symm
      exact ⟨fun e he => not_onConflict_of_reports he,
        (order.filterMap _).append (items.filterMap _), agrees⟩
    · cases clash
  · exact absurd conflict (quiet e (List.mem_append_right _ he))

end

/-- In a parallel loop, `x` is both lastprivate and firstprivate and `y` is shared twice, while `c`, which
is `const`, is refused as a reduction item. The clauses may be written the other way round, except that
the `default` clauses stay in their order. -/
theorem clauses_reordered_merged :
    let decl (id : Nat) (name : String) (ty : Ty) : VarDecl :=
      { id := ⟨id⟩, name, ty, storage := .automatic, scope := .function, location := ⟨1, 1⟩ }
    let decls : DeclTable := ⟨[decl 0 "x" .int32, decl 1 "y" .int32, decl 2 "c" (.int true .i32)]⟩
    let mark (kind : ClauseKind) : Clause := { kind, items := [], location := ⟨2, 1⟩ }
    let list (kind : ClauseKind) (var column : Nat) : Clause :=
      { kind, items := [{ decl := ⟨var⟩, location := ⟨2, column⟩ }], location := ⟨2, 1⟩ }
    let before := [mark (.default .none), list (.lastprivate false) 0 10, list .shared 1 20,
      mark (.default .shared)]
    let behind := [list .firstprivate 0 30, mark .nowait, list (.reduction .add) 2 40, list .shared 1 50]
    let r : Region := { kind := .parallelFor, clauses := before ++ behind, location := ⟨2, 1⟩ }
    let s : Scope := { stack := { frames := [{ kind := .parallelFor }] } }
    ∃ s₁ s₂ f₁ f₂,
      registerClauses {} decls r s = .ok s₁ ∧
      registerClauses {} decls { r with clauses := behind ++ before } s = .ok s₂ ∧
      s₁.stack.current? = some f₁ ∧ s₂.stack.current? = some f₂ ∧
      s₁.diagnostics.length = 1 ∧ s₁.diagnostics.Perm s₂.diagnostics ∧ f₁.Agrees f₂ := by
  intro decl decls mark list before behind r s
  obtain ⟨s₁, s₂, f₁, f₂, ds₁, ds₂, registered₁, registered₂, current₁, current₂, reported₁, reported₂,
      agree⟩ := @clauses_reordered {} decls r s _ (behind ++ before) rfl (by decide)
    List.perm_append_comm rfl rfl
  have refused : (registerClauses {} decls r s).toOption.map (·.diagnostics) =
      some [refusal { decl := ⟨2⟩, location := ⟨2, 40⟩ } ⟨2⟩ .reduction .constVariable] := by
    decide +kernel
  rw [registered₁] at refused
  have reports : s₁.diagnostics = [_] := Option.some.inj refused
  have one : ds₁ = [_] := reported₁.symm.trans reports
  obtain ⟨-, same, agrees⟩ := agree (by
    rw [one]
    exact List.forall_mem_singleton.mpr nofun)
  refine ⟨s₁, s₂, f₁, f₂, registered₁, registered₂, current₁, current₂, congrArg List.length reports, ?_,
    agrees⟩
  rw [reported₁, reported₂]
  exact same

end Directives
