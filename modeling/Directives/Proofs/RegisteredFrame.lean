import Directives.Proofs.WalkRun
/-!
What registration leaves in the frame of a region. The mode is that of the last `default` clause; of
the variables, the frame knows those that its clauses list for an attribute; and the counters of its
loops are marked, which the clauses cannot change. What is reported meanwhile concerns the clauses
themselves, but for the counters that a clause lists with an attribute they cannot take.
-/

namespace Directives

namespace Frame

variable {f f' f'' : Frame} {var v : DeclId} {e : Entry}

/-- The frame knows the variable: it has an entry, or its listing was invalid. -/
def Knows (f : Frame) (var : DeclId) : Prop := (f.entryOf? var).isSome ∨ f.isRejected var

/-- What is not for clause items to say: the mode of the region, its local variables and the counters
of its loops. -/
structure SameMarks (f f' : Frame) : Prop where
  defaultMode : f'.defaultMode = f.defaultMode
  locals : f'.locals = f.locals
  counters : f'.counters = f.counters

theorem SameMarks.refl (f : Frame) : f.SameMarks f := ⟨rfl, rfl, rfl⟩

theorem SameMarks.trans (h : f.SameMarks f') (h' : f'.SameMarks f'') : f.SameMarks f'' where
  defaultMode := h'.defaultMode.trans h.defaultMode
  locals := h'.locals.trans h.locals
  counters := h'.counters.trans h.counters

/-- An explicit entry is recorded in the place of the variable, or the frame has one and is kept. -/
theorem insertExplicit_fst (f : Frame) (var : DeclId) (e : Entry) :
    ((f.insertExplicit var e).1 = f ∧ (f.entryOf? var).isSome) ∨
      ∃ e' rejected, (f.insertExplicit var e).1 = { f.setEntry var e' with rejected } ∧
        (rejected = f.rejected ∨ rejected = f.rejected.erase var) := by
  have inserts := f.insertsExplicit var e
  generalize f.insertExplicit var e = result at inserts ⊢
  cases inserts with
  | first => exact .inr ⟨e, _, rfl, .inr rfl⟩
  | replaced | merged | joined => exact .inr ⟨_, _, rfl, .inl rfl⟩
  | duplicate held | conflict held => exact .inl ⟨rfl, Option.isSome_of_mem held⟩

theorem eq_of_insertExplicit_conflict {old : Entry}
    (h : f.insertExplicit var e = (f', .conflict old)) : f' = f := by
  have inserts := f.insertsExplicit var e
  rw [h] at inserts
  cases inserts
  rfl

theorem sameMarks_insertExplicit (f : Frame) (var : DeclId) (e : Entry) :
    f.SameMarks (f.insertExplicit var e).1 := by
  obtain ⟨same, -⟩ | ⟨e', rejected, recorded, -⟩ := f.insertExplicit_fst var e
  · rw [same]
    exact .refl f
  · rw [recorded]
    exact ⟨rfl, rfl, rfl⟩

theorem sameMarks_insertImplicit (f : Frame) (var : DeclId) (e : Entry) :
    f.SameMarks (f.insertImplicit var e).1 := by
  obtain same | ⟨-, -, recorded⟩ := f.insertImplicit_cases var e
  · rw [same]
    exact .refl f
  · rw [recorded]
    exact ⟨rfl, rfl, rfl⟩

theorem sameMarks_reject (f : Frame) (var : DeclId) : f.SameMarks (f.reject var) := by
  unfold reject
  split
  · exact .refl f
  · exact ⟨rfl, rfl, rfl⟩

theorem knows_insertExplicit : (f.insertExplicit var e).1.Knows v ↔ f.Knows v ∨ v = var := by
  obtain ⟨same, entered⟩ | ⟨e', rejected, recorded, spared⟩ := f.insertExplicit_fst var e
  · rw [same]
    refine ⟨.inl, fun h => h.elim id ?_⟩
    rintro rfl
    exact .inl entered
  · rw [recorded]
    by_cases same : var = v
    · subst same
      have entered : ((f.setEntry var e').entryOf? var).isSome := by
        rw [entryOf?_setEntry_self]
        rfl
      exact ⟨fun _ => .inr rfl, fun _ => .inl entered⟩
    · have entry : ({ f.setEntry var e' with rejected } : Frame).entryOf? v = f.entryOf? v :=
        entryOf?_setEntry_of_ne same
      have mark : ({ f.setEntry var e' with rejected } : Frame).isRejected v = f.isRejected v := by
        obtain rfl | rfl := spared
        · rfl
        · simp only [isRejected, SortedMap.contains, SortedMap.get?_erase_of_ne _ same]
      rw [Knows, entry, mark, or_iff_left (Ne.symm same), Knows]

theorem isRejected_reject_of_ne (h : var ≠ v) : (f.reject var).isRejected v = f.isRejected v := by
  unfold reject
  split
  · rfl
  · simp only [isRejected, SortedMap.contains, SortedMap.get?_insert_of_ne _ _ h]

theorem entryOf?_reject (f : Frame) (var v : DeclId) : (f.reject var).entryOf? v = f.entryOf? v := by
  rw [entryOf?, entries_reject, entryOf?]

theorem knows_reject : (f.reject var).Knows v ↔ f.Knows v ∨ v = var := by
  by_cases same : var = v
  · subst same
    refine ⟨fun _ => .inr rfl, fun _ => ?_⟩
    unfold reject
    split
    · rename_i entered
      exact .inl entered
    · exact .inr (by simp [isRejected, SortedMap.contains])
  · rw [Knows, entryOf?_reject, isRejected_reject_of_ne same, or_iff_left (Ne.symm same), Knows]

end Frame

/-! ## Reports -/

/-- Since `s`, nothing but diagnostics that satisfy `P` was reported. -/
def Scope.ReportsOnly (P : Diagnostic → Prop) (s s' : Scope) : Prop :=
  ∃ ds, s'.diagnostics = s.diagnostics ++ ds ∧ ∀ d ∈ ds, P d

namespace Scope.ReportsOnly

variable {P : Diagnostic → Prop} {s s' s'' : Scope}

theorem nothing (same : s'.diagnostics = s.diagnostics) : s.ReportsOnly P s' :=
  ⟨[], by rw [same, List.append_nil], fun _ hd => absurd hd List.not_mem_nil⟩

theorem single {d : Diagnostic} (reported : s'.diagnostics = s.diagnostics ++ [d]) (h : P d) :
    s.ReportsOnly P s' :=
  ⟨[d], reported, List.forall_mem_singleton.mpr h⟩

theorem trans (h : s.ReportsOnly P s') (h' : s'.ReportsOnly P s'') : s.ReportsOnly P s'' := by
  obtain ⟨ds, reported, hds⟩ := h
  obtain ⟨ds', reported', hds'⟩ := h'
  refine ⟨ds ++ ds', ?_, List.forall_mem_append.mpr ⟨hds, hds'⟩⟩
  rw [reported', reported, List.append_assoc]

end Scope.ReportsOnly

theorem diagnostics_copyFor (s : Scope) (kind : Sharing) :
    (s.copyFor kind).2.diagnostics = s.diagnostics := by
  unfold Scope.copyFor
  split <;> rfl

/-- The diagnostic is about a clause, and not about the attribute of a loop counter. -/
def Diagnostic.OnClause (d : Diagnostic) : Prop :=
  ∃ reason, d.kind = .attributeConflict reason ∧ reason ≠ .loopCounter

section
variable {o : Options} {decls : DeclTable} {stack : FrameStack} {f : Frame} {outer : List Frame}
  {s s' : Scope} {directive : DirectiveKind} {clause : ClauseKind} {var v : DeclId} {d : VarDecl}

/-! ## Clauses -/

/-- The reason for which a judgement refuses a variable. -/
def Judgement.refused? : Judgement → Option ConflictReason
  | .report reason | .reject reason => some reason
  | .pass | .enter _ _ => none

theorem judge_refused?_ne : (judge o decls stack directive clause var d).refused? ≠ some .loopCounter := by
  unfold judge
  split
  · split <;> exact nofun
  · exact nofun
  · repeat' split
    all_goals exact nofun

/-- The judgement marks the variable in the frame, by an entry or as rejected. -/
def Judgement.marks : Judgement → Bool
  | .reject _ | .enter _ _ => true
  | .pass | .report _ => false

/-- Of variables that are not threadprivate, those are marked that are listed for an attribute. -/
theorem judge_marks (notThreadprivate : d.threadprivate = false) :
    (judge o decls stack directive clause var d).marks = clause.sharing?.isSome := by
  unfold judge
  split
  · rw [notThreadprivate]
    rfl
  · rfl
  · simp only [notThreadprivate, Bool.false_and, Bool.false_eq_true, ↓reduceIte]
    split
    · rename_i none
      rw [none]
      rfl
    · rename_i given
      rw [given]
      repeat' split
      all_goals rfl

/-- What a judgement on a variable that is listed at the location makes of the frame. -/
inductive Judgement.Leads (var : DeclId) (location : Location) (f : Frame) :
    Judgement → Frame → Prop where
  | pass : Leads var location f .pass f
  | report {reason} : Leads var location f (.report reason) f
  | reject {reason} : Leads var location f (.reject reason) (f.reject var)
  | enter {kind modifier copy ofPointee} : Leads var location f (.enter kind modifier)
      (f.insertExplicit var { kind, modifier, copy, location, ofPointee }).1

namespace Judgement.Leads

variable {j : Judgement} {location : Location} {f' : Frame}

theorem sameMarks (h : j.Leads var location f f') : f.SameMarks f' := by
  cases h with
  | pass | report => exact .refl f
  | reject => exact f.sameMarks_reject var
  | enter => exact f.sameMarks_insertExplicit var _

theorem knows_iff (h : j.Leads var location f f') : f'.Knows v ↔ f.Knows v ∨ (j.marks ∧ var = v) := by
  cases h with
  | pass | report => simp [marks]
  | reject => simp [marks, Frame.knows_reject, eq_comm]
  | enter => simp [marks, Frame.knows_insertExplicit, eq_comm]

end Judgement.Leads

theorem enterItem_leads (h : s.stack.Inside f outer) (item : ClauseItem) (var : DeclId)
    (d : VarDecl) (kind : Sharing) (modifier : Modifier) :
    ∃ copy ofPointee, (enterItem item var d kind modifier s).stack.Inside (f.insertExplicit var
        { kind, modifier, copy, location := item.location, ofPointee }).1 outer ∧
      s.ReportsOnly Diagnostic.OnClause (enterItem item var d kind modifier s) := by
  have copied := Scope.copyFor_works h kind
  have silent := diagnostics_copyFor s kind
  refine ⟨(s.copyFor kind).1, item.ofSection && d.ty.isPointer, ?_⟩
  unfold enterItem
  simp only [copied.inside.current?]
  split
  · rename_i old hinsert
    refine ⟨?_, .single (congrArg (· ++ [_]) silent) ⟨_, rfl, by decide⟩⟩
    rw [hinsert, Frame.eq_of_insertExplicit_conflict hinsert]
    exact copied.inside
  · rename_i f' _ _ hinsert
    rw [hinsert]
    exact ⟨copied.inside.modifyCurrent fun _ => f', .nothing silent⟩

/-- Registering a listed variable leads to what it was judged to be. -/
theorem registerItem_leads (h : s.stack.Inside f outer) {item : ClauseItem}
    (hok : registerItem o decls directive clause item s = .ok s') :
    ∃ d f', decls.get? (decls.canonical item.decl) = some d ∧
      (judge o decls s.stack directive clause (decls.canonical item.decl) d).Leads
        (decls.canonical item.decl) item.location f f' ∧
      s'.stack.Inside f' outer ∧ s.ReportsOnly Diagnostic.OnClause s' := by
  have refused (d : VarDecl) :
      (judge o decls s.stack directive clause (decls.canonical item.decl) d).refused? ≠
        some .loopCounter := judge_refused?_ne
  unfold registerItem DeclTable.decl at hok
  dsimp only at hok
  cases hd : decls.get? (decls.canonical item.decl) with
  | none =>
    rw [hd] at hok
    cases hok
  | some d =>
    rw [hd] at hok
    cases hok
    specialize refused d
    cases hj : judge o decls s.stack directive clause (decls.canonical item.decl) d with
    | pass => exact ⟨d, f, rfl, hj ▸ .pass, h, .nothing rfl⟩
    | report reason =>
      rw [hj] at refused
      exact ⟨d, f, rfl, hj ▸ .report, h, .single rfl ⟨reason, rfl, fun e => refused (congrArg some e)⟩⟩
    | reject reason =>
      rw [hj] at refused
      exact ⟨d, _, rfl, hj ▸ .reject, h.modifyCurrent _,
        .single rfl ⟨reason, rfl, fun e => refused (congrArg some e)⟩⟩
    | enter kind modifier =>
      obtain ⟨copy, ofPointee, inside, reports⟩ :=
        enterItem_leads h item (decls.canonical item.decl) d kind modifier
      exact ⟨d, _, rfl, hj ▸ .enter, inside, reports⟩

/-- Some of the items lists the variable in a clause that gives an attribute. -/
def GivesAttribute (canon : DeclId → DeclId) (items : List (ClauseKind × ClauseItem)) (v : DeclId) :
    Prop :=
  ∃ item ∈ items, item.1.sharing?.isSome ∧ canon item.2.decl = v

theorem registerItems_frame (h : s.stack.Inside f outer) {items : List (ClauseKind × ClauseItem)}
    (hok : registerItems o decls directive items s = .ok s') :
    ∃ f', s'.stack.Inside f' outer ∧ f.SameMarks f' ∧ s.ReportsOnly Diagnostic.OnClause s' ∧
      ∀ v d, decls.get? v = some d → d.threadprivate = false →
        (f'.Knows v ↔ f.Knows v ∨ GivesAttribute decls.canonical items v) := by
  induction items generalizing s f with
  | nil =>
    cases hok
    exact ⟨f, h, .refl f, .nothing rfl, fun v d _ _ => by simp [GivesAttribute]⟩
  | cons item rest ih =>
    rw [registerItems] at hok
    split at hok
    · cases hok
    · rename_i s₁ hitem
      obtain ⟨d₁, f₁, hd₁, leads, inside₁, reports₁⟩ := registerItem_leads h hitem
      obtain ⟨f₂, inside₂, marks₂, reports₂, knows₂⟩ := ih inside₁ hok
      refine ⟨f₂, inside₂, leads.sameMarks.trans marks₂, reports₁.trans reports₂, ?_⟩
      intro v d hd notThreadprivate
      have here (same : decls.canonical item.2.decl = v) :
          (judge o decls s.stack directive item.1 (decls.canonical item.2.decl) d₁).marks =
            item.1.sharing?.isSome := by
        cases hd₁.symm.trans (same ▸ hd)
        exact judge_marks notThreadprivate
      rw [knows₂ v d hd notThreadprivate, leads.knows_iff, or_assoc,
        and_congr_left fun same => iff_of_eq (congrArg (· = true) (here same))]
      simp only [GivesAttribute, List.mem_cons, exists_eq_or_imp]

/-- What a clause says about the region as a whole is no more than that; the mode is that of a
`default` clause. -/
theorem registerMode_frame (h : s.stack.Inside f outer) (directive : DirectiveKind) (c : Clause) :
    ∃ f', (registerMode directive s c).stack.Inside f' outer ∧
      f'.defaultMode = (match c.kind with | .default m => m | _ => f.defaultMode) ∧
      (f'.entries = f.entries ∧ f'.rejected = f.rejected ∧ f'.locals = f.locals ∧
        f'.counters = f.counters) ∧
      s.ReportsOnly Diagnostic.OnClause (registerMode directive s c) := by
  unfold registerMode
  cases c.kind with
  | default | nowait | untied | ordered | order =>
    exact ⟨_, h.modifyCurrent _, rfl, ⟨rfl, rfl, rfl, rfl⟩, .nothing rfl⟩
  | defaultmap =>
    dsimp only
    split
    · exact ⟨_, h.modifyCurrent _, rfl, ⟨rfl, rfl, rfl, rfl⟩, .nothing rfl⟩
    · exact ⟨f, h, rfl, ⟨rfl, rfl, rfl, rfl⟩, .single rfl ⟨_, rfl, by decide⟩⟩
  | _ => exact ⟨f, h, rfl, ⟨rfl, rfl, rfl, rfl⟩, .nothing rfl⟩

theorem foldl_registerMode_frame (h : s.stack.Inside f outer) (directive : DirectiveKind)
    (clauses : List Clause) :
    ∃ f', (clauses.foldl (registerMode directive) s).stack.Inside f' outer ∧
      f'.defaultMode = clauses.foldl
        (fun mode c => match c.kind with | .default m => m | _ => mode) f.defaultMode ∧
      (f'.entries = f.entries ∧ f'.rejected = f.rejected ∧ f'.locals = f.locals ∧
        f'.counters = f.counters) ∧
      s.ReportsOnly Diagnostic.OnClause (clauses.foldl (registerMode directive) s) := by
  induction clauses generalizing s f with
  | nil => exact ⟨f, h, rfl, ⟨rfl, rfl, rfl, rfl⟩, .nothing rfl⟩
  | cons c rest ih =>
    obtain ⟨f₁, inside₁, mode₁, ⟨entries₁, rejected₁, locals₁, counters₁⟩, reports₁⟩ :=
      registerMode_frame h directive c
    obtain ⟨f₂, inside₂, mode₂, ⟨entries₂, rejected₂, locals₂, counters₂⟩, reports₂⟩ := ih inside₁
    refine ⟨f₂, inside₂, ?_, ⟨entries₂.trans entries₁, rejected₂.trans rejected₁,
      locals₂.trans locals₁, counters₂.trans counters₁⟩, reports₁.trans reports₂⟩
    rw [mode₂, mode₁, List.foldl_cons]

/-- The clauses of the region list the variable for an attribute. -/
def Region.Lists (r : Region) (canon : DeclId → DeclId) (v : DeclId) : Prop :=
  ∃ c ∈ r.clauses, c.kind.sharing?.isSome ∧ ∃ i ∈ c.items, canon i.decl = v

theorem Region.lists_iff {r : Region} {canon : DeclId → DeclId} :
    r.Lists canon v ↔
      GivesAttribute canon (r.clauses.flatMap fun c => c.items.map (c.kind, ·)) v := by
  constructor
  · rintro ⟨c, hc, given, i, hi, same⟩
    exact ⟨(c.kind, i), List.mem_flatMap.mpr ⟨c, hc, List.mem_map_of_mem hi⟩, given, same⟩
  · rintro ⟨item, hitem, given, same⟩
    obtain ⟨c, hc, hitem⟩ := List.mem_flatMap.mp hitem
    obtain ⟨i, hi, rfl⟩ := List.mem_map.mp hitem
    exact ⟨c, hc, given, i, hi, same⟩

/-- Registering the clauses of a region sets its mode, and makes its frame know the variables that
they list for an attribute, as far as these are not threadprivate. -/
theorem registerClauses_frame (h : s.stack.Inside f outer) {r : Region}
    (hok : registerClauses o decls r s = .ok s') (fresh : f.defaultMode = .unspecified) :
    ∃ f', s'.stack.Inside f' outer ∧ f'.defaultMode = r.defaultMode ∧
      (f'.locals = f.locals ∧ f'.counters = f.counters) ∧
      s.ReportsOnly Diagnostic.OnClause s' ∧
      ∀ v d, decls.get? v = some d → d.threadprivate = false →
        (f'.Knows v ↔ f.Knows v ∨ r.Lists decls.canonical v) := by
  obtain ⟨f₁, inside₁, mode₁, ⟨entries₁, rejected₁, locals₁, counters₁⟩, reports₁⟩ :=
    foldl_registerMode_frame h r.kind r.clauses
  unfold registerClauses at hok
  rw [h.current?, Option.isSome_some, if_pos rfl] at hok
  obtain ⟨f₂, inside₂, marks₂, reports₂, knows₂⟩ := registerItems_frame inside₁ hok
  refine ⟨f₂, inside₂, ?_, ⟨marks₂.locals.trans locals₁, marks₂.counters.trans counters₁⟩,
    reports₁.trans reports₂, fun v d hd notThreadprivate => ?_⟩
  · rw [marks₂.defaultMode, mode₁, fresh]
    rfl
  · have same : f₁.Knows v ↔ f.Knows v := by
      simp only [Frame.Knows, Frame.entryOf?, Frame.isRejected, entries₁, rejected₁]
    rw [knows₂ v d hd notThreadprivate, same, Region.lists_iff]

/-! ## Loops -/

/-- The report on a counter that a clause lists with an attribute it cannot take. -/
def Frame.refusedCounter? (f : Frame) (fixed : Sharing) (var : DeclId) : Option Diagnostic :=
  (f.entryOf? var).bind fun e =>
    if !e.implicit && !Sharing.counterAccepts fixed e.kind then
      some
        { location := e.location
          kind := .attributeConflict .loopCounter
          args := [.var var, .sharing e.kind, .sharing fixed] }
    else none

/-- In `f'` the variables are marked as counters, and nothing else is changed of what `f` says about
variables. -/
structure Frame.Counts (f : Frame) (vars : List DeclId) (fixed : Sharing) (f' : Frame) : Prop where
  defaultMode : f'.defaultMode = f.defaultMode
  entries : f'.entries = f.entries
  rejected : f'.rejected = f.rejected
  counter? : ∀ v, f'.counter? v = if v ∈ vars then some fixed else f.counter? v
  isLocal : ∀ v, f'.isLocal v = (f.isLocal v && decide (v ∉ vars))

theorem Frame.Counts.knows_iff {f' : Frame} {vars : List DeclId} {fixed : Sharing}
    (h : f.Counts vars fixed f') (v : DeclId) : f'.Knows v ↔ f.Knows v := by
  simp only [Frame.Knows, Frame.entryOf?, Frame.isRejected, h.entries, h.rejected]

/-- Marking counters changes no entry, so that the same reports are due. -/
theorem Frame.Counts.refusedCounter?_eq {f' : Frame} {vars : List DeclId} {fixed : Sharing}
    (h : f.Counts vars fixed f') (kind : Sharing) :
    f'.refusedCounter? kind = f.refusedCounter? kind := by
  unfold Frame.refusedCounter? Frame.entryOf?
  rw [h.entries]

theorem Frame.Counts.nil (f : Frame) (fixed : Sharing) : f.Counts [] fixed f where
  defaultMode := rfl
  entries := rfl
  rejected := rfl
  counter? v := by simp
  isLocal v := by simp

theorem Frame.Counts.cons {f' : Frame} {vars : List DeclId} {fixed : Sharing}
    (h : (f.registerCounter var fixed).Counts vars fixed f') : f.Counts (var :: vars) fixed f' where
  defaultMode := h.defaultMode
  entries := h.entries
  rejected := h.rejected
  counter? v := by
    rw [h.counter?]
    by_cases same : var = v
    · subst same
      simp [Frame.registerCounter, Frame.counter?]
    · simp [Frame.registerCounter, Frame.counter?, SortedMap.get?_insert_of_ne _ _ same, Ne.symm same]
  isLocal v := by
    rw [h.isLocal]
    by_cases same : var = v
    · subst same
      simp [Frame.registerCounter, Frame.isLocal, SortedMap.contains]
    · simp [Frame.registerCounter, Frame.isLocal, SortedMap.contains,
        SortedMap.get?_erase_of_ne _ same, Ne.symm same]

theorem registerCounter_frame (decls : DeclTable) (h : s.stack.Inside f outer) (counter : DeclId)
    (fixed : Sharing) :
    (registerCounter decls counter fixed s).stack.Inside
        (f.registerCounter (decls.canonical counter) fixed) outer ∧
      (registerCounter decls counter fixed s).diagnostics =
        s.diagnostics ++ (f.refusedCounter? fixed (decls.canonical counter)).toList := by
  unfold registerCounter Frame.refusedCounter?
  simp only [h.current?]
  cases f.entryOf? (decls.canonical counter) with
  | none => exact ⟨h.modifyCurrent _, (List.append_nil _).symm⟩
  | some e =>
    dsimp only [Option.bind_some]
    split
    · exact ⟨h.modifyCurrent _, rfl⟩
    · exact ⟨h.modifyCurrent _, (List.append_nil _).symm⟩

theorem foldl_registerCounter_frame (decls : DeclTable) (h : s.stack.Inside f outer)
    (levels : List LoopLevel) (fixed : Sharing) :
    ∃ f', (levels.foldl (fun s l => registerCounter decls l.counter fixed s) s).stack.Inside f' outer ∧
      f.Counts (levels.map fun l => decls.canonical l.counter) fixed f' ∧
      (levels.foldl (fun s l => registerCounter decls l.counter fixed s) s).diagnostics =
        s.diagnostics ++
          (levels.map fun l => decls.canonical l.counter).filterMap (f.refusedCounter? fixed) := by
  induction levels generalizing s f with
  | nil => exact ⟨f, h, .nil f fixed, (List.append_nil _).symm⟩
  | cons l rest ih =>
    obtain ⟨inside₁, reported₁⟩ := registerCounter_frame decls h l.counter fixed
    obtain ⟨f₂, inside₂, counts₂, reported₂⟩ := ih inside₁
    -- Marking a counter changes no entry, so that the same reports are due.
    have sameReports : (f.registerCounter (decls.canonical l.counter) fixed).refusedCounter? fixed =
        f.refusedCounter? fixed := rfl
    refine ⟨f₂, inside₂, counts₂.cons, ?_⟩
    rw [List.foldl_cons, reported₂, reported₁, sameReports, List.append_assoc, List.map_cons,
      List.filterMap_cons]
    cases f.refusedCounter? fixed (decls.canonical l.counter) <;> rfl

end

/-- The diagnostic is about a loop as it is written. -/
def Diagnostic.OnLoop (d : Diagnostic) : Prop :=
  ∃ failure : LoopFailure, ∃ level, d = failure.diagnostic level

theorem diagnostics_foldl_report (s : Scope) (diagnostics : List Diagnostic) :
    (diagnostics.foldl Scope.report s).diagnostics = s.diagnostics ++ diagnostics := by
  induction diagnostics generalizing s with
  | nil => exact (List.append_nil _).symm
  | cons d rest ih => rw [List.foldl_cons, ih, Scope.report, List.append_assoc, List.singleton_append]

theorem NestOutcome.onLoop_of_mem_diagnostics {outcome : NestOutcome} {d : Diagnostic}
    (h : d ∈ outcome.diagnostics) : d.OnLoop := by
  cases outcome with
  | nest | deferred | noRoom => cases h
  | invalid failures =>
    obtain ⟨failure, -, rfl⟩ := List.mem_map.mp h
    exact ⟨_, _, rfl⟩

/-- The variables that count in the loops of a nest. -/
def ownCounters (decls : DeclTable) (nest : Option LoopNest) : List DeclId :=
  ((nest.map (·.levels)).getD []).map fun l => decls.canonical l.counter

/-- What is noted of the number of loops says nothing about variables. -/
theorem Frame.Counts.of_notingLoops {r : Region} {f f' : Frame} {vars : List DeclId} {fixed : Sharing}
    (counts : (r.notingLoops f).Counts vars fixed f') : f.Counts vars fixed f' := by
  unfold Region.notingLoops at counts
  split at counts
  · exact { counts with }
  · exact counts

theorem Frame.refusedCounter?_notingLoops (r : Region) (f : Frame) (fixed : Sharing) :
    (r.notingLoops f).refusedCounter? fixed = f.refusedCounter? fixed := by
  unfold Region.notingLoops
  split <;> rfl

/-- After the search for loops, what failed is reported, and the counters of a nest are marked. -/
theorem Walk.afterLoops_frame {w : Walk} {f : Frame} {outer : List Frame}
    (h : w.scope.stack.Inside f outer) (r : Region) (search : NestOutcome × DeclTable) :
    let counters := ownCounters search.2 search.1.nest?
    let fixed := r.fixedSharing search.1.nest?
    ∃ f', (w.afterLoops r search).scope.stack.Inside f' outer ∧ f.Counts counters fixed f' ∧
      ∃ ds, (∀ d ∈ ds, d.OnLoop) ∧ (w.afterLoops r search).scope.diagnostics =
        w.scope.diagnostics ++ (ds ++ counters.filterMap (f.refusedCounter? fixed)) := by
  intro counters fixed
  have inside : (search.1.diagnostics.foldl Scope.report (r.noteLoops w.scope)).stack.Inside
      (r.notingLoops f) outer := by
    rw [stack_foldl_report, r.noteLoops_eq]
    exact h.modifyCurrent r.notingLoops
  obtain ⟨f', inside', counts, reported⟩ := foldl_registerCounter_frame search.2 inside
    ((search.1.nest?.map (·.levels)).getD []) fixed
  refine ⟨f', inside', counts.of_notingLoops, search.1.diagnostics,
    fun d => NestOutcome.onLoop_of_mem_diagnostics, ?_⟩
  have silent : (r.noteLoops w.scope).diagnostics = w.scope.diagnostics := by
    rw [r.noteLoops_eq]
    rfl
  rw [Frame.refusedCounter?_notingLoops, diagnostics_foldl_report, silent, List.append_assoc] at reported
  exact reported

/-- Registering the loops of a region marks the counters of its nest. What is reported concerns the
loops, and then every counter that a clause lists with an attribute it cannot take. -/
theorem Walk.registerLoops_frame {w w' : Walk} {f : Frame} {outer : List Frame} {o : Options}
    {r : Region} {nest : Option LoopNest} (h : w.scope.stack.Inside f outer)
    (loops : w.registerLoops o r = (.ok nest, w')) :
    ∃ f', w'.scope.stack.Inside f' outer ∧
      f.Counts (ownCounters w'.decls nest) (r.fixedSharing nest) f' ∧
      ∃ ds, (∀ d ∈ ds, d.OnLoop) ∧ w'.scope.diagnostics = w.scope.diagnostics ++
        (ds ++ (ownCounters w'.decls nest).filterMap (f.refusedCounter? (r.fixedSharing nest))) := by
  cases registersLoops loops with
  | other => exact ⟨f, h, .nil f _, [], fun _ hd => absurd hd List.not_mem_nil, by simp [ownCounters]⟩
  | searched => exact afterLoops_frame h r (canonicalizeNest o r w.decls)

end Directives
