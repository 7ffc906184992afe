import Directives.Proofs.ClauseOrder
import Directives.Proofs.LinearSteps
/-!
Listed variables that are refused. Each listing of a variable in the clauses of a region is reported once,
or it is taken: then the frame of the region has an entry for the variable. An entry stems from a listing
that was taken, and a variable is marked as rejected if it has none and one of its listings was refused.
Only a variable that is refused in a `copyin` clause is not marked for it.
-/

namespace Directives

/-! ## What became of a listing -/

/-- A variable that a clause lists, and what was reported on it. -/
structure ItemOutcome where
  clause : ClauseKind
  item : ClauseItem
  report? : Option Diagnostic

namespace ItemOutcome

def listed (x : ItemOutcome) : ClauseKind × ClauseItem := (x.clause, x.item)

def var (x : ItemOutcome) (canon : DeclId → DeclId) : DeclId := canon x.item.decl

def IsRefused (x : ItemOutcome) : Prop := x.report?.isSome

/-- The variable was taken for the attribute that the clause gives. -/
def IsAccepted (x : ItemOutcome) : Prop := x.report? = none ∧ x.clause.sharing?.isSome

/-- It was refused in a clause whose items are marked. -/
def IsMarked (x : ItemOutcome) : Prop := x.IsRefused ∧ x.clause.tag ≠ .copyin

end ItemOutcome

/-- The diagnostic is about a clause that lists the variable: it is reported there and names it. -/
structure Diagnostic.Refuses (d : Diagnostic) (var : DeclId) (item : ClauseItem) : Prop where
  onClause : d.OnClause
  location : d.location = item.location
  names : d.var? = some var

/-- The frame says what became of the listings. Those that were taken, and those that were not because of
another one, left an entry for their variable, and every entry is asked for by one that was taken; a
variable is rejected if it has no entry and a listing of it was refused, but not in a `copyin` clause. -/
structure Frame.Accounts (f : Frame) (canon : DeclId → DeclId) (xs : List ItemOutcome) : Prop where
  refused : ∀ x ∈ xs, ∀ d, x.report? = some d → d.Refuses (x.var canon) x.item
  entered : ∀ x ∈ xs, (x.IsAccepted ∨ ∃ d, x.report? = some d ∧ d.OnConflict) →
    (f.entryOf? (x.var canon)).isSome
  asked : ∀ v e, f.entryOf? v = some e →
    ∃ x ∈ xs, x.IsAccepted ∧ e.IsAskedBy canon v x.listed
  rejected : ∀ v, f.isRejected v = true ↔
    f.entryOf? v = none ∧ ∃ x ∈ xs, x.IsMarked ∧ x.var canon = v

/-- What a listing with this outcome makes of the frame. -/
inductive ItemOutcome.Leads (var : DeclId) (f : Frame) : ItemOutcome → Frame → Prop where
  | passed {clause item} (nothing : clause.sharing? = none) : Leads var f ⟨clause, item, none⟩ f
  | reported {clause item d} (copyin : clause.tag = .copyin) (refuses : d.Refuses var item)
      (alone : ¬d.OnConflict) : Leads var f ⟨clause, item, some d⟩ f
  | rejected {clause item d} (other : clause.tag ≠ .copyin) (refuses : d.Refuses var item)
      (alone : ¬d.OnConflict) : Leads var f ⟨clause, item, some d⟩ (f.reject var)
  | entered {clause item e f' insertion} (gives : clause.sharing? = some (e.kind, e.modifier))
      (location : e.location = item.location) (inserted : f.insertExplicit var e = (f', insertion))
      (fits : insertion.isConflict = false) : Leads var f ⟨clause, item, none⟩ f'
  | clashed {clause item d} (other : clause.tag ≠ .copyin) (held : (f.entryOf? var).isSome)
      (refuses : d.Refuses var item) : Leads var f ⟨clause, item, some d⟩ f

/-- The entries say the same of a variable and stem from the same listing. -/
structure Entry.SameListing (e e' : Entry) : Prop where
  kind : e'.kind = e.kind
  modifier : e'.modifier = e.modifier
  location : e'.location = e.location

theorem Entry.IsAskedBy.congr {e e' : Entry} {canon : DeclId → DeclId} {v : DeclId}
    {listed : ClauseKind × ClauseItem} (asked : e.IsAskedBy canon v listed) (same : e.SameListing e') :
    e'.IsAskedBy canon v listed where
  gives := by rw [same.kind, same.modifier, asked.gives]
  lists := asked.lists
  location := same.location.trans asked.location

section
variable {f f' : Frame} {canon : DeclId → DeclId} {x : ItemOutcome} {xs : List ItemOutcome}
  {var v : DeclId} {e : Entry} {insertion : Insertion}

namespace Frame

theorem isRejected_reject_self (f : Frame) (var : DeclId) :
    (f.reject var).isRejected var = (f.isRejected var || (f.entryOf? var).isNone) := by
  have known := congrArg Standing.rejected (congrFun (f.standing_reject var) var)
  rw [Function.update_self] at known
  simpa [standing, Standing.reject] using known

/-- An entry that is taken is that of its variable, or goes into the one that the variable had. -/
theorem insertExplicit_taken (inserted : f.insertExplicit var e = (f', insertion))
    (fits : insertion.isConflict = false) :
    ∃ e', f'.entryOf? var = some e' ∧
      (e.SameListing e' ∨ ∃ old, f.entryOf? var = some old ∧ old.SameListing e') := by
  have inserts := f.insertsExplicit var e
  rw [inserted] at inserts
  cases inserts with
  | first | replaced => exact ⟨e, entryOf?_setEntry_self, .inl ⟨rfl, rfl, rfl⟩⟩
  | merged => exact ⟨_, entryOf?_setEntry_self, .inl ⟨rfl, rfl, rfl⟩⟩
  | @joined old held => exact ⟨_, entryOf?_setEntry_self, .inr ⟨old, held, rfl, rfl, rfl⟩⟩
  | @duplicate old held => exact ⟨old, held, .inr ⟨old, held, rfl, rfl, rfl⟩⟩
  | conflict => cases fits

/-- What is known of other variables stays, and a variable that had no entry is not rejected any more. -/
theorem insertExplicit_leaves (inserted : f.insertExplicit var e = (f', insertion)) :
    (∀ v, v ≠ var → f'.entryOf? v = f.entryOf? v ∧ f'.isRejected v = f.isRejected v) ∧
      (f'.isRejected var = true → (f.entryOf? var).isSome ∧ f.isRejected var = true) := by
  have inserts := f.insertsExplicit var e
  rw [inserted] at inserts
  have others {e' : Entry} (v : DeclId) (other : v ≠ var) :
      (f.setEntry var e').entryOf? v = f.entryOf? v := entryOf?_setEntry_of_ne (Ne.symm other)
  cases inserts with
  | first =>
    refine ⟨fun v other => ⟨others v other, ?_⟩, fun still => ?_⟩
    · simp [isRejected, SortedMap.contains, SortedMap.get?_erase_of_ne _ (Ne.symm other)]
    · simp [isRejected, SortedMap.contains] at still
  | replaced held | merged held | joined held =>
    exact ⟨fun v other => ⟨others v other, rfl⟩, fun still => ⟨Option.isSome_of_mem held, still⟩⟩
  | duplicate held | conflict held =>
    exact ⟨fun _ _ => ⟨rfl, rfl⟩, fun still => ⟨Option.isSome_of_mem held, still⟩⟩

end Frame

/-- An entry is not taken away by further listings. -/
theorem ItemOutcome.Leads.keeps (leads : x.Leads var f f') (held : (f.entryOf? v).isSome) :
    (f'.entryOf? v).isSome := by
  cases leads with
  | passed | reported | clashed => exact held
  | rejected => rwa [Frame.entryOf?_reject]
  | entered _ _ inserted fits =>
    by_cases own : v = var
    · obtain ⟨e', entered, -⟩ := Frame.insertExplicit_taken inserted fits
      rw [own, entered]
      rfl
    · rwa [((Frame.insertExplicit_leaves inserted).1 v own).1]

namespace Frame

namespace Accounts

theorem nil (fresh : f.entries = .empty ∧ f.rejected = .empty) : f.Accounts canon [] where
  refused _ h := absurd h List.not_mem_nil
  entered _ h := absurd h List.not_mem_nil
  asked v e held := by
    rw [entryOf?, fresh.1] at held
    cases held
  rejected v := by simp [isRejected, fresh.2, SortedMap.contains]

/-- In a frame that accounts for the listings, no variable is both entered and rejected. -/
theorem not_rejected (h : f.Accounts canon xs) (held : (f.entryOf? v).isSome) : ¬f.isRejected v = true := by
  intro rejected
  rw [((h.rejected v).mp rejected).1] at held
  cases held

theorem refused_add (h : f.Accounts canon xs) (leads : x.Leads (x.var canon) f f') :
    ∀ y ∈ xs ++ [x], ∀ d, y.report? = some d → d.Refuses (y.var canon) y.item := by
  rw [List.forall_mem_append, List.forall_mem_singleton]
  refine ⟨h.refused, fun d report => ?_⟩
  cases leads with
  | passed | entered => cases report
  | reported _ refuses | rejected _ refuses | clashed _ _ refuses =>
    cases report
    exact refuses

theorem entered_add (h : f.Accounts canon xs) (leads : x.Leads (x.var canon) f f') :
    ∀ y ∈ xs ++ [x], (y.IsAccepted ∨ ∃ d, y.report? = some d ∧ d.OnConflict) →
      (f'.entryOf? (y.var canon)).isSome := by
  rw [List.forall_mem_append, List.forall_mem_singleton]
  refine ⟨fun y hy taken => leads.keeps (h.entered y hy taken), fun taken => ?_⟩
  cases leads with
  | passed nothing =>
    obtain ⟨-, gives⟩ | ⟨d, report, -⟩ := taken
    · rw [nothing] at gives
      cases gives
    · cases report
  | reported _ _ alone | rejected _ _ alone =>
    obtain ⟨report, -⟩ | ⟨d, report, conflict⟩ := taken
    · cases report
    · cases report
      exact absurd conflict alone
  | entered _ _ inserted fits =>
    obtain ⟨e', held, -⟩ := insertExplicit_taken inserted fits
    exact Option.isSome_of_mem held
  | clashed _ held => exact held

theorem asked_add (h : f.Accounts canon xs) (leads : x.Leads (x.var canon) f f') (v : DeclId) (e : Entry)
    (held : f'.entryOf? v = some e) :
    ∃ y ∈ xs ++ [x], y.IsAccepted ∧ e.IsAskedBy canon v y.listed := by
  have before (held : f.entryOf? v = some e) :
      ∃ y ∈ xs ++ [x], y.IsAccepted ∧ e.IsAskedBy canon v y.listed := by
    obtain ⟨y, hy, asked⟩ := h.asked v e held
    exact ⟨y, List.mem_append_left _ hy, asked⟩
  generalize lists : x.var canon = var at leads
  cases leads with
  | passed | reported | clashed => exact before held
  | rejected =>
    rw [entryOf?_reject] at held
    exact before held
  | @entered clause item new _ _ gives location inserted fits =>
    by_cases own : v = var
    · subst own
      obtain ⟨e', held', same | ⟨old, heldBefore, same⟩⟩ := insertExplicit_taken inserted fits
      · cases held.symm.trans held'
        have asked : new.IsAskedBy canon v (clause, item) := ⟨gives, lists, location⟩
        exact ⟨_, List.mem_append_right _ (List.mem_singleton_self _),
          ⟨rfl, Option.isSome_of_mem gives⟩, asked.congr same⟩
      · cases held.symm.trans held'
        obtain ⟨y, hy, accepted, asked⟩ := h.asked _ old heldBefore
        exact ⟨y, List.mem_append_left _ hy, accepted, asked.congr same⟩
    · rw [((insertExplicit_leaves inserted).1 v own).1] at held
      exact before held

theorem rejected_add (h : f.Accounts canon xs) (leads : x.Leads (x.var canon) f f') (v : DeclId) :
    f'.isRejected v = true ↔
      f'.entryOf? v = none ∧ ∃ y ∈ xs ++ [x], y.IsMarked ∧ y.var canon = v := by
  have split : (∃ y ∈ xs ++ [x], y.IsMarked ∧ y.var canon = v) ↔
      (∃ y ∈ xs, y.IsMarked ∧ y.var canon = v) ∨ (x.IsMarked ∧ x.var canon = v) := by
    simp only [List.mem_append, List.mem_singleton, or_and_right, exists_or, exists_eq_left]
  -- A listing that marks nothing, or only what has an entry, adds nothing to the condition.
  have unmarked (idle : f.entryOf? v = none → ¬(x.IsMarked ∧ x.var canon = v)) : f.isRejected v = true ↔
      f.entryOf? v = none ∧ ∃ y ∈ xs ++ [x], y.IsMarked ∧ y.var canon = v := by
    rw [h.rejected, split]
    exact and_congr_right fun none => (or_iff_left (idle none)).symm
  generalize lists : x.var canon = var at leads
  cases leads with
  | passed => exact unmarked fun _ marked => nomatch marked.1.1
  | reported copyin => exact unmarked fun _ marked => absurd copyin marked.1.2
  | clashed _ held =>
    refine unmarked fun none marked => ?_
    rw [← lists, marked.2, none] at held
    cases held
  | @rejected clause item d other =>
    rw [entryOf?_reject]
    by_cases own : v = var
    · subst own
      rw [isRejected_reject_self, split]
      have marked : (ItemOutcome.mk clause item (some d)).IsMarked := ⟨rfl, other⟩
      cases held : f.entryOf? v with
      | none => simp [marked, lists]
      | some e => simpa using h.not_rejected (Option.isSome_of_mem held)
    · rw [isRejected_reject_of_ne (Ne.symm own)]
      exact unmarked fun _ marked => own (marked.2.symm.trans lists)
  | entered _ _ inserted fits =>
    obtain ⟨others, still⟩ := insertExplicit_leaves inserted
    by_cases own : v = var
    · subst own
      obtain ⟨e', held, -⟩ := insertExplicit_taken inserted fits
      rw [held]
      refine iff_of_false (fun rejected => ?_) (fun none => nomatch none.1)
      exact h.not_rejected (still rejected).1 (still rejected).2
    · rw [(others v own).1, (others v own).2]
      exact unmarked fun _ marked => own (marked.2.symm.trans lists)

theorem add (h : f.Accounts canon xs) (leads : x.Leads (x.var canon) f f') :
    f'.Accounts canon (xs ++ [x]) where
  refused := h.refused_add leads
  entered := h.entered_add leads
  asked := h.asked_add leads
  rejected := h.rejected_add leads

/-- A variable is entered because a listing of it was taken, or rejected, if one of its listings was taken
or marked; and only then. -/
theorem settled_iff (h : f.Accounts canon xs) (v : DeclId) :
    ((∃ e, f.entryOf? v = some e ∧ ∃ x ∈ xs, x.IsAccepted ∧ e.IsAskedBy canon v x.listed) ∨
        f.isRejected v = true) ↔
      ∃ x ∈ xs, x.var canon = v ∧ (x.IsAccepted ∨ x.IsMarked) := by
  constructor
  · rintro (⟨e, -, x, hx, accepted, asked⟩ | rejected)
    · exact ⟨x, hx, asked.lists, .inl accepted⟩
    · obtain ⟨-, x, hx, marked, own⟩ := (h.rejected v).mp rejected
      exact ⟨x, hx, own, .inr marked⟩
  · rintro ⟨x, hx, own, settled⟩
    cases held : f.entryOf? v with
    | some e => exact .inl ⟨e, rfl, h.asked v e held⟩
    | none =>
      obtain accepted | marked := settled
      · have entered := h.entered x hx (.inl accepted)
        rw [own, held] at entered
        cases entered
      · exact .inr ((h.rejected v).mpr ⟨held, x, hx, marked, own⟩)

end Accounts

end Frame

end

/-! ## The frames around -/

/-- The frame `f` is the current one; the frames `inner` are hidden, and the frames `outer` stand around
it. -/
structure FrameStack.Shows (s : FrameStack) (inner : List Frame) (f : Frame) (outer : List Frame) :
    Prop where
  frames : s.frames = inner ++ f :: outer
  hidden : s.hidden = inner.length

section
variable {o : Options} {decls : DeclTable} {directive : DirectiveKind} {clause : ClauseKind}
  {item : ClauseItem} {items : List (ClauseKind × ClauseItem)} {stack : FrameStack} {s : Scope}
  {inner outer : List Frame} {f f₀ : Frame} {xs : List ItemOutcome}

namespace FrameStack.Shows

theorem visible (h : stack.Shows inner f outer) : stack.visible = f :: outer := by
  rw [FrameStack.visible, h.frames, h.hidden, List.drop_left]

theorem current? (h : stack.Shows inner f outer) : stack.current? = some f := by
  rw [FrameStack.current?, h.visible, List.head?_cons]

theorem modifyCurrent (h : stack.Shows inner f outer) (change : Frame → Frame) :
    (stack.modifyCurrent change).Shows inner (change f) outer where
  frames := by
    rw [FrameStack.modifyCurrent, h.frames, h.hidden, List.modify_eq_take_drop, List.take_left,
      List.drop_left]
    rfl
  hidden := h.hidden

theorem copyFor (h : s.stack.Shows inner f outer) (kind : Sharing) :
    (s.copyFor kind).2.stack.Shows inner f outer := by
  unfold Scope.copyFor
  split
  · exact ⟨h.frames, h.hidden⟩
  · exact h

end FrameStack.Shows

/-! ## Registration -/

theorem registerMode_shows (directive : DirectiveKind) (shows : s.stack.Shows inner f outer) (c : Clause) :
    (registerMode directive s c).stack.Shows inner (f.noting directive [c]) outer := by
  have changed : ∃ f', (registerMode directive s c).stack.Shows inner f' outer := by
    unfold registerMode
    repeat' split
    all_goals first
      | exact ⟨_, shows.modifyCurrent _⟩
      | exact ⟨f, shows⟩
  obtain ⟨f', shows'⟩ := changed
  have noted := shows'.visible.symm.trans (registerMode_notes directive shows.visible c).1
  rwa [(List.cons.inj noted).1] at shows'

theorem foldl_registerMode_shows (directive : DirectiveKind) (shows : s.stack.Shows inner f outer)
    (clauses : List Clause) :
    (clauses.foldl (registerMode directive) s).stack.Shows inner (f.noting directive clauses) outer := by
  induction clauses generalizing s f with
  | nil => exact shows
  | cons c rest ih => exact ih (registerMode_shows directive shows c)

/-- The report is that of the judgement on the variable; or the variable is judged to be entered, and a
conflict is reported. -/
def ItemOutcome.FollowsJudgement (o : Options) (decls : DeclTable) (stack : FrameStack)
    (directive : DirectiveKind) (x : ItemOutcome) : Prop :=
  x.report? = listingReport? o decls stack directive x.listed ∨
    ∃ kind modifier d, (listing o decls stack directive x.listed).2 = .enter kind modifier ∧
      x.report? = some d ∧ d.OnConflict

theorem ItemOutcome.Leads.locals {x : ItemOutcome} {var : DeclId} {f f' : Frame}
    (leads : x.Leads var f f') : f'.locals = f.locals := by
  cases leads with
  | passed | reported | clashed => rfl
  | rejected => exact (f.sameMarks_reject var).locals
  | @entered _ _ e _ _ _ _ inserted =>
    have kept := (f.sameMarks_insertExplicit var e).locals
    rwa [inserted] at kept

/-- The report on a variable that is refused is about its listing, and not about a conflict. -/
theorem refuses_of_judge {var : DeclId} {d : VarDecl} {reason : ConflictReason} (item : ClauseItem)
    (refused : (judge o decls stack directive clause var d).refused? = some reason) :
    (refusal item var clause.tag reason).Refuses var item ∧
      ¬(refusal item var clause.tag reason).OnConflict := by
  constructor
  · refine ⟨⟨reason, rfl, ?_⟩, rfl, rfl⟩
    rintro rfl
    exact judge_refused?_ne refused
  · intro conflict
    cases conflict
    exact judge_refused?_ne_conflictingClauses refused

theorem ClauseKind.eq_copyin (clause : ClauseKind) (copyin : clause.tag = .copyin) : clause = .copyin := by
  cases clause with
  | copyin => rfl
  | _ => cases copyin

theorem judge_pass {var : DeclId} {d : VarDecl}
    (passed : judge o decls stack directive clause var d = .pass) : clause.sharing? = none := by
  unfold judge at passed
  repeat' split at passed
  all_goals first
    | cases passed; done
    | rfl
    | assumption

theorem judge_report {var : DeclId} {d : VarDecl} {reason : ConflictReason}
    (reported : judge o decls stack directive clause var d = .report reason) : clause.tag = .copyin := by
  unfold judge at reported
  repeat' split at reported
  all_goals first
    | cases reported; done
    | rfl

theorem judge_reject {var : DeclId} {d : VarDecl} {reason : ConflictReason}
    (rejected : judge o decls stack directive clause var d = .reject reason) : clause.tag ≠ .copyin := by
  intro copyin
  rw [clause.eq_copyin copyin, judge] at rejected
  split at rejected
  · cases rejected
  · cases rejected

/-- From `s`, where `f` is shown, to `s'`, where `f'` is, a listed variable was registered, with this
outcome. -/
structure Scope.Settles (s : Scope) (inner : List Frame) (f : Frame) (outer : List Frame) (x : ItemOutcome)
    (var : DeclId) (s' : Scope) (f' : Frame) : Prop where
  shows : s'.stack.Shows inner f' outer
  reported : s'.diagnostics = s.diagnostics ++ x.report?.toList
  leads : x.Leads var f f'

/-- A variable that is entered is taken, or its listing conflicts with an entry that is there. -/
theorem enterItem_settles (shows : s.stack.Shows inner f outer) (item : ClauseItem) (var : DeclId)
    (d : VarDecl) {kind : Sharing} {modifier : Modifier} (gives : clause.sharing? = some (kind, modifier)) :
    ∃ report? f', s.Settles inner f outer ⟨clause, item, report?⟩ var
        (enterItem item var d kind modifier s) f' ∧ ∀ e ∈ report?, e.OnConflict := by
  have silent := diagnostics_copyFor s kind
  have copied := shows.copyFor kind
  unfold enterItem
  simp only [copied.current?]
  generalize new : ({ kind, modifier, copy := (s.copyFor kind).1, location := item.location
                      ofPointee := item.ofSection && d.ty.isPointer } : Entry) = e
  have inserts := f.insertsExplicit var e
  cases inserted : f.insertExplicit var e with
  | mk f' insertion =>
    have entered (fits : insertion.isConflict = false) :
        s.Settles inner f outer ⟨clause, item, none⟩ var
          ((s.copyFor kind).2.modifyCurrent fun _ => f') f' :=
      ⟨copied.modifyCurrent _, silent.trans (List.append_nil _).symm,
        .entered (new ▸ gives) (new ▸ rfl) inserted fits⟩
    cases insertion with
    | inserted | merged | duplicate => exact ⟨none, f', entered rfl, nofun⟩
    | conflict old =>
      have held : (f.entryOf? var).isSome := by
        rw [inserted] at inserts
        cases inserts with
        | conflict held => exact Option.isSome_of_mem held
      have other : clause.tag ≠ .copyin := by
        intro copyin
        rw [clause.eq_copyin copyin] at gives
        cases gives
      refine ⟨some _, f, ⟨copied, congrArg (· ++ [_]) silent, .clashed other held ?_⟩, ?_⟩
      · exact ⟨⟨_, rfl, nofun⟩, rfl, rfl⟩
      · rintro e ⟨⟩
        rfl

/-- A declared variable that is listed is registered with an outcome that follows its judgement. -/
theorem registerItem_settles (o : Options) (directive : DirectiveKind)
    (shows : s.stack.Shows inner f outer) (clause : ClauseKind) (declared : item.decl.index < decls.size) :
    ∃ report? s' f', registerItem o decls directive clause item s = .ok s' ∧
      s.Settles inner f outer ⟨clause, item, report?⟩ (decls.canonical item.decl) s' f' ∧
      (⟨clause, item, report?⟩ : ItemOutcome).FollowsJudgement o decls s.stack directive := by
  obtain ⟨d, found, held⟩ := DeclTable.exists_decl_canonical declared
  unfold registerItem ItemOutcome.FollowsJudgement ItemOutcome.listed listingReport? listing
  simp only [found, held]
  cases judged : judge o decls s.stack directive clause (decls.canonical item.decl) d with
  | pass =>
    exact ⟨none, _, f, rfl, ⟨shows, (List.append_nil _).symm, .passed (judge_pass judged)⟩, .inl rfl⟩
  | report reason =>
    obtain ⟨refuses, alone⟩ := refuses_of_judge item (congrArg Judgement.refused? judged)
    exact ⟨some _, _, f, rfl, ⟨shows, rfl, .reported (judge_report judged) refuses alone⟩, .inl rfl⟩
  | reject reason =>
    obtain ⟨refuses, alone⟩ := refuses_of_judge item (congrArg Judgement.refused? judged)
    exact ⟨some _, _, _, rfl,
      ⟨shows.modifyCurrent _, rfl, .rejected (judge_reject judged) refuses alone⟩, .inl rfl⟩
  | enter kind modifier =>
    obtain ⟨report?, f', settles, conflicts⟩ :=
      enterItem_settles shows item (decls.canonical item.decl) d (sharing?_of_judge_enter judged)
    refine ⟨report?, _, f', rfl, settles, ?_⟩
    cases report? with
    | none => exact .inl rfl
    | some e => exact .inr ⟨kind, modifier, e, rfl, rfl, conflicts e rfl⟩

/-- Registering listed variables, each judged as at the start, in a frame that accounts for those before
them. -/
theorem registerItems_settles (o : Options) (directive : DirectiveKind)
    (start : stack.visible = f₀ :: outer)
    (shows : s.stack.Shows inner f outer) (locals : f.locals = f₀.locals)
    (accounts : f.Accounts decls.canonical xs)
    (declared : ∀ item ∈ items, item.2.decl.index < decls.size) :
    ∃ s' f' ys, registerItems o decls directive items s = .ok s' ∧ s'.stack.Shows inner f' outer ∧
      ys.map ItemOutcome.listed = items ∧
      s'.diagnostics = s.diagnostics ++ ys.filterMap (·.report?) ∧
      (∀ y ∈ ys, y.FollowsJudgement o decls stack directive) ∧
      f'.Accounts decls.canonical (xs ++ ys) := by
  induction items generalizing s f xs with
  | nil =>
    exact ⟨s, f, [], rfl, shows, rfl, (List.append_nil _).symm, nofun, (List.append_nil xs).symm ▸ accounts⟩
  | cons item rest ih =>
    obtain ⟨clause, item⟩ := item
    obtain ⟨declaredFirst, declaredRest⟩ := List.forall_mem_cons.mp declared
    obtain ⟨report?, s₁, f₁, registered, settles, follows⟩ :=
      registerItem_settles o directive shows clause declaredFirst
    obtain ⟨s₂, f₂, ys, registeredRest, shows₂, listed, reported, followRest, accounts₂⟩ :=
      ih settles.shows (settles.leads.locals.trans locals)
        (accounts.add (x := ⟨clause, item, report?⟩) settles.leads) declaredRest
    -- What was registered before does not count for the judgement.
    have judged : listing o decls s.stack directive (clause, item) =
        listing o decls stack directive (clause, item) := by
      simp only [listing, judge_congr start shows.visible locals]
    refine ⟨s₂, f₂, ⟨clause, item, report?⟩ :: ys, ?_, shows₂, congrArg ((clause, item) :: ·) listed, ?_,
      List.forall_mem_cons.mpr ⟨?_, followRest⟩, ?_⟩
    · rw [registerItems, registered]
      exact registeredRest
    · rw [reported, settles.reported, List.append_assoc, List.filterMap_cons]
      cases report? <;> rfl
    · simp only [ItemOutcome.FollowsJudgement, ItemOutcome.listed, listingReport?, judged] at follows ⊢
      exact follows
    · rwa [List.append_assoc] at accounts₂

end

/-- When the clauses of a region are registered in its frame, which has no entries before and marks no
variable as rejected, each listing of a variable has an outcome, in the order of the listings. One report is
made on each that is refused, for the reason that it was judged to have or because of a conflicting entry,
and no other report names a variable. The frame accounts for the outcomes, and the other frames stay as they
are. A variable has an entry that stems from an accepted listing, or is marked as rejected, if one of its
listings was accepted, or refused outside of `copyin` clauses, and only then. -/
theorem refused_items_marked {o : Options} {decls : DeclTable} {r : Region} {s : Scope}
    {inner outer : List Frame} {f : Frame} (shows : s.stack.Shows inner f outer)
    (fresh : f.entries = .empty ∧ f.rejected = .empty)
    (declared : ∀ item ∈ r.items, item.decl.index < decls.size) :
    ∃ s' f' misplaced outcomes, registerClauses o decls r s = .ok s' ∧ s'.stack.Shows inner f' outer ∧
      outcomes.map ItemOutcome.listed = r.listedItems ∧
      s'.diagnostics = s.diagnostics ++ misplaced ++ outcomes.filterMap (·.report?) ∧
      (∀ d ∈ misplaced, d.var? = none) ∧
      (∀ x ∈ outcomes, x.FollowsJudgement o decls s.stack r.kind) ∧
      f'.Accounts decls.canonical outcomes ∧
      ∀ v, ((∃ e, f'.entryOf? v = some e ∧
            ∃ x ∈ outcomes, x.IsAccepted ∧ e.IsAskedBy decls.canonical v x.listed) ∨
          f'.isRejected v = true) ↔
        ∃ x ∈ outcomes, x.var decls.canonical = v ∧ (x.IsAccepted ∨ x.IsMarked) := by
  have noted := foldl_registerMode_shows r.kind shows r.clauses
  have misplaced := (foldl_registerMode_notes r.kind shows.visible r.clauses).2
  obtain ⟨s', f', outcomes, registered, shows', listed, reported, follow, accounts⟩ :=
    registerItems_settles o r.kind shows.visible noted rfl (.nil (f := f.noting r.kind r.clauses) fresh)
      (r.forall_mem_listedItems declared)
  refine ⟨s', f', _, outcomes, ?_, shows', listed, misplaced ▸ reported, ?_, follow, accounts,
    accounts.settled_iff⟩
  · rw [registerClauses, shows.current?]
    exact registered
  · intro d hd
    obtain ⟨c, -, report⟩ := List.mem_filterMap.mp hd
    unfold Clause.misplaced? at report
    repeat' split at report
    all_goals cases report
    rfl

/-- In a parallel loop, `x` is both lastprivate and firstprivate, `y` is shared and then private, and `z` is
mapped, which is refused, and then private. The threadprivate `t` is refused as private and passed over in
`copyin`, and `c`, which is `const`, is refused as a reduction item. One frame is hidden, and another stands
around. -/
theorem refused_items_marked_mixed :
    let decl (id : Nat) (name : String) (ty : Ty) (threadprivate : Bool) : VarDecl :=
      { id := ⟨id⟩, name, ty, storage := .static, scope := .file, threadprivate, location := ⟨1, 1⟩ }
    let decls : DeclTable :=
      ⟨[decl 0 "x" .int32 false, decl 1 "y" .int32 false, decl 2 "z" .int32 false, decl 3 "t" .int32 true,
        decl 4 "c" (.int true .i32) false]⟩
    let list (kind : ClauseKind) (var column : Nat) : Clause :=
      { kind, items := [{ decl := ⟨var⟩, location := ⟨2, column⟩ }], location := ⟨2, 1⟩ }
    let r : Region :=
      { kind := .parallelFor, location := ⟨2, 1⟩
        clauses := [list (.lastprivate false) 0 10, list .shared 1 15, list (.map .tofrom) 2 20,
          list .priv 3 25, list .firstprivate 0 30, list .priv 1 35, list .priv 2 40, list .copyin 3 45,
          list (.reduction .add) 4 50] }
    let f (kind : DirectiveKind) : Frame := { kind }
    let s : Scope := { stack := { frames := [f .task, f .parallelFor, f .target], hidden := 1 } }
    ∃ s' f' outcomes, registerClauses {} decls r s = .ok s' ∧
      s'.stack.Shows [f .task] f' [f .target] ∧ outcomes.map ItemOutcome.listed = r.listedItems ∧
      s'.diagnostics.map (fun d => (d.kind, d.var?)) =
        [(.attributeConflict .invalidForDirective, some ⟨2⟩), (.attributeConflict .threadprivate, some ⟨3⟩),
          (.attributeConflict .conflictingClauses, some ⟨1⟩),
          (.attributeConflict .constVariable, some ⟨4⟩)] ∧
      [0, 1, 2, 3, 4].map (fun v => ((f'.entryOf? ⟨v⟩).map (·.kind), f'.isRejected ⟨v⟩)) =
        [(some .lastprivate, false), (some .shared, false), (some .priv, false), (none, true),
          (none, true)] ∧
      f'.Accounts decls.canonical outcomes := by
  intro decl decls list r f s
  have registered : (registerClauses {} decls r s).toOption.bind (fun s' =>
      s'.stack.current?.map fun f => (s'.diagnostics.map fun d => (d.kind, d.var?),
        [0, 1, 2, 3, 4].map fun v => ((f.entryOf? ⟨v⟩).map (·.kind), f.isRejected ⟨v⟩))) = some
      ([(.attributeConflict .invalidForDirective, some ⟨2⟩), (.attributeConflict .threadprivate, some ⟨3⟩),
          (.attributeConflict .conflictingClauses, some ⟨1⟩),
          (.attributeConflict .constVariable, some ⟨4⟩)],
        [(some .lastprivate, false), (some .shared, false), (some .priv, false), (none, true),
          (none, true)]) := by
    decide +kernel
  obtain ⟨s', f', -, outcomes, ok, shows, listed, -, -, -, accounts, -⟩ :=
    @refused_items_marked {} decls r s [f .task] [f .target] (f .parallelFor) ⟨rfl, rfl⟩ ⟨rfl, rfl⟩
      (by decide)
  rw [ok, Except.toOption, Option.bind_some, shows.current?, Option.map_some] at registered
  obtain ⟨reports, known⟩ := Prod.mk.inj (Option.some.inj registered)
  exact ⟨s', f', outcomes, ok, shows, listed, reports, known, accounts⟩

/-- A variable that is refused in a `copyin` clause is reported, and has neither an entry nor the mark. -/
theorem copyin_item_not_marked :
    let decls : DeclTable :=
      ⟨[{ id := ⟨0⟩, name := "g", ty := .int32, storage := .static, scope := .file, location := ⟨1, 1⟩ }]⟩
    let r : Region :=
      { kind := .parallel, location := ⟨2, 1⟩
        clauses := [{ kind := .copyin, items := [{ decl := ⟨0⟩, location := ⟨2, 16⟩ }]
                      location := ⟨2, 9⟩ }] }
    let s : Scope := { stack := { frames := [{ kind := .parallel, location := ⟨2, 1⟩ }] } }
    (registerClauses {} decls r s).toOption.bind (fun s' => s'.stack.current?.map fun f =>
        (s'.diagnostics, (f.entryOf? ⟨0⟩).isSome, f.isRejected ⟨0⟩)) =
      some
        ([refusal { decl := ⟨0⟩, location := ⟨2, 16⟩ } ⟨0⟩ .copyin .notThreadprivate], false, false) := by
  decide +kernel

end Directives
