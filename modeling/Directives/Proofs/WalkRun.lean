import Directives.Proofs.InferredEntries
import Directives.Proofs.KeptFrames
/-!
Walks that nothing stops, as a relation with one rule for each way in which a region is left behind:
it is passed by, or it is entered, walked through and left. A walk comes back to the place where it
began: the frames that were open are kept, and none is hidden.
-/

namespace Directives

/-- The record with each of the variables sorted by its resolution. -/
def RegionReport.recordAll (report : RegionReport) (vars : List DeclId)
    (resolution : DeclId → Resolution) : RegionReport :=
  vars.foldl (fun report var => report.record var (resolution var)) report

theorem RegionReport.recordAll_eq (report : RegionReport) (vars : List DeclId)
    (resolution : DeclId → Resolution) :
    report.recordAll vars resolution =
      { report with
        attributes := report.attributes ++
          vars.filterMap fun v => (resolution v).attr?.map fun a => ⟨v, a⟩
        unresolved := report.unresolved ++ vars.filter fun v => resolution v = .unresolved
        rejected := report.rejected ++ vars.filter fun v => resolution v = .rejected } := by
  induction vars generalizing report with
  | nil => simp [recordAll]
  | cons v rest ih =>
    have step : report.recordAll (v :: rest) resolution =
        (report.record v (resolution v)).recordAll rest resolution := rfl
    rw [step, ih]
    cases h : resolution v <;> simp [record, Resolution.attr?, h]

namespace Walk

variable {o : Options} {r : Region} {sole : Bool} {w w₁ w₂ w' w'' : Walk} {id : Nat} {f : Frame}
  {outer : List Frame} {ts rest : List RegionTree}

/-- Infers the clauses of the current region, resolves its variables, and records it. -/
def conclude (o : Options) (r : Region) (report : RegionReport) (nest : Option LoopNest)
    (w : Walk) : Walk :=
  let (scope, implicit) := inferClauses o w.decls r w.scope
  { w with
    scope
    regions := w.regions ++
      [{ report.recordAll (regionVariables w.decls r nest) (resolve o w.decls scope.stack.visible)
         with implicit, nest }]
    parents := report.id :: w.parents }

/-! ## Arriving at a region -/

/-- A region is passed by: it is recorded, and nothing happens to the frames. -/
inductive Passes (r : Region) (w : Walk) : Walk → Prop where
  | intro {verdict status scope} (hidden : w.scope.stack.hidden = 0) (skipped : status ≠ .analyzed)
      (stack : scope.stack = w.scope.stack) :
      Passes r w (({ w with scope } : Walk).add (w.blank r verdict status))

/-- The frame with which a region is opened. -/
def opening (r : Region) : Frame := { kind := r.kind, name := r.name, location := r.location }

/-- A region is entered where the rules of nesting admit it: in `w₂` its clauses and loops are
registered in its frame `f`, which has the frames `outer` around it. -/
inductive Enters (o : Options) (r : Region) (sole : Bool) (w : Walk) : Nat → Walk → Prop where
  | intro {nest f outer} {w₂ : Walk} (hidden : w.scope.stack.hidden = 0)
      (admitted : (Placement.ofRegion r sole w.scope.stack.frames).verdict = .legal)
      (frames : outer = (w.scope.stack.noting r).frames) (inside : w₂.scope.stack.Inside f outer)
      (continues : (opening r).Continues f) (copies : w.scope.stack.nextCopy ≤ w₂.scope.stack.nextCopy)
      (explicit : f.AllExplicit) (decls : w.decls.GrowsTo w₂.decls) (regions : w₂.regions = w.regions)
      (parents : w₂.parents = w.parents) :
      Enters o r sole w w.regions.length (w₂.conclude o r (w.blank r .legal .analyzed) nest)

/-- What can become of a region at which a walk arrives. Where it is stopped, no frame is hidden. -/
inductive Arrives (o : Options) (r : Region) (sole : Bool) (w : Walk) : Arrival → Prop where
  | passed {w₁ : Walk} (passes : Passes r w w₁) : Arrives o r sole w (.passed w₁)
  | entered {id : Nat} {w₁ : Walk} (enters : Enters o r sole w id w₁) :
      Arrives o r sole w (.entered id w₁)
  | stopped {e : Error} {w₁ : Walk} (hidden : w₁.scope.stack.hidden = 0) :
      Arrives o r sole w (.stopped e w₁)

/-- What becomes of a region whose frame was just pushed: the walk is stopped by its clauses, or by its
loops, or the region is entered. -/
inductive Analyzes (o : Options) (r : Region) (report : RegionReport) (w : Walk) : Arrival → Prop where
  | refused {e scope}
      (clauses : registerClauses o w.decls r (w.scope.modifyCurrent (declareLocals w.decls r)) =
        .error (e, scope)) :
      Analyzes o r report w (.stopped e { w with scope })
  | lacking {e scope w₂}
      (clauses : registerClauses o w.decls r (w.scope.modifyCurrent (declareLocals w.decls r)) =
        .ok scope)
      (loops : ({ w with scope } : Walk).registerLoops o r = (.error e, w₂)) :
      Analyzes o r report w (.stopped e w₂)
  | entered {scope nest w₂}
      (clauses : registerClauses o w.decls r (w.scope.modifyCurrent (declareLocals w.decls r)) =
        .ok scope)
      (loops : ({ w with scope } : Walk).registerLoops o r = (.ok nest, w₂)) :
      Analyzes o r report w (.entered report.id (w₂.conclude o r report nest))

theorem analyzes_analyzeCurrent (o : Options) (r : Region) (report : RegionReport) (w : Walk) :
    Analyzes o r report w (w.analyzeCurrent o r report) := by
  have sameId (vars : List DeclId) (resolution : DeclId → Resolution) :
      (report.recordAll vars resolution).id = report.id := by
    rw [RegionReport.recordAll_eq]
  unfold analyzeCurrent
  dsimp only
  split
  · rename_i refused
    exact .refused refused
  · rename_i scope registered
    split
    · rename_i lacking
      exact .lacking registered lacking
    · rename_i nest w₂ found
      have entered : Analyzes o r report w
          (.entered report.id (w₂.conclude o r report nest)) := .entered registered found
      rw [conclude, ← sameId] at entered
      exact entered

theorem analyzeCurrent_ne_passed {report : RegionReport} :
    w.analyzeCurrent o r report ≠ .passed w₁ := by
  intro passed
  have analyzes := analyzes_analyzeCurrent o r report w
  rw [passed] at analyzes
  cases analyzes

/-- What becomes of a region whose frame was just pushed, seen from where the walk arrived. -/
theorem arrives_analyzeCurrent {stack : FrameStack} (hidden : w.scope.stack.hidden = 0)
    (admitted : (Placement.ofRegion r sole w.scope.stack.frames).verdict = .legal)
    (pushed : stack.Inside (opening r) (w.scope.stack.noting r).frames)
    (copies : w.scope.stack.nextCopy ≤ stack.nextCopy) :
    Arrives o r sole w (analyzeCurrent o r (w.blank r .legal .analyzed)
      { w with scope := { w.scope with stack } }) := by
  have fresh : (opening r).AllExplicit := by
    intro v e he
    cases he
  obtain ⟨declared, sameEntries⟩ := declareLocals_keeps w.decls r (opening r)
  have works₀ := (FrameStack.Works.refl pushed).modifyCurrent (declareLocals w.decls r) declared
  have analyzes := analyzes_analyzeCurrent o r (w.blank r .legal .analyzed)
    { w with scope := { w.scope with stack } }
  generalize analyzeCurrent .. = arrival at analyzes ⊢
  cases analyzes with
  | refused clauses =>
    obtain ⟨f', inside⟩ := inside_of_registerClauses_error works₀.inside clauses
    exact .stopped inside.hidden
  | @lacking e scope w₂ clauses loops =>
    obtain ⟨f₁, works₁, -⟩ := registerClauses_works works₀.inside clauses
    obtain ⟨⟨f₂, works₂, -⟩, -⟩ := registerLoops_works (w := { w with scope }) works₁.inside loops
    exact .stopped works₂.inside.hidden
  | @entered scope nest w₂ clauses loops =>
    obtain ⟨f₁, works₁, explicit₁⟩ := registerClauses_works works₀.inside clauses
    obtain ⟨⟨f₂, works₂, same₂⟩, decls, regions, parents⟩ :=
      registerLoops_works (w := { w with scope }) works₁.inside loops
    have works := (works₀.trans works₁).trans works₂
    have explicit₂ := (explicit₁ (fresh.congr sameEntries)).congr same₂
    exact .entered (.intro hidden admitted rfl works.inside works.continues
      (Nat.le_trans copies works.copies) explicit₂ decls regions parents)

theorem verdict_of_diagnostic?_eq_none {p : Placement} {location : Location}
    (h : p.diagnostic? location p.verdict = none) : p.verdict = .legal := by
  cases hv : p.verdict with
  | legal => rfl
  | illegal =>
    rw [hv] at h
    cases h

/-- The walk with the frame of a region pushed. -/
def entering (w : Walk) (r : Region) : Walk :=
  let around := w.scope.stack.noting r
  { w with scope := { w.scope with stack := { around with frames := opening r :: around.frames } } }

/-- A region is passed by; or its frame is pushed, where the rules of nesting admit it. -/
theorem arrive_cases (o : Options) (r : Region) (sole : Bool) (hidden : w.scope.stack.hidden = 0) :
    (∃ w₁, w.arrive o r sole = .passed w₁ ∧ Passes r w w₁) ∨
      ((Placement.ofRegion r sole w.scope.stack.frames).verdict = .legal ∧
        w.arrive o r sole = (w.entering r).analyzeCurrent o r (w.blank r .legal .analyzed)) := by
  have visible : w.scope.stack.visible = w.scope.stack.frames := by
    rw [FrameStack.visible, hidden, List.drop_zero]
  unfold arrive
  split
  · exact .inl ⟨_, rfl, .intro hidden (by decide) rfl⟩
  · dsimp only
    split
    · exact .inl ⟨_, rfl, .intro hidden (by decide) rfl⟩
    · rename_i silent
      have admitted := verdict_of_diagnostic?_eq_none silent
      rw [admitted, ← FrameStack.noting, FrameStack.push,
        if_pos ((w.scope.stack.hidden_noting r).trans hidden)]
      rw [visible] at admitted
      exact .inr ⟨admitted, rfl⟩

theorem arrives_arrive (o : Options) (r : Region) (sole : Bool) (hidden : w.scope.stack.hidden = 0) :
    Arrives o r sole w (w.arrive o r sole) := by
  obtain ⟨w₁, passed, passes⟩ | ⟨admitted, arrived⟩ := arrive_cases o r sole hidden
  · rw [passed]
    exact .passed passes
  · rw [arrived]
    have notHidden := (w.scope.stack.hidden_noting r).trans hidden
    exact arrives_analyzeCurrent hidden admitted ⟨rfl, notHidden⟩
      (Nat.le_of_eq (w.scope.stack.nextCopy_noting r).symm)

/-- The record describes a region that begins where the walk is. -/
structure Records (w : Walk) (r : Region) (x : RegionReport) : Prop where
  id : x.id = w.regions.length
  kind : x.kind = r.kind
  name : x.name = r.name
  location : x.location = r.location
  parent : x.parent = w.parents.head?
  depth : x.depth = w.scope.stack.frames.length
  uncancelled : x.cancelPresent = false

theorem records_blank (hidden : w.scope.stack.hidden = 0) (r : Region) (verdict : Verdict)
    (status : RegionStatus) : w.Records r (w.blank r verdict status) where
  id := rfl
  kind := rfl
  name := rfl
  location := rfl
  parent := rfl
  depth := by rw [blank, FrameStack.depth, FrameStack.visible, hidden, List.drop_zero]
  uncancelled := rfl

theorem Passes.record (h : Passes r w w₁) :
    ∃ x, w₁.regions = w.regions ++ [x] ∧ w.Records r x ∧ x.status ≠ .analyzed := by
  cases h with
  | intro hidden skipped _ => exact ⟨_, rfl, records_blank hidden r _ _, skipped⟩

theorem Enters.record (h : Enters o r sole w id w₁) :
    ∃ x, w₁.regions = w.regions ++ [x] ∧ w.Records r x ∧ x.status = .analyzed := by
  cases h with
  | @intro nest _ _ w₂ hidden _ _ _ _ _ _ _ regions _ =>
    have blank := records_blank hidden r .legal .analyzed
    refine ⟨_, congrArg (· ++ [_]) regions, ?_, ?_⟩ <;> rw [RegionReport.recordAll_eq]
    · exact { blank with }
    · rfl

/-- In `w₁` the region that was entered from `w` is the current one: its frame `f` is as it was
opened but for what its clauses, loops and body add to it, and stands inside the frames that were
open. -/
structure Current (r : Region) (w : Walk) (id : Nat) (w₁ : Walk) (f : Frame) : Prop where
  hidden : w.scope.stack.hidden = 0
  inside : w₁.scope.stack.Inside f (w.scope.stack.noting r).frames
  continues : (opening r).Continues f
  copies : w.scope.stack.nextCopy ≤ w₁.scope.stack.nextCopy
  parents : w₁.parents = id :: w.parents
  decls : w.decls.GrowsTo w₁.decls

theorem Enters.exists_current (h : Enters o r sole w id w₁) : ∃ f, Current r w id w₁ f := by
  cases h with
  | @intro nest f outer w₂ hidden admitted frames inside continues copies explicit decls regions
      parents =>
    obtain ⟨f', works⟩ := inferClauses_works inside r
    exact ⟨f', {
      hidden
      inside := frames ▸ works.inside
      continues := continues.trans works.continues
      copies := Nat.le_trans copies works.copies
      parents := by rw [← parents]; rfl
      decls }⟩

/-! ## Leaving a region -/

/-- What is left of the walk when the region whose frame is `f` is left: its frame is taken away,
and its record says whether a cancellation names it. -/
def left (w : Walk) (id : Nat) (f : Frame) (outer : List Frame) : Walk :=
  { w with
    parents := w.parents.tail
    scope := { w.scope with stack := { w.scope.stack with frames := outer } }
    regions := w.regions.modify id fun report =>
      { report with cancelPresent := f.flags.cancelPresent } }

theorem leave_of_inside (inside : w.scope.stack.Inside f outer) :
    w.leave id = .ok (w.left id f outer) := by
  unfold leave
  dsimp only
  rw [FrameStack.pop, if_pos inside.hidden, inside.frames]
  rfl

/-- Leaving a region changes its own record only, and of that only the note of a cancellation. -/
theorem regions_left {before within : List RegionReport} {x : RegionReport} (f : Frame)
    (outer : List Frame) (regions : w.regions = before ++ x :: within) :
    (w.left before.length f outer).regions =
      before ++ { x with cancelPresent := f.flags.cancelPresent } :: within := by
  have own : before.length < w.regions.length := by simp [regions]
  rw [left, List.modify_eq_take_cons_drop own]
  simp [regions]

/-- A walk has come back to the place where it was: the frames that were open are kept, none is
hidden, the same regions are entered, and private copies and declarations were only added. -/
structure BackAt (w w' : Walk) : Prop where
  hidden : w'.scope.stack.hidden = 0
  frames : FramesKept w.scope.stack.frames w'.scope.stack.frames
  copies : w.scope.stack.nextCopy ≤ w'.scope.stack.nextCopy
  parents : w'.parents = w.parents
  decls : w.decls.GrowsTo w'.decls

theorem BackAt.refl (hidden : w.scope.stack.hidden = 0) : w.BackAt w where
  hidden
  frames := .refl _
  copies := Nat.le_refl _
  parents := rfl
  decls := .refl _

theorem BackAt.trans (h : w.BackAt w') (h' : w'.BackAt w'') : w.BackAt w'' where
  hidden := h'.hidden
  frames := h.frames.trans h'.frames
  copies := Nat.le_trans h.copies h'.copies
  parents := h'.parents.trans h.parents
  decls := h.decls.trans h'.decls

theorem Passes.backAt (h : Passes r w w₁) : w.BackAt w₁ := by
  cases h with
  | @intro _ _ scope hidden _ stack =>
    exact {
      hidden := (congrArg FrameStack.hidden stack).trans hidden
      frames := by
        have same := congrArg FrameStack.frames stack
        exact same ▸ FramesKept.refl scope.stack.frames
      copies := Nat.le_of_eq (congrArg FrameStack.nextCopy stack).symm
      parents := rfl
      decls := .refl _ }

/-- A region that was walked through is the current one again. -/
theorem Current.again (h : Current r w id w₁ f) (inner : w₁.BackAt w₂) :
    ∃ f' outer, w₂.scope.stack.Inside f' outer := by
  have length := inner.frames.length_eq
  rw [h.inside.frames, List.length_cons] at length
  obtain ⟨f', outer, hcons⟩ := List.exists_cons_of_length_eq_add_one length
  exact ⟨f', outer, hcons, inner.hidden⟩

theorem Current.backAt {f' : Frame} (h : Current r w id w₁ f)
    (inner : w₁.BackAt w₂) (again : w₂.scope.stack.Inside f' outer) :
    w.BackAt (w₂.left id f' outer) := by
  have within := inner.frames
  rw [h.inside.frames, again.frames] at within
  exact {
    hidden := inner.hidden
    frames := (FrameStack.framesKept_noting h.hidden r).trans within.tail
    copies := Nat.le_trans h.copies inner.copies
    parents := by rw [left, inner.parents, h.parents]; rfl
    decls := h.decls.trans inner.decls }

/-! ## Runs -/

/-- A walk over trees that nothing stops. -/
inductive Runs (o : Options) : List RegionTree → Walk → Walk → Prop where
  | done {w : Walk} : Runs o [] w w
  | passed {r sole inside rest w₁ w'} {w : Walk} (passes : Passes r w w₁)
      (after : Runs o rest w₁ w') : Runs o (.node r sole inside :: rest) w w'
  | entered {r sole inside rest id f outer w₁ w'} {w w₂ : Walk} (enters : Enters o r sole w id w₁)
      (inner : Runs o inside w₁ w₂) (current : w₂.scope.stack.Inside f outer)
      (after : Runs o rest (w₂.left id f outer) w') :
      Runs o (.node r sole inside :: rest) w w'

theorem Runs.backAt (run : Runs o ts w w') (hidden : w.scope.stack.hidden = 0) : w.BackAt w' := by
  induction run with
  | done => exact .refl hidden
  | passed passes _ ih => exact passes.backAt.trans (ih passes.backAt.hidden)
  | entered enters _ again _ ihInner ihAfter =>
    obtain ⟨_, current⟩ := enters.exists_current
    have here := current.backAt (ihInner current.inside.hidden) again
    exact here.trans (ihAfter here.hidden)

mutual

theorem Runs.of_tree (t : RegionTree) {rest : List RegionTree} {w w' w'' : Walk}
    (hidden : w.scope.stack.hidden = 0) (h : w.tree o t = .ok w') (after : Runs o rest w' w'') :
    Runs o (t :: rest) w w'' := by
  match t with
  | .node r sole inside =>
    have arrives := arrives_arrive o r sole hidden
    rw [tree] at h
    split at h
    · rename_i arrived
      cases h
      rw [arrived] at arrives
      cases arrives with
      | passed passes => exact .passed passes after
    · cases h
    · rename_i arrived
      rw [arrived] at arrives
      cases arrives with
      | entered enters =>
        split at h
        · cases h
        · rename_i walked
          obtain ⟨_, current⟩ := enters.exists_current
          have inner := Runs.of_forest inside current.inside.hidden walked
          obtain ⟨f, outer, again⟩ := current.again (inner.backAt current.inside.hidden)
          rw [leave_of_inside again] at h
          cases h
          exact .entered enters inner again after

theorem Runs.of_forest (ts : List RegionTree) {w w' : Walk} (hidden : w.scope.stack.hidden = 0)
    (h : w.forest o ts = .ok w') : Runs o ts w w' := by
  match ts with
  | [] =>
    cases h
    exact .done
  | t :: rest =>
    rw [forest] at h
    split at h
    · cases h
    · rename_i first
      have back := (Runs.of_tree t hidden first .done).backAt hidden
      exact Runs.of_tree t hidden first (Runs.of_forest rest back.hidden h)

end

/-- What holds of a walk holds of it in the end, if arriving at a region keeps it, and so does leaving
the region that was entered last. -/
theorem Runs.invariant {P : Walk → Prop}
    (passed : ∀ {r w w₁}, P w → Passes r w w₁ → P w₁)
    (entered : ∀ {r sole w id w₁}, P w → Enters o r sole w id w₁ → P w₁)
    (left : ∀ {w id around f outer}, P w → w.parents = id :: around →
      w.scope.stack.Inside f outer → P (w.left id f outer))
    (run : Runs o ts w w') (before : P w) : P w' := by
  induction run with
  | done => exact before
  | passed passes _ ih => exact ih (passed before passes)
  | entered enters inner again _ ihInner ihAfter =>
    obtain ⟨_, current⟩ := enters.exists_current
    have parents := (inner.backAt current.inside.hidden).parents.trans current.parents
    exact ihAfter (left (ihInner (entered before enters)) parents again)

/-- What holds of every record when it is made, and does not depend on cancellations, holds of all
records in the end. -/
theorem Runs.forall_regions {P : RegionReport → Prop}
    (uncancelled : ∀ x present, P x → P { x with cancelPresent := present })
    (passed : ∀ {r w w₁ x}, Passes r w w₁ → w₁.regions = w.regions ++ [x] → P x)
    (entered : ∀ {r sole w id w₁ x}, Enters o r sole w id w₁ → w₁.regions = w.regions ++ [x] → P x)
    (run : Runs o ts w w') (before : ∀ x ∈ w.regions, P x) : ∀ x ∈ w'.regions, P x := by
  have extended {w w₁ : Walk} {x : RegionReport} (before : ∀ x ∈ w.regions, P x)
      (regions : w₁.regions = w.regions ++ [x]) (here : P x) : ∀ x ∈ w₁.regions, P x := by
    rw [regions, List.forall_mem_append]
    exact ⟨before, List.forall_mem_singleton.mpr here⟩
  refine Runs.invariant (P := fun w => ∀ x ∈ w.regions, P x) ?_ ?_ ?_ run before
  · intro r w w₁ before passes
    obtain ⟨x, regions, -⟩ := passes.record
    exact extended before regions (passed passes regions)
  · intro r sole w id w₁ before enters
    obtain ⟨x, regions, -⟩ := enters.record
    exact extended before regions (entered enters regions)
  · intro w id around f outer before _ _ x hx
    obtain ⟨i, hi, rfl⟩ := List.getElem_of_mem hx
    simp only [Walk.left, List.length_modify] at hi
    have before := before _ (List.getElem_mem hi)
    simp only [Walk.left, List.getElem_modify]
    split
    · exact uncancelled _ _ before
    · exact before

end Walk

end Directives
