import Directives.Proofs.Completion
/-!
What a walk does to the regions that are open around it. An analysis proceeds by steps: it arrives at
a region, or leaves the one that it entered last. From every state that steps can reach, a walk
through a statement or a region comes back with the frames that were open: nothing in them has
changed, but that a cancellation may be noted in the innermost one, and in the one around it where
the innermost one is a section.
-/

namespace Directives

namespace Walk

variable {o : Options} {w w' : Walk}

/-- The state in which an arrival leaves the walk, whatever became of the region. -/
def Arrival.last : Arrival → Walk
  | .passed w | .entered _ w | .stopped _ w => w

/-- One step of an analysis: it arrives at a region, or leaves the region that it entered last. -/
inductive Step (o : Options) : Walk → Walk → Prop where
  | arrived (r : Region) (sole : Bool) {w : Walk} : Step o w (w.arrive o r sole).last
  | left {id} {w w' : Walk} (innermost : w.parents.head? = some id) (left : w.leave id = .ok w') :
      Step o w w'

/-- The states in which an analysis can be, whatever its regions. -/
inductive Reachable (o : Options) : Walk → Prop where
  | start (decls : DeclTable) : Reachable o (.start decls)
  | next {w w' : Walk} (reachable : Reachable o w) (step : Step o w w') : Reachable o w'

theorem Arrives.hidden {r : Region} {sole : Bool} {a : Arrival} (arrives : Arrives o r sole w a) :
    a.last.scope.stack.hidden = 0 := by
  cases arrives with
  | passed passes => exact passes.backAt.hidden
  | entered enters =>
    obtain ⟨_, current⟩ := enters.exists_current
    exact current.inside.hidden
  | stopped hidden => exact hidden

theorem exists_left {id : Nat} (hidden : w.scope.stack.hidden = 0) (h : w.leave id = .ok w') :
    ∃ f outer, w.scope.stack.Inside f outer ∧ w' = w.left id f outer := by
  cases frames : w.scope.stack.frames with
  | nil =>
    rw [leave] at h
    dsimp only at h
    rw [FrameStack.pop, if_pos hidden, frames] at h
    cases h
  | cons f outer =>
    have inside : w.scope.stack.Inside f outer := ⟨frames, hidden⟩
    rw [leave_of_inside inside] at h
    cases h
    exact ⟨f, outer, inside, rfl⟩

theorem Step.hidden (step : Step o w w') (hidden : w.scope.stack.hidden = 0) :
    w'.scope.stack.hidden = 0 := by
  cases step with
  | arrived r sole => exact (arrives_arrive o r sole hidden).hidden
  | left _ left =>
    obtain ⟨f, outer, -, rfl⟩ := exists_left hidden left
    exact hidden

theorem Reachable.hidden (reachable : Reachable o w) : w.scope.stack.hidden = 0 := by
  induction reachable with
  | start => rfl
  | next _ step ih => exact step.hidden ih

/-! ## Walks proceed by steps -/

/-- The state in which a walk ends, whether it was stopped or not. -/
def Outcome.last : Outcome → Walk
  | .ok w => w
  | .error (_, w) => w

section
variable {P : Walk → Prop}

mutual

/-- What every step keeps, a walk keeps, whether it is stopped or not. -/
theorem invariant_tree
    (kept : ∀ {w w'}, w.scope.stack.hidden = 0 → Step o w w' → P w → P w') (t : RegionTree)
    {w : Walk} (hidden : w.scope.stack.hidden = 0) (before : P w) : P (w.tree o t).last := by
  match t with
  | .node r sole inside =>
    rw [tree]
    have arrives := arrives_arrive o r sole hidden
    have before₁ := kept hidden (.arrived r sole) before
    cases arrived : w.arrive o r sole with
    | passed w₁ =>
      rw [arrived] at before₁
      exact before₁
    | stopped e w₁ =>
      rw [arrived] at before₁
      exact before₁
    | entered id w₁ =>
      rw [arrived] at arrives before₁
      have hidden₁ : w₁.scope.stack.hidden = 0 := arrives.hidden
      have before₂ : P (w₁.forest o inside).last := invariant_forest kept inside hidden₁ before₁
      dsimp only
      cases walked : w₁.forest o inside with
      | error stopped =>
        rw [walked] at before₂
        exact before₂
      | ok w₂ =>
        rw [walked] at before₂
        cases arrives with
        | entered enters =>
          -- The region that is left is the one that was entered last.
          obtain ⟨_, current⟩ := enters.exists_current
          have back := (Runs.of_forest inside current.inside.hidden walked).backAt
            current.inside.hidden
          have innermost : w₂.parents.head? = some id := by
            rw [back.parents, current.parents, List.head?_cons]
          obtain ⟨f, outer, again⟩ := current.again back
          have left : w₂.leave id = .ok (w₂.left id f outer) := leave_of_inside again
          dsimp only
          rw [left]
          exact kept back.hidden (.left innermost left) before₂

theorem invariant_forest
    (kept : ∀ {w w'}, w.scope.stack.hidden = 0 → Step o w w' → P w → P w') (ts : List RegionTree)
    {w : Walk} (hidden : w.scope.stack.hidden = 0) (before : P w) : P (w.forest o ts).last := by
  match ts with
  | [] => exact before
  | t :: rest =>
    have before₁ := invariant_tree kept t hidden before
    rw [forest]
    cases walked : w.tree o t with
    | error stopped =>
      rw [walked] at before₁
      exact before₁
    | ok w₁ =>
      rw [walked] at before₁
      have back := (Runs.of_tree t hidden walked .done).backAt hidden
      exact invariant_forest kept rest back.hidden before₁

end

end

/-- Walks go from reachable states to reachable states. -/
theorem Reachable.of_forest (ts : List RegionTree) (reachable : Reachable o w) :
    Reachable o (w.forest o ts).last :=
  invariant_forest (fun _ step reachable => reachable.next step) ts reachable.hidden reachable

/-- A walk through a statement or a region that nothing stops comes back to where it was: it leaves
as many frames, and each as it was but for a noted cancellation. -/
theorem walk_keeps_frames (reachable : Reachable o w)
    (walked : (∃ s, w.stmt o s = .ok w') ∨ ∃ r sole, w.region o r sole = .ok w') :
    w.BackAt w' ∧ Reachable o w' := by
  obtain ⟨ts, walked⟩ : ∃ ts, w.forest o ts = .ok w' := by
    rcases walked with ⟨s, walked⟩ | ⟨r, sole, walked⟩
    · exact ⟨s.forest false, walked⟩
    · refine ⟨[r.tree sole], ?_⟩
      rw [forest, show w.tree o (r.tree sole) = .ok w' from walked]
      rfl
  have reachable' := Reachable.of_forest ts reachable
  rw [walked] at reachable'
  exact ⟨(Runs.of_forest ts reachable.hidden walked).backAt reachable.hidden, reachable'⟩

/-- Inside a section, a cancellation of its `sections` construct is noted in the frames of both. -/
theorem walk_keeps_frames_section :
    let sections : Region := { kind := .sections, location := ⟨1, 1⟩ }
    let block : Region := { kind := .sectionBlock, location := ⟨2, 1⟩ }
    let cancel : Region := { kind := .cancel, cancelTarget := some .sections, location := ⟨3, 1⟩ }
    let inSections := ((start {}).arrive {} sections false).last
    let inBlock := (inSections.arrive {} block false).last
    let flags (w : Walk) := w.scope.stack.frames.map fun f => (f.kind, f.flags.cancelPresent)
    flags inBlock = [(.sectionBlock, false), (.sections, false)] ∧ Reachable {} inBlock ∧
      ∃ w', inBlock.stmt {} (.region ⟨3, 1⟩ cancel) = .ok w' ∧
        flags w' = [(.sectionBlock, true), (.sections, true)] ∧ inBlock.BackAt w' := by
  intro sections block cancel inSections inBlock flags
  have reachable : Reachable {} inBlock :=
    ((Reachable.start {}).next (.arrived sections false)).next (.arrived block false)
  obtain ⟨w', walked, noted⟩ :
      ∃ w', inBlock.stmt {} (.region ⟨3, 1⟩ cancel) = .ok w' ∧
        flags w' = [(.sectionBlock, true), (.sections, true)] :=
    exists_ok_of_decide _ (by decide +kernel)
  have kept := walk_keeps_frames reachable (.inl ⟨_, walked⟩)
  exact ⟨by decide +kernel, reachable, w', walked, noted, kept.1⟩

end Walk

end Directives
