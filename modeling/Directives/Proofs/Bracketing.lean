import Mathlib.Algebra.GroupWithZero.Nat
import Directives.Proofs.FrameEffect
import Directives.Proofs.StoppedWalks
/-!
Regions are entered and left like brackets. A walk that nothing stops leaves every region that it
enters; one that is stopped leaves open the regions in which it was. Several walks may be made one
after the other, also after one was stopped, and then go on inside the regions that it left open: the
frames that are there in the end are those of all walks that were stopped.
-/

namespace Directives

/-- A region is entered, or the one that was entered last is left. -/
inductive Passage where
  | into (r : Region)
  | out

namespace Passage

/-- The regions that are open after a passage, innermost first. -/
def apply (opened : List Region) : Passage → List Region
  | .into r => r :: opened
  | .out => opened.tail

/-- The regions that are entered and not left, innermost first. -/
def unleft (passages : List Passage) : List Region := passages.foldl apply []

end Passage

namespace Walk

mutual

/-- The passages of a walk over a tree. -/
def treePassages (o : Options) : RegionTree → Walk → List Passage
  | .node r sole children, w =>
    match w.arrive o r sole with
    | .passed _ => []
    -- Only a misused stack keeps a region from being entered at which the walk stops.
    | .stopped e _ => if e.isStackMisuse then [] else [.into r]
    | .entered id w' =>
      .into r :: (forestPassages o children w' ++
        match w'.forest o children with
        | .ok w'' => if (w''.leave id).isOk then [.out] else []
        | .error _ => [])

/-- The passages of a walk over trees that stand one after the other. -/
def forestPassages (o : Options) : List RegionTree → Walk → List Passage
  | [], _ => []
  | t :: rest, w =>
    treePassages o t w ++
      match w.tree o t with
      | .ok w' => forestPassages o rest w'
      | .error _ => []

end

/-- The passages lead from the walk `w` to `w'` and leave `opened`, innermost first, besides what was
open: each of these regions has a frame, and there is no other new frame. -/
structure Leaves (w w' : Walk) (passages : List Passage) (opened : List Region) : Prop where
  hidden : w'.scope.stack.hidden = 0
  total : w'.scope.stack.total = opened.length + w.scope.stack.total
  passages : ∀ around, passages.foldl Passage.apply around = opened ++ around

namespace Leaves

variable {r : Region} {w w₁ w₂ w' : Walk} {id : Nat} {ps qs : List Passage}
  {opened inner : List Region}

theorem nothing (back : w.BackAt w') : Leaves w w' [] [] where
  hidden := back.hidden
  total := back.frames.length_eq.trans (Nat.zero_add _).symm
  passages _ := rfl

theorem append (h : Leaves w w₁ ps opened) (h' : Leaves w₁ w' qs inner) :
    Leaves w w' (ps ++ qs) (inner ++ opened) where
  hidden := h'.hidden
  total := by
    rw [h'.total, h.total, List.length_append]
    omega
  passages around := by
    rw [List.foldl_append, h.passages, h'.passages, List.append_assoc]

theorem unleft_eq (h : Leaves w w' ps opened) : Passage.unleft ps = opened := by
  rw [Passage.unleft, h.passages, List.append_nil]

/-- A region is opened when its frame is there, whether its clauses are accepted or not. -/
theorem opens {f : Frame} (hidden : w.scope.stack.hidden = 0)
    (inside : w₁.scope.stack.Inside f (w.scope.stack.noting r).frames) :
    Leaves w w₁ [.into r] [r] where
  hidden := inside.hidden
  total := by
    have around := (FrameStack.framesKept_noting hidden r).length_eq
    simp only [FrameStack.total, inside.frames, List.length_cons, List.length_nil, around]
    omega
  passages _ := rfl

/-- The region that was entered last is left. -/
theorem left {f : Frame} {outer : List Frame} (h : Leaves w w₂ ps [r])
    (again : w₂.scope.stack.Inside f outer) : Leaves w (w₂.left id f outer) (ps ++ [.out]) [] where
  hidden := again.hidden
  total := by
    have total := h.total
    simp only [FrameStack.total, again.frames, List.length_cons, List.length_nil] at total
    simp only [Walk.left, FrameStack.total, List.length_nil]
    omega
  passages around := by
    rw [List.foldl_append, h.passages]
    rfl

end Leaves

/-- The passages of a walk that nothing stops leave no region open. Those of a walk that is stopped
leave at least one. -/
inductive Brackets (w : Walk) : Outcome → List Passage → Prop where
  | completed {w' : Walk} {ps : List Passage} (leaves : Leaves w w' ps []) : Brackets w (.ok w') ps
  | stopped {e : Error} {w' : Walk} {ps : List Passage} {opened : List Region}
      (leaves : Leaves w w' ps opened) (within : opened ≠ []) : Brackets w (.error (e, w')) ps

section
variable {o : Options} {r : Region} {sole : Bool} {w w₁ : Walk} {e : Error} {ps : List Passage}
  {outcome : Outcome}

theorem Brackets.leaves (h : Brackets w outcome ps) :
    Leaves w outcome.last ps (Passage.unleft ps) := by
  cases h with
  | completed leaves => exact leaves.unleft_eq ▸ leaves
  | stopped leaves => exact leaves.unleft_eq ▸ leaves

theorem Brackets.isOk_iff (h : Brackets w outcome ps) :
    outcome.isOk = true ↔ Passage.unleft ps = [] := by
  cases h with
  | completed leaves => exact ⟨fun _ => leaves.unleft_eq, fun _ => rfl⟩
  | stopped leaves within =>
    rw [leaves.unleft_eq]
    exact ⟨fun ok => (Bool.false_ne_true ok).elim, fun none => absurd none within⟩

theorem Brackets.of_stopped (hidden : w.scope.stack.hidden = 0)
    (arrived : w.arrive o r sole = .stopped e w₁) :
    Brackets w (.error (e, w₁)) (if e.isStackMisuse then [] else [.into r]) := by
  obtain ⟨f, inside⟩ : ∃ f, w₁.scope.stack.Inside f (w.scope.stack.noting r).frames := by
    obtain ⟨s, refused, rfl⟩ | ⟨s, clauses, loops⟩ := registered_of_stopped hidden arrived
    · exact inside_of_registerClauses_error (inside_opened hidden) refused
    · obtain ⟨f, works, -⟩ := registerClauses_works (inside_opened hidden) clauses
      obtain ⟨⟨f', works', -⟩, -⟩ :=
        registerLoops_works (w := { w with scope := s }) works.inside loops
      exact ⟨f', works'.inside⟩
  have opens : Leaves w w₁ [.into r] [r] := .opens hidden inside
  obtain ⟨a, -, stops⟩ := (Registers.stopped hidden arrived).ends.error_iff.mp rfl
  rw [stops.isStackMisuse]
  exact .stopped opens (List.cons_ne_nil r [])

end

section
variable {o : Options}

mutual

theorem brackets_tree (t : RegionTree) {w : Walk} (hidden : w.scope.stack.hidden = 0) :
    Brackets w (w.tree o t) (w.treePassages o t) := by
  match t with
  | .node r sole children =>
    have arrives := arrives_arrive o r sole hidden
    rw [treePassages, tree]
    cases arrived : w.arrive o r sole with
    | passed w₁ =>
      rw [arrived] at arrives
      cases arrives with
      | passed passes => exact .completed (.nothing passes.backAt)
    | stopped e w₁ => exact .of_stopped hidden arrived
    | entered id w₁ =>
      rw [arrived] at arrives
      cases arrives with
      | entered enters =>
        obtain ⟨_, current⟩ := enters.exists_current
        have entered : Leaves w w₁ [.into r] [r] := .opens hidden current.inside
        have inner : Brackets w₁ (w₁.forest o children) (w₁.forestPassages o children) :=
          brackets_forest children current.inside.hidden
        dsimp only
        cases walked : w₁.forest o children with
        | error stopped =>
          rw [walked] at inner
          cases inner with
          | stopped leaves =>
            dsimp only
            rw [List.append_nil]
            exact .stopped (entered.append leaves) (List.append_ne_nil_of_right_ne_nil _ nofun)
        | ok w₂ =>
          rw [walked] at inner
          cases inner with
          | completed leaves =>
            have back := (Runs.of_forest children current.inside.hidden walked).backAt
              current.inside.hidden
            obtain ⟨f, outer, again⟩ := current.again back
            dsimp only
            rw [leave_of_inside again]
            exact .completed ((entered.append leaves).left again)

theorem brackets_forest (ts : List RegionTree) {w : Walk} (hidden : w.scope.stack.hidden = 0) :
    Brackets w (w.forest o ts) (w.forestPassages o ts) := by
  match ts with
  | [] => exact .completed (.nothing (.refl hidden))
  | t :: rest =>
    have first : Brackets w (w.tree o t) (w.treePassages o t) := brackets_tree t hidden
    rw [forestPassages, forest]
    cases walked : w.tree o t with
    | error stopped =>
      rw [walked] at first
      dsimp only
      rw [List.append_nil]
      exact first
    | ok w₁ =>
      rw [walked] at first
      cases first with
      | completed leaves =>
        have later : Brackets w₁ (w₁.forest o rest) (w₁.forestPassages o rest) :=
          brackets_forest rest leaves.hidden
        dsimp only
        generalize w₁.forest o rest = outcome at later
        cases later with
        | completed leaves' => exact .completed (leaves.append leaves')
        | @stopped e w' ps opened leaves' within =>
          have both := leaves.append leaves'
          rw [List.append_nil] at both
          exact .stopped both within

end

end

end Walk

/-! ## Calls one after the other -/

/-- What a walk can be asked to go through. -/
inductive Call where
  | stmt (s : Stmt)
  | region (r : Region) (sole : Bool)

namespace Call

def run (o : Options) : Call → Walk → Walk.Outcome
  | .stmt s, w => w.stmt o s
  | .region r sole, w => w.region o r sole

def passages (o : Options) : Call → Walk → List Passage
  | .stmt s, w => w.forestPassages o (s.forest false)
  | .region r sole, w => w.treePassages o (r.tree sole)

theorem brackets (o : Options) (c : Call) {w : Walk} (hidden : w.scope.stack.hidden = 0) :
    w.Brackets (c.run o w) (c.passages o w) := by
  cases c with
  | stmt s => exact Walk.brackets_forest (s.forest false) hidden
  | region r sole => exact Walk.brackets_tree (r.tree sole) hidden

end Call

/-- A call that is made while the walk is in a state. -/
structure Made where
  call : Call
  before : Walk

namespace Made

def outcome (o : Options) (m : Made) : Walk.Outcome := m.call.run o m.before

/-- The regions that the call enters and does not leave. -/
def unleft (o : Options) (m : Made) : List Region := Passage.unleft (m.call.passages o m.before)

end Made

namespace Walk

/-- The walk after calls, each of which goes on in the state that the one before it left, also where it
was stopped. -/
def afterCalls (o : Options) (w : Walk) (calls : List Call) : Walk :=
  calls.foldl (fun w c => (c.run o w).last) w

/-- The calls, each with the state in which it is made. -/
def made (o : Options) : List Call → Walk → List Made
  | [], _ => []
  | c :: rest, w => ⟨c, w⟩ :: made o rest (c.run o w).last

/-- After calls there is a frame for each region that one of them left open, and only calls that were
stopped did. -/
theorem total_afterCalls (o : Options) (calls : List Call) {w : Walk}
    (hidden : w.scope.stack.hidden = 0) :
    (w.afterCalls o calls).scope.stack.total =
        (((w.made o calls).filter fun m => !(m.outcome o).isOk).map fun m => (m.unleft o).length).sum +
          w.scope.stack.total ∧
      ∀ m ∈ w.made o calls, (m.outcome o).isOk = true ↔ m.unleft o = [] := by
  induction calls generalizing w with
  | nil => exact ⟨(Nat.zero_add _).symm, nofun⟩
  | cons c rest ih =>
    have first := c.brackets o hidden
    have leaves := first.leaves
    obtain ⟨total, each⟩ := ih leaves.hidden
    rw [leaves.total] at total
    refine ⟨?_, List.forall_mem_cons.mpr ⟨first.isOk_iff, each⟩⟩
    rw [afterCalls, List.foldl_cons, ← afterCalls, total, made, List.filter_cons]
    simp only [Made.outcome, Made.unleft]
    by_cases ok : (c.run o w).isOk = true
    · rw [first.isOk_iff.mp ok]
      simp [ok]
    · simp only [ok, Bool.not_false, if_true, List.map_cons, List.sum_cons]
      omega

end Walk

/-- After any calls, the walk can be ended exactly where none of them was stopped. Otherwise what is
missing are the regions that the stopped ones entered and did not leave. -/
theorem finish_after_calls (o : Options) (decls : DeclTable) (calls : List Call) :
    let made := (Walk.start decls).made o calls
    let finished := ((Walk.start decls).afterCalls o calls).finish
    ((∃ report, finished = .ok report) ↔ ∀ m ∈ made, (m.outcome o).isOk = true) ∧
      ((∃ m ∈ made, (m.outcome o).isOk = false) →
        finished = .error (.unbalancedStack
          ((made.filter fun m => !(m.outcome o).isOk).map fun m => (m.unleft o).length).sum)) := by
  intro made finished
  obtain ⟨total, each⟩ := Walk.total_afterCalls o calls (w := Walk.start decls) rfl
  have balanced : ((Walk.start decls).afterCalls o calls).scope.stack.total = 0 ↔
      ∀ m ∈ made, (m.outcome o).isOk = true := by
    rw [total, show (Walk.start decls).scope.stack.total = 0 from rfl, Nat.add_zero,
      List.sum_eq_zero_iff_forall_eq_nat, List.forall_mem_map]
    constructor
    · intro none m hm
      by_contra stopped
      have empty := none m (List.mem_filter.mpr ⟨hm, by simpa using stopped⟩)
      exact stopped ((each m hm).mpr (List.length_eq_zero_iff.mp empty))
    · intro ok m hm
      obtain ⟨hm, stopped⟩ := List.mem_filter.mp hm
      rw [ok m hm] at stopped
      cases stopped
  rw [← balanced]
  constructor
  · by_cases ended : ((Walk.start decls).afterCalls o calls).scope.stack.total = 0
    · simp [finished, Walk.finish, ended]
    · simp [finished, Walk.finish, ended]
  · rintro ⟨m, hm, stopped⟩
    have unbalanced : ((Walk.start decls).afterCalls o calls).scope.stack.total ≠ 0 := by
      intro ended
      rw [balanced.mp ended m hm] at stopped
      cases stopped
    simp only [finished, Walk.finish, if_neg unbalanced]
    rw [total]
    rfl

/-- Two calls that are stopped, in two regions and in one, and between them one that is not. -/
theorem finish_after_calls_stopped :
    let single : Region := { kind := .single, location := ⟨2, 1⟩ }
    let inside := single.withList .firstprivate [⟨9⟩]
    let parallel : Region :=
      { kind := .parallel, body := some (.region ⟨2, 1⟩ inside), location := ⟨1, 1⟩ }
    let critical : Region := { kind := .critical, location := ⟨3, 1⟩ }
    let task : Region := { kind := .task, location := ⟨4, 1⟩ }
    let calls : List Call :=
      [.region parallel false, .stmt (.region ⟨3, 1⟩ critical),
        .region (task.withList .priv [⟨7⟩]) false]
    let made := (Walk.start {}).made {} calls
    made.map (fun m => ((m.outcome {}).isOk, (m.unleft {}).map (·.kind))) =
        [(false, [.single, .parallel]), (true, []), (false, [.task])] ∧
      ((Walk.start {}).afterCalls {} calls).finish = .error (.unbalancedStack 3) := by
  intro single inside parallel critical task calls made
  have stopped : ∃ m ∈ made, (m.outcome {}).isOk = false := by decide +kernel
  have missing : ((made.filter fun m => !(m.outcome {}).isOk).map fun m =>
      (m.unleft {}).length).sum = 3 := by decide +kernel
  refine ⟨by decide +kernel, ?_⟩
  rw [← missing]
  exact (finish_after_calls {} {} calls).2 stopped

end Directives
