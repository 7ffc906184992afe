import Directives.Proofs.Cancellation
import Directives.Proofs.Entrance
import Directives.Proofs.FrameEffect
import Directives.Proofs.LoopCounters
/-!
The variables that an analysis adds to the declarations: a private counter for each level of a nest, and
an induction variable for the nest. They come after the declarations of the program, each under its own
position, and no two nests have one in common. Levels of nests that come to nothing leave their counters
in the table; these belong to no nest.
-/

namespace Directives

/-! ## Tables to which variables were added -/

/-- What was added to `t` is in `t'` after it, marked as the analysis' own and under its own position.
Among it are the variables `vars`, which differ from each other and have the types next to them. -/
structure DeclTable.Adds (t t' : DeclTable) (vars : List (DeclId × Ty)) : Prop where
  kept : t.decls <+: t'.decls
  marked : ∀ id d, t.size ≤ id.index → t'.get? id = some d → d.synthesized = true ∧ d.id = id
  outside : ∀ v ∈ vars, t.size ≤ v.1.index
  typed : ∀ v ∈ vars, (t'.get? v.1).map (·.ty) = some v.2
  distinct : (vars.map (·.1)).Nodup

namespace DeclTable

variable {t t' t'' : DeclTable} {vars vars' : List (DeclId × Ty)}

namespace Adds

theorem refl (t : DeclTable) : t.Adds t [] where
  kept := List.prefix_refl _
  marked id d outside is := by
    rw [get?, List.getElem?_eq_none outside] at is
    cases is
  outside _ h := absurd h List.not_mem_nil
  typed _ h := absurd h List.not_mem_nil
  distinct := List.nodup_nil

/-- Fewer of the variables may be named. -/
theorem forget (h : t.Adds t' vars) : t.Adds t' [] where
  kept := h.kept
  marked := h.marked
  outside _ h := absurd h List.not_mem_nil
  typed _ h := absurd h List.not_mem_nil
  distinct := List.nodup_nil

theorem trans (h : t.Adds t' vars) (h' : t'.Adds t'' vars') : t.Adds t'' (vars ++ vars') where
  kept := h.kept.trans h'.kept
  marked id d outside is := by
    by_cases inside : id.index < t'.size
    · rw [GrowsTo.get?_eq h'.kept inside] at is
      exact h.marked id d outside is
    · exact h'.marked id d (Nat.le_of_not_lt inside) is
  outside := by
    rw [List.forall_mem_append]
    exact ⟨h.outside, fun v hv => Nat.le_trans (GrowsTo.size_le h.kept) (h'.outside v hv)⟩
  typed := by
    rw [List.forall_mem_append]
    exact ⟨fun v hv => GrowsTo.typed h'.kept (h.typed v hv), h'.typed⟩
  distinct := by
    rw [List.map_append]
    refine List.nodup_append.mpr ⟨h.distinct, h'.distinct, fun a ha b hb same => ?_⟩
    obtain ⟨v, hv, rfl⟩ := List.mem_map.mp ha
    obtain ⟨v', hv', rfl⟩ := List.mem_map.mp hb
    have earlier := lt_of_typed (h.typed v hv)
    have later := h'.outside v' hv'
    rw [same] at earlier
    omega

end Adds

theorem adds_synthesize (t : DeclTable) (name : String) (ty : Ty) (location : Location) :
    t.Adds (t.synthesize name ty location).2 [((t.synthesize name ty location).1, ty)] where
  kept := t.growsTo_synthesize name ty location
  marked id d outside is := by
    rw [get?, synthesize, push, List.getElem?_append_right outside, List.getElem?_singleton] at is
    split at is
    · rename_i own
      have last : t.size = id.index := Nat.le_antisymm outside (Nat.le_of_sub_eq_zero own)
      cases is
      exact ⟨rfl, congrArg DeclId.mk last⟩
    · cases is
  outside := List.forall_mem_singleton.mpr (Nat.le_refl _)
  typed := by
    rw [List.forall_mem_singleton]
    simp [get?, synthesize, push, nextId, size]
  distinct := List.pairwise_singleton _ _

end DeclTable

/-! ## The variables of a nest -/

/-- The private counter of a level, which has the type of the counter. -/
def LoopLevel.added (l : LoopLevel) : DeclId × Ty := (l.privateCounter, l.counterTy)

/-- The private counters of the levels of a nest, and its induction variable, which has the type in
which its iterations are counted. -/
def LoopNest.added (n : LoopNest) : List (DeclId × Ty) :=
  n.levels.map (·.added) ++ [(n.inductionVar, .ofInt n.total.ty)]

/-- The counters of the nest are declared with the types that its levels give them. -/
def LoopNest.CountsIn (n : LoopNest) (t : DeclTable) : Prop :=
  ∀ l ∈ n.levels, (t.get? l.counter).map (·.ty) = some l.counterTy

theorem LoopNest.CountsIn.mono {n : LoopNest} {t t' : DeclTable} (h : n.CountsIn t)
    (grows : t.GrowsTo t') : n.CountsIn t' := fun l hl => grows.typed (h l hl)

section
variable {o : Options} {decls decls' : DeclTable} {r : Region} {s : Stmt} {header : LoopHeader}
  {level : Nat} {outer : List LoopLevel} {l : LoopLevel} {n : LoopNest}

theorem LoopLevel.adds_ofHeader (h : ofHeader o level header outer decls = .ok (l, decls')) :
    decls.Adds decls' [l.added] := by
  obtain ⟨-, -, name, counter, rfl⟩ := ofHeader_eq_ok h
  have counterTy : l.counterTy = header.counterTy := congrArg LoopHeader.counterTy (header_ofHeader h)
  rw [added, counter, counterTy]
  exact decls.adds_synthesize name header.counterTy header.location

/-- The levels that a search has found, where it began with the table `start`. -/
structure FoundLevels (start : DeclTable) (ls : List LoopLevel) (t : DeclTable) : Prop where
  adds : start.Adds t (ls.map (·.added))
  counts : ∀ l ∈ ls, (t.get? l.counter).map (·.ty) = some l.counterTy

theorem FoundLevels.step {start : DeclTable} (found : FoundLevels start outer decls)
    (recognized : s.recognize o decls = .ok header)
    (made : LoopLevel.ofHeader o level header outer decls = .ok (l, decls')) :
    FoundLevels start (outer ++ [l]) decls' := by
  have adds := LoopLevel.adds_ofHeader made
  have grows : decls.GrowsTo decls' := adds.kept
  constructor
  · rw [List.map_append]
    exact found.adds.trans adds
  · rw [List.forall_mem_append, List.forall_mem_singleton]
    refine ⟨fun l' hl' => grows.typed (found.counts l' hl'), grows.typed ?_⟩
    rw [← LoopLevel.header_ofHeader made] at recognized
    exact (Stmt.recognize_counterTy recognized).1

theorem LoopNest.adds_ofLevels (o : Options) (levels : List LoopLevel) (t : DeclTable) :
    let (n, t') := ofLevels o levels t
    t.Adds t' [(n.inductionVar, .ofInt n.total.ty)] :=
  t.adds_synthesize _ _ _

/-- The search for the loops of a region adds the variables of the nest that it finds, if it finds
one. -/
theorem canonicalizeNest_adds (o : Options) (r : Region) (decls : DeclTable) :
    decls.Adds (canonicalizeNest o r decls).2
        ((canonicalizeNest o r decls).1.nest?.toList.flatMap (·.added)) ∧
      ∀ n ∈ (canonicalizeNest o r decls).1.nest?.toList, n.CountsIn (canonicalizeNest o r decls).2 := by
  have begins : FoundLevels decls [] decls := ⟨.refl decls, fun _ h => absurd h List.not_mem_nil⟩
  have ends : SearchEnds o (FoundLevels decls) (canonicalizeNest o r decls) :=
    canonicalizeNest_ends .step r begins
  generalize canonicalizeNest o r decls = result at ends
  cases ends with
  | @nest levels t found =>
    have adds := LoopNest.adds_ofLevels o levels t
    rw [NestOutcome.nest?, Option.toList_some, List.flatMap_singleton, List.forall_mem_singleton]
    exact ⟨found.adds.trans adds, fun l hl => DeclTable.GrowsTo.typed adds.kept (found.counts l hl)⟩
  | other found noNest =>
    rw [noNest]
    exact ⟨found.adds.forget, fun _ h => absurd h List.not_mem_nil⟩

end

/-! ## The steps of an analysis -/

namespace Walk

variable {o : Options} {r : Region} {sole : Bool} {id : Nat} {start : DeclTable} {w w' : Walk}
  {added : List LoopNest}

/-- The nests that were recorded. -/
def nests (w : Walk) : List LoopNest := w.regions.filterMap (·.nest)

/-- Since the table was `start`, the variables of the recorded nests were added, and possibly
others. -/
structure HasAdded (start : DeclTable) (w : Walk) : Prop where
  adds : start.Adds w.decls (w.nests.flatMap (·.added))
  counts : ∀ n ∈ w.nests, n.CountsIn w.decls

theorem HasAdded.extend (h : w.HasAdded start) (nests : w'.nests = w.nests ++ added)
    (adds : w.decls.Adds w'.decls (added.flatMap (·.added)))
    (counts : ∀ n ∈ added, n.CountsIn w'.decls) : w'.HasAdded start where
  adds := by
    rw [nests, List.flatMap_append]
    exact h.adds.trans adds
  counts := by
    rw [nests, List.forall_mem_append]
    exact ⟨fun n hn => (h.counts n hn).mono adds.kept, counts⟩

theorem HasAdded.same (h : w.HasAdded start) (nests : w'.nests = w.nests)
    (decls : w'.decls = w.decls) : w'.HasAdded start := by
  constructor
  · rw [nests, decls]
    exact h.adds
  · rw [nests, decls]
    exact h.counts

theorem nests_append {x : RegionReport} (regions : w'.regions = w.regions ++ [x]) :
    w'.nests = w.nests ++ x.nest.toList := by
  rw [nests, regions, List.filterMap_append, nests]
  cases h : x.nest <;> simp [h]

theorem nests_left (w : Walk) (id : Nat) (f : Frame) (outer : List Frame) :
    (w.left id f outer).nests = w.nests := by
  have same (l : List RegionReport) (i : Nat) :
      (noteRecord l i f.flags.cancelPresent).filterMap (·.nest) = l.filterMap (·.nest) := by
    have links := congrArg (List.filterMap (·.nest)) (unnoted_noteRecord l i f.flags.cancelPresent)
    rw [List.filterMap_map, List.filterMap_map] at links
    exact links
  exact same w.regions id

theorem HasAdded.passed (h : w.HasAdded start) (passes : Passes r w w') : w'.HasAdded start := by
  cases passes with
  | intro =>
    refine h.same ?_ rfl
    rw [nests_append (x := w.blank r _ _) rfl]
    exact List.append_nil _

theorem HasAdded.entered (h : w.HasAdded start) (hidden : w.scope.stack.hidden = 0)
    (arrived : w.arrive o r sole = .entered id w') : w'.HasAdded start := by
  obtain ⟨w₂, nest, f, f', outer, entrance⟩ := exists_entrance hidden arrived
  obtain ⟨x, regions, own⟩ : ∃ x, w'.regions = w.regions ++ [x] ∧ x.nest = nest := by
    rw [entrance.concluded, conclude, entrance.regions]
    exact ⟨_, rfl, rfl⟩
  have recorded := nests_append regions
  rw [own] at recorded
  -- To enter a region adds declarations only where its loops are searched.
  obtain ⟨rfl, kept⟩ | ⟨rfl, decls⟩ := entrance.loops
  · refine h.same ?_ (entrance.decls_eq.trans kept)
    rw [recorded]
    exact List.append_nil _
  · obtain ⟨adds, counts⟩ := canonicalizeNest_adds o r w.decls
    rw [← decls, ← entrance.decls_eq] at adds counts
    exact h.extend recorded adds counts

theorem HasAdded.step (h : w.HasAdded start) (hidden : w.scope.stack.hidden = 0)
    (step : Step o w w') : w'.HasAdded start := by
  cases step with
  | arrived r sole =>
    have arrives := arrives_arrive o r sole hidden
    cases arrived : w.arrive o r sole with
    | passed w₁ =>
      rw [arrived] at arrives
      cases arrives with
      | passed passes => exact h.passed passes
    | entered id w₁ => exact h.entered hidden arrived
    | stopped e w₁ =>
      obtain ⟨s, -, rfl⟩ | ⟨s, -, lacking⟩ := registered_of_stopped hidden arrived
      · exact h.same rfl rfl
      · obtain ⟨-, decls, regions⟩ := noRoom_of_registerLoops lacking
        exact h.same (congrArg (List.filterMap _) regions) decls
  | left _ left =>
    obtain ⟨f, outer, -, rfl⟩ := exists_left hidden left
    exact h.same (nests_left w _ f outer) rfl

theorem hasAdded_start (decls : DeclTable) : (Walk.start decls).HasAdded decls where
  adds := .refl decls
  counts _ h := absurd h List.not_mem_nil

end Walk

/-- The nests of the regions. -/
def Report.nests (r : Report) : List LoopNest := r.regions.filterMap (·.nest)

/-- What an analysis adds to the declarations of a program comes after them, marked and under its own
position. Each nest has as many of these variables as it has levels, and one more; no variable belongs
to two nests, or twice to one. The private counter of a level has the type of its counter, and the
induction variable the type in which the iterations of the nest are counted. -/
theorem added_declarations {o : Options} {p : Program} {report : Report}
    (ok : (analyze o p).1 = .ok report) :
    p.decls.Adds report.decls (report.nests.flatMap (·.added)) ∧
      ∀ n ∈ report.nests, n.added.length = n.depth + 1 ∧ n.CountsIn report.decls := by
  obtain ⟨w, run, rfl, -⟩ := walk_of_analyze ok
  have added : w.HasAdded p.decls := by
    have kept := Walk.invariant_forest (P := Walk.HasAdded p.decls) (o := o)
      (fun hidden step h => h.step hidden step) p.forest rfl (Walk.hasAdded_start p.decls)
    rwa [run] at kept
  refine ⟨added.adds, fun n hn => ⟨?_, added.counts n hn⟩⟩
  rw [LoopNest.added, List.length_append, List.length_map]
  rfl

/-- Of two loops that should be collapsed, there is only one; its private counter `#2` is in the table,
and in no nest. The nests after it have the variables from `#3` on. -/
theorem added_declarations_after_failure :
    let p := Draft.program do
      let i ← Draft.functionLocal "i" .int32
      let j ← Draft.functionLocal "j" .int64
      let single ← Draft.countedLoop i (← Draft.int 0) (← Draft.int 8) (← Draft.useVars [i])
      let inner ← Draft.countedLoop j (← Draft.int 0) (← Draft.int 4) (← Draft.useVars [j])
      let double ← Draft.countedLoop i (← Draft.int 0) (← Draft.int 8) inner
      let failed ← Draft.region .forLoop fun r =>
        { r.withMark (.collapse (r.literal 2)) with body := some single }
      let simd ← Draft.region .simd fun r => { r with body := some single }
      let collapsed ← Draft.region .forLoop fun r =>
        { r.withMark (.collapse (r.literal 2)) with body := some double }
      return [failed, simd, collapsed]
    ∃ report, (analyze {} p).1 = .ok report ∧ p.decls.size = 2 ∧ report.decls.size = 8 ∧
      report.nests.map (fun n => n.added.map (·.1.index)) = [[3, 4], [5, 6, 7]] ∧
      p.decls.Adds report.decls (report.nests.flatMap (·.added)) ∧
      ∀ n ∈ report.nests, n.added.length = n.depth + 1 ∧ n.CountsIn report.decls := by
  intro p
  obtain ⟨report, ok, size, ids⟩ :
      ∃ report, (analyze {} p).1 = .ok report ∧ report.decls.size = 8 ∧
        report.nests.map (fun n => n.added.map (·.1.index)) = [[3, 4], [5, 6, 7]] :=
    exists_report_of_decide _ (by decide +kernel)
  exact ⟨report, ok, by decide +kernel, size, ids, added_declarations ok⟩

end Directives
