import Mathlib.Data.List.Forall2
import Directives.Proofs.Entrance
import Directives.Proofs.ImplicitClauses
/-!
The visits of a walk: the places where it arrives at a region. A walk that nothing stops makes one
record at each visit, and what it reports is what it reports at its visits, in their order. So a
record can be asked what was reported on its region, and what the frame of the region held.
-/

namespace Directives

/-- An arrival at a region that is passed by or entered: the tree of the region, and the walk before
and after it. -/
structure Visit where
  tree : RegionTree
  before : Walk
  after : Walk

namespace Visit

def region (v : Visit) : Region := v.tree.region

/-- What is reported on the region. -/
def emitted (v : Visit) : List Diagnostic :=
  v.after.scope.diagnostics.drop v.before.scope.diagnostics.length

theorem emitted_eq {v : Visit} {ds : List Diagnostic}
    (h : v.after.scope.diagnostics = v.before.scope.diagnostics ++ ds) : v.emitted = ds := by
  rw [emitted, h, List.drop_left]

/-- What the frame of a region that is entered holds for a variable. -/
def entryOf? (v : Visit) (var : DeclId) : Option Entry := v.after.scope.stack.currentEntryOf? var

/-- The record is the one that is made at the visit. Whether a cancellation names the region is found
out later. -/
def Records (v : Visit) (x : RegionReport) : Prop :=
  v.after.regions = v.before.regions ++ [{ x with cancelPresent := false }]

end Visit

namespace Walk

mutual

/-- The visits of a walk over a tree. -/
def treeVisits (o : Options) : RegionTree → Walk → List Visit
  | .node r sole children, w =>
    match w.arrive o r sole with
    | .passed w' => [⟨.node r sole children, w, w'⟩]
    | .stopped _ _ => []
    | .entered _ w' => ⟨.node r sole children, w, w'⟩ :: forestVisits o children w'

/-- The visits of a walk over trees that stand one after the other. -/
def forestVisits (o : Options) : List RegionTree → Walk → List Visit
  | [], _ => []
  | t :: rest, w =>
    treeVisits o t w ++
      match w.tree o t with
      | .ok w' => forestVisits o rest w'
      | .error _ => []

end

end Walk

/-- The visits of the walk over a program. -/
def Program.visits (o : Options) (p : Program) : List Visit :=
  (Walk.start p.decls).forestVisits o p.forest

namespace Walk

variable {o : Options}

mutual

theorem treeVisits_sublist (t : RegionTree) (w : Walk) :
    ((w.treeVisits o t).map Visit.region).Sublist t.regions := by
  match t with
  | .node r sole children =>
    rw [treeVisits, RegionTree.regions]
    cases w.arrive o r sole with
    | passed w' => exact (List.nil_sublist _).cons_cons r
    | stopped => exact List.nil_sublist _
    | entered id w' => exact (forestVisits_sublist children w').cons_cons r

theorem forestVisits_sublist (ts : List RegionTree) (w : Walk) :
    ((w.forestVisits o ts).map Visit.region).Sublist (regionsOfForest ts) := by
  match ts with
  | [] => exact List.nil_sublist _
  | t :: rest =>
    rw [forestVisits, regionsOfForest, List.map_append]
    refine (treeVisits_sublist t w).append ?_
    cases w.tree o t with
    | ok w' => exact forestVisits_sublist rest w'
    | error => exact List.nil_sublist _

end

end Walk

/-- The regions of a program are visited in source order, each at most once. -/
theorem Program.visits_sublist (o : Options) (p : Program) :
    ((p.visits o).map Visit.region).Sublist p.regions :=
  Walk.forestVisits_sublist p.forest _

theorem Program.map_region_visits {o : Options} {p : Program}
    (all : (p.visits o).length = p.regions.length) : (p.visits o).map Visit.region = p.regions :=
  (p.visits_sublist o).eq_of_length (by rw [List.length_map, all])

/-- The visit happens while the declarations grow from `decls` to `decls'`, and the record is the one
made at it. -/
structure Visit.Between (o : Options) (decls decls' : DeclTable) (v : Visit) (x : RegionReport) :
    Prop where
  hidden : v.before.scope.stack.hidden = 0
  arrives : v.before.arrive o v.region v.tree.sole = .passed v.after ∨
    ∃ id, v.before.arrive o v.region v.tree.sole = .entered id v.after
  since : decls.ExtendsTo v.before.decls
  upTo : v.after.decls.ExtendsTo decls'
  records : v.Records x

theorem Visit.Between.widen {o : Options} {t₁ t₂ t t' : DeclTable} {v : Visit} {x : RegionReport}
    (h : v.Between o t₁ t₂ x) (since : t.ExtendsTo t₁) (upTo : t₂.ExtendsTo t') : v.Between o t t' x :=
  { h with since := since.trans h.since, upTo := h.upTo.trans upTo }

theorem Visit.records_of_uncancelled {v : Visit} {x : RegionReport}
    (regions : v.after.regions = v.before.regions ++ [x]) (uncancelled : x.cancelPresent = false)
    (present : Bool) : v.Records { x with cancelPresent := present } := by
  cases x
  cases uncancelled
  exact regions

namespace Walk

variable {o : Options} {r : Region} {sole : Bool} {w w₁ w' : Walk}

/-- A region that is passed by is recorded, and at most its placement is reported. -/
theorem diagnostics_of_passed (h : w.arrive o r sole = .passed w₁) :
    w.scope.diagnostics <+: w₁.scope.diagnostics := by
  unfold arrive at h
  split at h
  · cases h
    exact List.prefix_refl _
  · dsimp only at h
    split at h
    · cases h
      exact List.prefix_append _ _
    · split at h
      · cases h
      · exact absurd h analyzeCurrent_ne_passed

theorem diagnostics_of_entered {id : Nat} (hidden : w.scope.stack.hidden = 0)
    (h : w.arrive o r sole = .entered id w₁) : w.scope.diagnostics <+: w₁.scope.diagnostics := by
  obtain ⟨_, _, _, _, _, entrance⟩ := exists_entrance hidden h
  obtain ⟨_, _, -, -, reported⟩ := entrance.reports
  exact ⟨_, reported.symm⟩

theorem eq_append_emitted {v : Visit} (h : v.before.scope.diagnostics <+: v.after.scope.diagnostics) :
    v.after.scope.diagnostics = v.before.scope.diagnostics ++ v.emitted :=
  (List.prefix_iff_eq_append.mp h).symm

/-- What a walk over trees records and reports: one record at each visit, and what is reported at the
visits. -/
structure Visits (o : Options) (w w' : Walk) (visits : List Visit) (xs : List RegionReport) : Prop where
  decls : w.decls.ExtendsTo w'.decls
  regions : w'.regions = w.regions ++ xs
  between : List.Forall₂ (Visit.Between o w.decls w'.decls) visits xs
  diagnostics : w'.scope.diagnostics = w.scope.diagnostics ++ visits.flatMap (·.emitted)

namespace Visits

variable {w₂ : Walk} {id : Nat} {children : List RegionTree} {visits later : List Visit}
  {xs ys : List RegionReport}

theorem nil (o : Options) (w : Walk) : Visits o w w [] [] where
  decls := .refl _
  regions := (List.append_nil _).symm
  between := .nil
  diagnostics := (List.append_nil _).symm

theorem append (h : Visits o w w₁ visits xs) (h' : Visits o w₁ w' later ys) :
    Visits o w w' (visits ++ later) (xs ++ ys) where
  decls := h.decls.trans h'.decls
  regions := by rw [h'.regions, h.regions, List.append_assoc]
  between := List.rel_append (h.between.imp fun _ _ between => between.widen (.refl _) h'.decls)
    (h'.between.imp fun _ _ between => between.widen h.decls (.refl _))
  diagnostics := by rw [h'.diagnostics, h.diagnostics, List.append_assoc, List.flatMap_append]

theorem pass (children : List RegionTree) (arrived : w.arrive o r sole = .passed w₁)
    (passes : Passes r w w₁) :
    ∃ x, Visits o w w₁ [⟨.node r sole children, w, w₁⟩] [x] := by
  obtain ⟨x, regions, records, -⟩ := passes.record
  have same : w₁.decls = w.decls := by
    cases passes
    rfl
  refine ⟨{ x with cancelPresent := false }, same ▸ .refl _, ?_, .cons ?_ .nil, ?_⟩
  · exact Visit.records_of_uncancelled (v := ⟨.node r sole children, w, w₁⟩) regions
      records.uncancelled false
  · exact {
      hidden := by cases passes; assumption
      arrives := .inl arrived
      since := .refl _
      upTo := .refl _
      records := Visit.records_of_uncancelled regions records.uncancelled false }
  · rw [List.flatMap_singleton]
    exact eq_append_emitted (v := ⟨.node r sole children, w, w₁⟩) (diagnostics_of_passed arrived)

theorem enter (children : List RegionTree) {f : Frame} {outer : List Frame}
    (arrived : w.arrive o r sole = .entered id w₁) (enters : Enters o r sole w id w₁)
    (inner : Visits o w₁ w₂ visits xs) :
    ∃ x, Visits o w (w₂.left id f outer) (⟨.node r sole children, w, w₁⟩ :: visits) (x :: xs) := by
  obtain ⟨x, regions, records, -⟩ := enters.record
  obtain ⟨_, current⟩ := enters.exists_current
  obtain ⟨_, _, _, _, _, entrance⟩ := exists_entrance current.hidden arrived
  have isLast : id = w.regions.length := by cases enters; rfl
  have within : w₂.regions = w.regions ++ x :: xs := by
    rw [inner.regions, regions, List.append_assoc, List.singleton_append]
  refine ⟨{ x with cancelPresent := f.flags.cancelPresent }, entrance.decls.trans inner.decls, ?_,
    .cons ?_ ?_, ?_⟩
  · rw [isLast]
    exact regions_left f outer within
  · exact {
      hidden := current.hidden
      arrives := .inr ⟨id, arrived⟩
      since := .refl _
      upTo := inner.decls
      records := Visit.records_of_uncancelled regions records.uncancelled _ }
  · exact inner.between.imp fun _ _ between => between.widen entrance.decls (.refl _)
  · have here := eq_append_emitted (v := ⟨.node r sole children, w, w₁⟩)
      (diagnostics_of_entered current.hidden arrived)
    rw [List.flatMap_cons, ← List.append_assoc, ← here]
    exact inner.diagnostics

end Visits

mutual

theorem exists_visits_tree (t : RegionTree) {w w' : Walk} (hidden : w.scope.stack.hidden = 0)
    (h : w.tree o t = .ok w') : ∃ xs, Visits o w w' (w.treeVisits o t) xs := by
  match t with
  | .node r sole children =>
    have arrives := arrives_arrive o r sole hidden
    rw [tree] at h
    rw [treeVisits]
    cases arrived : w.arrive o r sole with
    | stopped =>
      rw [arrived] at h
      cases h
    | passed w₁ =>
      rw [arrived] at h arrives
      cases h
      cases arrives with
      | passed passes =>
        obtain ⟨x, visits⟩ := Visits.pass children arrived passes
        exact ⟨[x], visits⟩
    | entered id w₁ =>
      rw [arrived] at h arrives
      dsimp only at h ⊢
      cases arrives with
      | entered enters =>
        obtain ⟨_, current⟩ := enters.exists_current
        cases walked : w₁.forest o children with
        | error stopped =>
          rw [walked] at h
          cases h
        | ok w₂ =>
          rw [walked] at h
          dsimp only at h
          obtain ⟨xs, inner⟩ := exists_visits_forest children current.inside.hidden walked
          have back := (Runs.of_forest children current.inside.hidden walked).backAt
            current.inside.hidden
          obtain ⟨f, outer, again⟩ := current.again back
          rw [leave_of_inside again] at h
          cases h
          obtain ⟨x, visits⟩ := Visits.enter children arrived enters inner
          exact ⟨x :: xs, visits⟩

theorem exists_visits_forest (ts : List RegionTree) {w w' : Walk}
    (hidden : w.scope.stack.hidden = 0) (h : w.forest o ts = .ok w') :
    ∃ xs, Visits o w w' (w.forestVisits o ts) xs := by
  match ts with
  | [] =>
    cases h
    exact ⟨[], .nil o w⟩
  | t :: rest =>
    rw [forest] at h
    rw [forestVisits]
    cases first : w.tree o t with
    | error stopped =>
      rw [first] at h
      cases h
    | ok w₁ =>
      rw [first] at h
      dsimp only at h ⊢
      have back := (Runs.of_tree t hidden first .done).backAt hidden
      obtain ⟨xs, here⟩ := exists_visits_tree t hidden first
      obtain ⟨ys, later⟩ := exists_visits_forest rest back.hidden h
      exact ⟨xs ++ ys, here.append later⟩

end

end Walk

variable {o : Options} {p : Program} {report : Report}

theorem visits_of_analyze (ok : (analyze o p).1 = .ok report) :
    ∃ w, report = { regions := w.regions, decls := w.decls } ∧
      (analyze o p).2 = w.scope.diagnostics ∧
      ∃ xs, Walk.Visits o (.start p.decls) w (p.visits o) xs := by
  obtain ⟨w, run, made, reported⟩ := walk_of_analyze ok
  exact ⟨w, made, reported, Walk.exists_visits_forest p.forest rfl run⟩

/-- The records of a report are made one at a visit. -/
theorem forall₂_visits (ok : (analyze o p).1 = .ok report) :
    List.Forall₂ (Visit.Between o p.decls report.decls) (p.visits o) report.regions := by
  obtain ⟨w, rfl, -, xs, visits⟩ := visits_of_analyze ok
  have made : w.regions = xs := visits.regions
  rw [made]
  exact visits.between

/-- What is reported on a program is what is reported on its regions. -/
theorem diagnostics_eq_emitted (ok : (analyze o p).1 = .ok report) :
    (analyze o p).2 = (p.visits o).flatMap (·.emitted) := by
  obtain ⟨w, -, reported, xs, visits⟩ := visits_of_analyze ok
  rw [reported, visits.diagnostics]
  rfl

/-! ## Visits at which a region is entered -/

theorem Walk.Passes.exists_blank {r : Region} {w w₁ : Walk} (h : Passes r w w₁) :
    ∃ verdict status, w₁.regions = w.regions ++ [w.blank r verdict status] := by
  cases h
  exact ⟨_, _, rfl⟩

/-- The record lists the variables by their resolutions, those of one kind in their order. -/
structure RegionReport.Partitions (x : RegionReport) (vars : List DeclId)
    (resolution : DeclId → Resolution) : Prop where
  attributes : x.attributes = vars.filterMap fun v => (resolution v).attr?.map fun a => ⟨v, a⟩
  unresolved : x.unresolved = vars.filter fun v => resolution v = .unresolved
  rejected : x.rejected = vars.filter fun v => resolution v = .rejected

/-- The record sorts the variables by their resolutions. -/
structure RegionReport.Sorts (x : RegionReport) (vars : List DeclId)
    (resolution : DeclId → Resolution) : Prop where
  attributes : ∀ a, a ∈ x.attributes ↔ a.var ∈ vars ∧ resolution a.var = .resolved a.attr
  unresolved : ∀ v, v ∈ x.unresolved ↔ v ∈ vars ∧ resolution v = .unresolved
  rejected : ∀ v, v ∈ x.rejected ↔ v ∈ vars ∧ resolution v = .rejected

section
variable {x y : RegionReport} {vars : List DeclId} {resolution : DeclId → Resolution}

theorem RegionReport.partitions_recordAll (noAttributes : x.attributes = [])
    (noUnresolved : x.unresolved = []) (noRejected : x.rejected = []) :
    (x.recordAll vars resolution).Partitions vars resolution := by
  rw [recordAll_eq, noAttributes, noUnresolved, noRejected]
  exact ⟨rfl, rfl, rfl⟩

namespace RegionReport.Partitions

theorem congr (h : x.Partitions vars resolution) (attributes : y.attributes = x.attributes)
    (unresolved : y.unresolved = x.unresolved) (rejected : y.rejected = x.rejected) :
    y.Partitions vars resolution where
  attributes := attributes.trans h.attributes
  unresolved := unresolved.trans h.unresolved
  rejected := rejected.trans h.rejected

theorem sorts (h : x.Partitions vars resolution) : x.Sorts vars resolution where
  attributes a := by rw [h.attributes, mem_filterMap_attr]
  unresolved v := by simp [h.unresolved]
  rejected v := by simp [h.rejected]

end RegionReport.Partitions

end

namespace Visit.Between

variable {decls decls' : DeclTable} {v : Visit} {x : RegionReport}

/-- A region that is passed by has no attributes and no nest. -/
theorem nothing_of_skipped (h : v.Between o decls decls' x) (skipped : x.status ≠ .analyzed) :
    x.attributes = [] ∧ x.nest = none := by
  have arrives := Walk.arrives_arrive o v.region v.tree.sole h.hidden
  obtain passed | ⟨id, entered⟩ := h.arrives
  · rw [passed] at arrives
    cases arrives with
    | passed passes =>
      obtain ⟨verdict, status, regions⟩ := passes.exists_blank
      have same := List.head_eq_of_cons_eq (List.append_cancel_left (h.records.symm.trans regions))
      exact ⟨congrArg RegionReport.attributes same, congrArg RegionReport.nest same⟩
  · rw [entered] at arrives
    cases arrives with
    | entered enters =>
      obtain ⟨x', regions, -, analyzed⟩ := enters.record
      cases List.append_cancel_left (regions.symm.trans h.records)
      exact absurd analyzed skipped

/-- A region that is analysed was entered. -/
theorem exists_entered (h : v.Between o decls decls' x) (analyzed : x.status = .analyzed) :
    ∃ id, v.before.arrive o v.region v.tree.sole = .entered id v.after := by
  obtain passed | entered := h.arrives
  · have arrives := Walk.arrives_arrive o v.region v.tree.sole h.hidden
    rw [passed] at arrives
    cases arrives with
    | passed passes =>
      obtain ⟨x', regions, -, skipped⟩ := passes.record
      cases List.append_cancel_left (regions.symm.trans h.records)
      exact absurd analyzed skipped
  · exact entered

/-- The record of a region that is analysed lists its variables by the resolutions that they have while
its frame is the innermost one. -/
theorem exists_listing_entrance (h : v.Between o decls decls' x) (analyzed : x.status = .analyzed) :
    ∃ w₂ f f' outer, Walk.Entrance o v.region v.before w₂ v.after x.nest f f' outer ∧
      x.depth = outer.length ∧
      x.Partitions (regionVariables w₂.decls v.region x.nest) (resolve o w₂.decls (f' :: outer)) := by
  obtain ⟨id, entered⟩ := h.exists_entered analyzed
  obtain ⟨w₂, nest, f, f', outer, entrance⟩ := Walk.exists_entrance h.hidden entered
  have visible := entrance.inferred.visible
  rw [entrance.concluded] at visible
  have made : v.after.regions = v.before.regions ++
      [{ (v.before.blank v.region .legal .analyzed).recordAll
          (regionVariables w₂.decls v.region nest) (resolve o w₂.decls (f' :: outer)) with
        implicit := (inferClauses o w₂.decls v.region w₂.scope).2, nest }] := by
    rw [← visible, entrance.concluded, ← entrance.regions]
    rfl
  have same := List.head_eq_of_cons_eq (List.append_cancel_left (h.records.symm.trans made))
  have nests : x.nest = nest := congrArg RegionReport.nest same
  have attributes := congrArg RegionReport.attributes same
  have unresolved := congrArg RegionReport.unresolved same
  have rejected := congrArg RegionReport.rejected same
  have depths := congrArg RegionReport.depth same
  subst nests
  refine ⟨w₂, f, f', outer, entrance, ?_, ?_⟩
  · rw [RegionReport.recordAll_eq] at depths
    exact depths.trans
      ((Walk.records_blank h.hidden v.region .legal .analyzed).depth.trans entrance.depth.symm)
  · exact (RegionReport.partitions_recordAll rfl rfl rfl).congr attributes unresolved rejected

theorem exists_sorting_entrance (h : v.Between o decls decls' x) (analyzed : x.status = .analyzed) :
    ∃ w₂ f f' outer, Walk.Entrance o v.region v.before w₂ v.after x.nest f f' outer ∧
      x.depth = outer.length ∧
      x.Sorts (regionVariables w₂.decls v.region x.nest) (resolve o w₂.decls (f' :: outer)) := by
  obtain ⟨w₂, f, f', outer, entrance, depth, partitions⟩ := h.exists_listing_entrance analyzed
  exact ⟨w₂, f, f', outer, entrance, depth, partitions.sorts⟩

/-- A region that is analysed was entered. Its record has the attributes that resolution gives to its
variables while its frame is the innermost one. -/
theorem exists_entrance (h : v.Between o decls decls' x) (analyzed : x.status = .analyzed) :
    ∃ w₂ f f' outer, Walk.Entrance o v.region v.before w₂ v.after x.nest f f' outer ∧
      x.depth = outer.length ∧
      ∀ a, a ∈ x.attributes ↔ a.var ∈ regionVariables w₂.decls v.region x.nest ∧
        resolve o w₂.decls (f' :: outer) a.var = .resolved a.attr := by
  obtain ⟨w₂, f, f', outer, entrance, depth, sorts⟩ := h.exists_sorting_entrance analyzed
  exact ⟨w₂, f, f', outer, entrance, depth, sorts.attributes⟩

end Visit.Between

end Directives
