import Directives.Proofs.Completion
/-!
The forest of a program and the records of its regions, side by side. Each record stands in a row
with the tree of the region that it describes; the rows stand in the order of the forest, and a row
knows the regions around it, up to the outermost one.
-/

namespace Directives

/-- The record describes a region: it has the number `id`, and `around` are the numbers of the
recorded regions around it, innermost first. -/
structure RegionReport.Describes (x : RegionReport) (r : Region) (id : Nat) (around : List Nat) :
    Prop where
  id : x.id = id
  kind : x.kind = r.kind
  name : x.name = r.name
  location : x.location = r.location
  parent : x.parent = around.head?
  depth : x.depth = around.length

/-- A record, and the tree of the region that it is about. -/
structure Row where
  tree : RegionTree
  record : RegionReport

/-- What a frame and its region have in common, as far as rules of nesting look at regions around
a place. -/
def Frame.label (f : Frame) : DirectiveKind × Option String := (f.kind, f.name)

def RegionTree.label (t : RegionTree) : DirectiveKind × Option String :=
  (t.region.kind, t.region.name)

/-- The rules of nesting admit the region inside those in `around`, innermost first: with some frames
of these regions its placement is legal. -/
def RegionTree.AdmittedIn (t : RegionTree) (around : List RegionTree) : Prop :=
  ∃ frames : List Frame, frames.map (·.label) = around.map (·.label) ∧
    (Placement.ofRegion t.region t.sole frames).verdict = .legal

/-- The rows of trees that stand one after the other inside the regions `around`, which have numbers.
The first row has the number `start`. The regions inside a region have rows after its own where it
was analysed, and otherwise none; and it was analysed only where it is admitted. -/
inductive ForestOrder :
    (start : Nat) → (around : List (Nat × RegionTree)) → List RegionTree → List Row → Prop where
  | nil {start around} : ForestOrder start around [] []
  | analyzed {start around t rest x inner later}
      (describes : x.Describes t.region start (around.map (·.1))) (status : x.status = .analyzed)
      (admitted : t.AdmittedIn (around.map (·.2)))
      (inside : ForestOrder (start + 1) ((start, t) :: around) t.children inner)
      (after : ForestOrder (start + 1 + inner.length) around rest later) :
      ForestOrder start around (t :: rest) (⟨t, x⟩ :: (inner ++ later))
  | skipped {start around t rest x later}
      (describes : x.Describes t.region start (around.map (·.1))) (status : x.status ≠ .analyzed)
      (after : ForestOrder (start + 1) around rest later) :
      ForestOrder start around (t :: rest) (⟨t, x⟩ :: later)

theorem ForestOrder.of_append {start : Nat} {around : List (Nat × RegionTree)} (ts : List RegionTree)
    {us : List RegionTree} {rows : List Row} (h : ForestOrder start around (ts ++ us) rows) :
    ∃ inner later, rows = inner ++ later ∧ ForestOrder start around ts inner ∧
      ForestOrder (start + inner.length) around us later := by
  induction ts generalizing start rows with
  | nil => exact ⟨[], rows, rfl, .nil, h⟩
  | cons t rest ih =>
    cases h with
    | analyzed describes status admitted inside after =>
      rename_i inner _
      obtain ⟨first, later, rfl, hfirst, hlater⟩ := ih after
      refine ⟨_ :: (inner ++ first), later, ?_, .analyzed describes status admitted inside hfirst, ?_⟩
      · rw [List.cons_append, List.append_assoc]
      · rwa [List.length_cons, List.length_append, Nat.add_comm _ 1, ← Nat.add_assoc,
          ← Nat.add_assoc]
    | skipped describes status after =>
      obtain ⟨first, later, rfl, hfirst, hlater⟩ := ih after
      refine ⟨_ :: first, later, rfl, .skipped describes status hfirst, ?_⟩
      rwa [List.length_cons, Nat.add_comm _ 1, ← Nat.add_assoc]

/-! ## The rows of a walk -/

theorem FramesKept.labels {frames frames' : List Frame} (h : FramesKept frames frames') :
    frames'.map (·.label) = frames.map (·.label) := by
  have noted {f f' : Frame} (own : f.Noted f') : f'.label = f.label :=
    Prod.ext own.kind own.name
  cases h with
  | none => rfl
  | innermost own => rw [List.map_cons, List.map_cons, noted own]
  | «section» own _ around =>
    rw [List.map_cons, List.map_cons, List.map_cons, List.map_cons, noted own, noted around]

namespace Walk

variable {o : Options} {w w' : Walk} {around : List (Nat × RegionTree)}

/-- The walk is in the place inside the regions `around`. -/
structure IsAt (w : Walk) (around : List (Nat × RegionTree)) : Prop where
  parents : w.parents = around.map (·.1)
  frames : w.scope.stack.frames.map (·.label) = around.map (·.2.label)

theorem IsAt.describes {r : Region} {x : RegionReport} (h : w.IsAt around)
    (records : w.Records r x) : x.Describes r w.regions.length (around.map (·.1)) :=
  { records with
    parent := h.parents ▸ records.parent
    depth := by
      have length := congrArg List.length h.frames
      rw [List.length_map, List.length_map] at length
      rw [records.depth, length, List.length_map] }

theorem BackAt.isAt (back : w.BackAt w') (h : w.IsAt around) : w'.IsAt around where
  parents := back.parents.trans h.parents
  frames := back.frames.labels.trans h.frames

theorem Current.isAt {r : Region} {id : Nat} {f : Frame} {t : RegionTree}
    (current : Current r w id w' f) (is : t.region = r) (h : w.IsAt around) :
    w'.IsAt ((id, t) :: around) where
  parents := by rw [current.parents, h.parents, List.map_cons]
  frames := by
    have outside := (FrameStack.framesKept_noting current.hidden r).labels
    have own : f.label = t.label := by
      rw [RegionTree.label, is]
      exact Prod.ext current.continues.kind current.continues.name
    rw [current.inside.frames, List.map_cons, List.map_cons, outside, h.frames, own]

/-- A walk adds the records of the regions it goes through, and leaves those before as they are. -/
theorem Runs.forestOrder {ts : List RegionTree} (run : Runs o ts w w') (h : w.IsAt around) :
    ∃ rows, w'.regions = w.regions ++ rows.map (·.record) ∧
      ForestOrder w.regions.length around ts rows := by
  induction run generalizing around with
  | done => exact ⟨[], (List.append_nil _).symm, .nil⟩
  | @passed r sole inside _ _ _ w passes _ ih =>
    obtain ⟨x, regions, records, skipped⟩ := passes.record
    obtain ⟨later, regions', order⟩ := ih (passes.backAt.isAt h)
    rw [regions, List.length_append] at order
    refine ⟨⟨.node r sole inside, x⟩ :: later, ?_, .skipped (h.describes records) skipped order⟩
    rw [regions', regions, List.append_assoc, List.singleton_append, List.map_cons]
  | @entered r sole inside _ id f outer w₁ _ w w₂ enters inner current _ ihInner ihAfter =>
    obtain ⟨x, regions, records, analyzed⟩ := enters.record
    obtain ⟨_, opened⟩ := enters.exists_current
    have back := opened.backAt (inner.backAt opened.inside.hidden) current
    have isLast : id = w.regions.length := by cases enters; rfl
    have admitted : (RegionTree.node r sole inside).AdmittedIn (around.map (·.2)) := by
      cases enters with
      | intro _ admitted => exact ⟨_, by rw [h.frames, List.map_map]; rfl, admitted⟩
    subst isLast
    obtain ⟨within, regions₂, orderInside⟩ :=
      ihInner (opened.isAt (t := .node r sole inside) rfl h)
    rw [regions, List.length_append] at orderInside
    obtain ⟨later, regions', orderAfter⟩ := ihAfter (back.isAt h)
    have within₂ : w₂.regions = w.regions ++ x :: within.map (·.record) := by
      rw [regions₂, regions, List.append_assoc, List.singleton_append]
    have left := regions_left f outer within₂
    have length : (w₂.left w.regions.length f outer).regions.length =
        w.regions.length + 1 + within.length := by
      rw [left, List.length_append, List.length_cons, List.length_map]
      omega
    rw [length] at orderAfter
    refine ⟨⟨.node r sole inside, { x with cancelPresent := f.flags.cancelPresent }⟩ ::
      (within ++ later), ?_, .analyzed { h.describes records with } analyzed admitted orderInside
        orderAfter⟩
    rw [regions', left, List.append_assoc, List.map_cons, List.map_append, List.cons_append]

end Walk

/-- The records of a report stand in rows with the trees of the regions of its program. -/
theorem exists_rows_of_analyze {o : Options} {p : Program} {report : Report}
    (ok : (analyze o p).1 = .ok report) :
    ∃ rows, report.regions = rows.map (·.record) ∧ ForestOrder 0 [] p.forest rows := by
  obtain ⟨w, run, rfl⟩ := runs_of_analyze ok
  have outside : (Walk.start p.decls).IsAt [] := ⟨rfl, rfl⟩
  obtain ⟨rows, regions, order⟩ := run.forestOrder outside
  exact ⟨rows, regions, order⟩

/-! ## The regions around a row -/

/-- The trees `siblings` stand inside the regions `around`, innermost first, and these have rows; the
outermost regions are those of `forest`. -/
inductive Encloses (rows : List Row) (forest : List RegionTree) :
    (around : List (Nat × RegionTree)) → (siblings : List RegionTree) → Prop where
  | outermost : Encloses rows forest [] forest
  | inside {id t x around siblings} (is : rows[id]? = some ⟨t, x⟩) (mem : t ∈ siblings)
      (describes : x.Describes t.region id (around.map (·.1)))
      (outer : Encloses rows forest around siblings) :
      Encloses rows forest ((id, t) :: around) t.children

/-- Where a row stands: it has the number `i`, the regions `around` are around it, and its region is
among those directly inside the innermost of them. -/
structure Row.StandsIn (row : Row) (rows : List Row) (forest : List RegionTree) (i : Nat)
    (around : List (Nat × RegionTree)) (siblings : List RegionTree) : Prop where
  describes : row.record.Describes row.tree.region i (around.map (·.1))
  encloses : Encloses rows forest around siblings
  mem : row.tree ∈ siblings
  before : ∀ k ∈ around.map (·.1), k < i
  admitted : row.record.status = .analyzed → row.tree.AdmittedIn (around.map (·.2))

section
variable {rows inner later : List Row} {row : Row} {start : Nat}

theorem getElem?_of_cons_prefix_drop (h : row :: inner <+: rows.drop start) :
    rows[start]? = some row ∧ inner <+: rows.drop (start + 1) := by
  obtain ⟨rest, h⟩ := h
  constructor
  · rw [← List.head?_drop, ← h]
    rfl
  · refine ⟨rest, ?_⟩
    rw [← List.tail_drop, ← h]
    rfl

theorem prefix_drop_of_append (h : inner ++ later <+: rows.drop start) :
    inner <+: rows.drop start ∧ later <+: rows.drop (start + inner.length) := by
  obtain ⟨rest, h⟩ := h
  constructor
  · exact ⟨later ++ rest, by rw [← List.append_assoc, h]⟩
  · exact ⟨rest, by rw [← List.drop_drop, ← h, List.append_assoc, List.drop_left]⟩

end

/-- Rows in the order of trees, that stand in a list from the number `start` on, stand where the trees
do. -/
theorem ForestOrder.standsIn {start : Nat} {around : List (Nat × RegionTree)}
    {ts forest siblings : List RegionTree} {part rows : List Row}
    (h : ForestOrder start around ts part) (sits : part <+: rows.drop start)
    (encloses : Encloses rows forest around siblings)
    (among : ∀ t ∈ ts, t ∈ siblings) (before : ∀ k ∈ around.map (·.1), k < start) :
    ∀ i row, start ≤ i → i < start + part.length → rows[i]? = some row →
      ∃ around siblings, row.StandsIn rows forest i around siblings := by
  induction h generalizing siblings with
  | nil =>
    intro i row low high
    exact absurd high (Nat.not_lt.mpr low)
  | @analyzed start around t rest x inner later describes _ admitted _ _ ihInside ihAfter =>
    obtain ⟨here, sits⟩ := getElem?_of_cons_prefix_drop sits
    obtain ⟨sitsInside, sitsAfter⟩ := prefix_drop_of_append sits
    rw [List.forall_mem_cons] at among
    intro i row low high is
    rw [List.length_cons, List.length_append] at high
    obtain rfl | low := Nat.eq_or_lt_of_le low
    · cases here.symm.trans is
      exact ⟨around, siblings, describes, encloses, among.1, before, fun _ => admitted⟩
    · by_cases within : i < start + 1 + inner.length
      · refine ihInside sitsInside (.inside here among.1 describes encloses) (fun _ => id) ?_ i row
          low within is
        rw [List.map_cons, List.forall_mem_cons]
        exact ⟨Nat.lt_succ_self _, fun k hk => Nat.lt_succ_of_lt (before k hk)⟩
      · refine ihAfter sitsAfter encloses among.2 (fun k hk => ?_) i row (Nat.le_of_not_lt within)
          (by omega) is
        have := before k hk
        omega
  | @skipped start around t rest x later describes status _ ihAfter =>
    obtain ⟨here, sits⟩ := getElem?_of_cons_prefix_drop sits
    rw [List.forall_mem_cons] at among
    intro i row low high is
    rw [List.length_cons] at high
    obtain rfl | low := Nat.eq_or_lt_of_le low
    · cases here.symm.trans is
      exact ⟨around, siblings, describes, encloses, among.1, before, fun h => absurd h status⟩
    · exact ihAfter sits encloses among.2 (fun k hk => Nat.lt_succ_of_lt (before k hk)) i row low
        (by omega) is

/-- Every row of a forest stands where its tree does. -/
theorem ForestOrder.exists_standsIn {forest : List RegionTree} {rows : List Row}
    (h : ForestOrder 0 [] forest rows) {i : Nat} {row : Row} (is : rows[i]? = some row) :
    ∃ around siblings, row.StandsIn rows forest i around siblings := by
  obtain ⟨inside, -⟩ := List.getElem?_eq_some_iff.mp is
  refine h.standsIn (List.prefix_refl _) .outermost (fun _ => id) ?_ i row (Nat.zero_le i)
    (Nat.lt_of_lt_of_eq inside (Nat.zero_add _).symm) is
  simp

end Directives
