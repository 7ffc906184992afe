import Directives.Proofs.RecordedForest
/-!
A report mirrors its program: the records stand in source order, and what they say of each other is
what the regions are to each other. Nothing is left out but the regions inside those that were put
off or stand where they may not.
-/

namespace Directives

/-- The records of the regions in parts that stand one after the other inside the regions `around`,
in source order; the first of them has the number `start`. The regions inside a region are recorded
after it where it was analysed, and otherwise not at all. -/
inductive ReportOrder :
    (start : Nat) → (around : List Nat) → List Part → List RegionReport → Prop where
  | nil {start around} : ReportOrder start around [] []
  | analyzed {start around p r rest x inner later} (is : p.region? = some r)
      (describes : x.Describes r start around) (status : x.status = .analyzed)
      (inside : ReportOrder (start + 1) (start :: around) p.parts inner)
      (after : ReportOrder (start + 1 + inner.length) around rest later) :
      ReportOrder start around (p :: rest) (x :: (inner ++ later))
  | skipped {start around p r rest x later} (is : p.region? = some r)
      (describes : x.Describes r start around) (status : x.status ≠ .analyzed)
      (after : ReportOrder (start + 1) around rest later) :
      ReportOrder start around (p :: rest) (x :: later)
  | other {start around p rest inner later} (is : p.region? = none)
      (inside : ReportOrder start around p.parts inner)
      (after : ReportOrder (start + inner.length) around rest later) :
      ReportOrder start around (p :: rest) (inner ++ later)

/-- What stands in the order of a forest stands in the order of the parts whose forest it is. -/
theorem ForestOf.reportOrder {ps : List Part} {ts : List RegionTree} (h : ForestOf ps ts)
    {start : Nat} {around : List (Nat × RegionTree)} {rows : List Row}
    (order : ForestOrder start around ts rows) :
    ReportOrder start (around.map (·.1)) ps (rows.map (·.record)) := by
  induction h generalizing start around rows with
  | nil =>
    cases order
    exact .nil
  | region is _ _ ihInside ihAfter =>
    cases order with
    | analyzed describes status _ inside after =>
      rw [List.map_cons, List.map_append]
      refine .analyzed is describes status (ihInside inside) ?_
      rw [List.length_map]
      exact ihAfter after
    | skipped describes status after =>
      rw [List.map_cons]
      exact .skipped is describes status (ihAfter after)
  | @other _ _ ts _ is _ _ ihInside ihAfter =>
    obtain ⟨inner, later, rfl, hinner, hlater⟩ := ForestOrder.of_append ts order
    rw [List.map_append]
    refine .other is (ihInside hinner) ?_
    rw [List.length_map]
    exact ihAfter hlater

/-- The numbers of the regions around a record, innermost first, along the links to the parents. -/
inductive Ancestors (l : List RegionReport) : Option Nat → List Nat → Prop where
  | none : Ancestors l none []
  | some {id x around} (parent : l[id]? = some x) (further : Ancestors l x.parent around) :
      Ancestors l (some id) (id :: around)

/-- The record says where it stands among the others. -/
structure RegionReport.LinkedIn (x : RegionReport) (l : List RegionReport) (i : Nat) : Prop where
  id : x.id = i
  parent_lt : ∀ parent, x.parent = some parent → parent < i
  depth : ∃ around, Ancestors l x.parent around ∧ x.depth = around.length

/-- The regions around a place are what the links to the parents lead to. -/
theorem Encloses.ancestors {rows : List Row} {forest siblings : List RegionTree}
    {around : List (Nat × RegionTree)} (h : Encloses rows forest around siblings) :
    Ancestors (rows.map (·.record)) (around.map (·.1)).head? (around.map (·.1)) := by
  induction h with
  | outermost => exact .none
  | inside is _ describes _ ih =>
    have record := congrArg (Option.map Row.record) is
    rw [← List.getElem?_map] at record
    exact .some record (describes.parent ▸ ih)

theorem Row.StandsIn.linkedIn {row : Row} {rows : List Row} {forest siblings : List RegionTree}
    {i : Nat} {around : List (Nat × RegionTree)} (h : row.StandsIn rows forest i around siblings) :
    row.record.LinkedIn (rows.map (·.record)) i where
  id := h.describes.id
  parent_lt parent is := h.before parent (List.mem_of_head? (h.describes.parent.symm.trans is))
  depth := ⟨_, h.describes.parent ▸ h.encloses.ancestors, h.describes.depth⟩

/-- The records of a report are those of the regions of its program, in source order and without
those inside a region that was not analysed; and they are linked as the regions are nested. -/
theorem report_mirrors_source {o : Options} {p : Program} {report : Report}
    (ok : (analyze o p).1 = .ok report) :
    ReportOrder 0 [] (p.body.map .stmt) report.regions ∧
      ∀ (i : Nat) (x : RegionReport), report.regions[i]? = some x → x.LinkedIn report.regions i := by
  obtain ⟨rows, regions, order⟩ := exists_rows_of_analyze ok
  rw [regions]
  refine ⟨p.forestOf_forest.reportOrder order, fun i x is => ?_⟩
  rw [List.getElem?_map, Option.map_eq_some_iff] at is
  obtain ⟨row, is, rfl⟩ := is
  obtain ⟨_, _, stands⟩ := order.exists_standsIn is
  exact stands.linkedIn

/-- Two regions side by side in `parallel`; the second is put off, with the region inside it. -/
theorem report_mirrors_source_deferred :
    let p := Draft.program do
      let x ← Draft.functionLocal "x" .int32
      let critical ← Draft.region .critical id
      let barrier ← Draft.region .barrier id
      let inner ← Draft.exprStmt (← Draft.closure critical)
      let deferred ← Draft.region .single fun r => { r with body := some barrier, dependent := true }
      let block ← Draft.block [← Draft.useVars [x], inner, deferred]
      return [← Draft.region .parallel fun r => { r with body := some block }, .null {}]
    ∃ report, (analyze {} p).1 = .ok report ∧
      report.regions.map (fun x => (x.kind, x.parent, x.depth)) =
        [(.parallel, none, 0), (.critical, some 0, 1), (.single, some 0, 1)] ∧
        ReportOrder 0 [] (p.body.map .stmt) report.regions ∧
          ∃ x, report.regions[1]? = some x ∧ x.LinkedIn report.regions 1 := by
  intro p
  obtain ⟨report, ok, rows⟩ :
      ∃ report, (analyze {} p).1 = .ok report ∧
        report.regions.map (fun x => (x.kind, x.parent, x.depth)) =
          [(.parallel, none, 0), (.critical, some 0, 1), (.single, some 0, 1)] :=
    exists_report_of_decide _ (by decide +kernel)
  obtain ⟨order, linked⟩ := report_mirrors_source ok
  have second : 1 < report.regions.length := by
    have length := congrArg List.length rows
    rw [List.length_map] at length
    rw [length]
    decide
  exact ⟨report, ok, rows, order, _, List.getElem?_eq_getElem second, linked 1 _
    (List.getElem?_eq_getElem second)⟩

end Directives
