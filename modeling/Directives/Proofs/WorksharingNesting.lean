import Directives.Proofs.NestingSafety
/-!
Regions that address a whole team, inside regions that share its work. The rules of nesting keep them
apart where one is the parent of the other. They do not look through a `section`, which belongs to no
family of directives: what stands in a section is in its `sections` construct all the same.
-/

namespace Directives

/-- Addresses a team as a whole: is met by all of its threads, is run by a distinguished one of them,
or shares work among them. -/
def DirectiveKind.addressesTeam (k : DirectiveKind) : Bool :=
  k = .barrier || k.isMasterLike || k.isPlainWorksharing

namespace Placement

variable {p : Placement}

/-- A row about the child of a legal placement does not apply to it. -/
theorem not_applies_of_legal (legal : p.verdict = .legal) (i : Nat)
    (inside : i < nestingRules.length) (early : i < 12)
    (child : nestingRules[i].child p.child = true) : ¬nestingRules[i].applies p = true := by
  intro applies
  have unfit := not_fits_of_legal legal i inside (.inl early)
  rw [NestingRule.fits, child, applies] at unfit
  cases unfit

theorem not_inWorksharing_of_legal (legal : p.verdict = .legal)
    (team : p.child.addressesTeam = true) : ¬p.parentIs (·.isWorksharing) = true := by
  intro inside
  obtain ⟨f, parent, worksharing⟩ := (Option.any_eq_true _ _).mp inside
  simp only [DirectiveKind.addressesTeam, Bool.or_eq_true] at team
  -- One row for each of the three families; each of them has worksharing among its parents.
  rcases team with (barrier | masterLike) | plain
  · apply not_applies_of_legal legal 4 (by decide) (by decide) barrier
    simp [nestingRules, parentIs, parent, worksharing]
  · apply not_applies_of_legal legal 5 (by decide) (by decide) masterLike
    simp [nestingRules, parentIs, parent, worksharing]
  · apply not_applies_of_legal legal 6 (by decide) (by decide) plain
    simp [nestingRules, parentIs, parent, worksharing]

end Placement

/-! ## Parents -/

/-- The regions that are parents of others were analysed. -/
theorem ForestOrder.parents_analyzed {start : Nat} {around : List (Nat × RegionTree)}
    {ts : List RegionTree} {part rows : List Row} (h : ForestOrder start around ts part)
    (sits : part <+: rows.drop start)
    (entered : ∀ id ∈ around.map (·.1), ∀ outer, rows[id]? = some outer →
      outer.record.status = .analyzed) :
    ∀ row ∈ part, ∀ outer, IsParent rows outer row → outer.record.status = .analyzed := by
  induction h with
  | nil =>
    intro row hrow
    cases hrow
  | analyzed describes status _ _ _ ihInside ihAfter =>
    obtain ⟨here, sits⟩ := getElem?_of_cons_prefix_drop sits
    obtain ⟨sitsInside, sitsAfter⟩ := prefix_drop_of_append sits
    intro row hrow
    rcases List.mem_cons.mp hrow with rfl | hrow
    · rintro outer ⟨id, parent, is⟩
      rw [describes.parent] at parent
      exact entered id (List.mem_of_head? parent) outer is
    · rcases List.mem_append.mp hrow with hrow | hrow
      · refine ihInside sitsInside ?_ row hrow
        rw [List.map_cons, List.forall_mem_cons]
        refine ⟨fun outer is => ?_, entered⟩
        cases here.symm.trans is
        exact status
      · exact ihAfter sitsAfter entered row hrow
  | skipped describes _ _ ihAfter =>
    obtain ⟨-, sits⟩ := getElem?_of_cons_prefix_drop sits
    intro row hrow
    rcases List.mem_cons.mp hrow with rfl | hrow
    · rintro outer ⟨id, parent, is⟩
      rw [describes.parent] at parent
      exact entered id (List.mem_of_head? parent) outer is
    · exact ihAfter sits entered row hrow

/-- The record `y` is that of the closest construct around the region of a record. A section is a part
of its construct, and no construct of its own. -/
inductive ClosestConstruct (l : List RegionReport) (y : RegionReport) : RegionReport → Prop where
  | parent {x id} (parent : x.parent = some id) (is : l[id]? = some y)
      (kind : y.kind ≠ .sectionBlock) : ClosestConstruct l y x
  | section {x z id} (parent : x.parent = some id) (is : l[id]? = some z)
      (kind : z.kind = .sectionBlock) (around : ClosestConstruct l y z) : ClosestConstruct l y x

section
variable {rows : List Row} {row outer : Row}

theorem isParent_iff {l : List RegionReport} (records : l = rows.map (·.record)) {y : RegionReport} :
    (∃ id, row.record.parent = some id ∧ l[id]? = some y) ↔
      ∃ outer, IsParent rows outer row ∧ outer.record = y := by
  subst records
  simp only [IsParent, List.getElem?_map, Option.map_eq_some_iff]
  constructor
  · rintro ⟨id, parent, outer, is, rfl⟩
    exact ⟨outer, ⟨id, parent, is⟩, rfl⟩
  · rintro ⟨outer, ⟨id, parent, is⟩, rfl⟩
    exact ⟨id, parent, outer, is, rfl⟩

end

/-- A region that addresses a team is never analysed directly inside worksharing. Its closest construct
is worksharing exactly where it stands in a section. -/
theorem in_worksharing_iff_in_section {o : Options} {p : Program} {report : Report}
    (ok : (analyze o p).1 = .ok report) {x : RegionReport} (hx : x ∈ report.regions)
    (analyzed : x.status = .analyzed) (team : x.kind.addressesTeam = true) :
    (∃ y, ClosestConstruct report.regions y x ∧ y.kind.isWorksharing = true) ↔
      ∃ id z, x.parent = some id ∧ report.regions[id]? = some z ∧ z.kind = .sectionBlock := by
  obtain ⟨rows, records, order⟩ := exists_rows_of_analyze ok
  obtain ⟨row, hrow, rfl⟩ : ∃ row ∈ rows, row.record = x := by
    rw [records] at hx
    exact List.mem_map.mp hx
  constructor
  · rintro ⟨y, closest, worksharing⟩
    cases closest with
    | parent parent is =>
      obtain ⟨outer, isParent, rfl⟩ := (isParent_iff records).mp ⟨_, parent, is⟩
      obtain ⟨i, is⟩ := List.mem_iff_getElem?.mp hrow
      obtain ⟨around, siblings, stands⟩ := order.exists_standsIn is
      obtain ⟨frames, labels, legal⟩ := stands.admitted analyzed
      rw [stands.describes.kind] at team
      refine absurd ?_ (Placement.not_inWorksharing_of_legal legal team)
      rw [List.map_map] at labels
      exact (stands.parentIs_iff labels _).mpr ⟨outer, isParent, worksharing⟩
    | «section» parent is kind => exact ⟨_, _, parent, is, kind⟩
  · rintro ⟨id, z, parent, is, kind⟩
    obtain ⟨inner, isParent, rfl⟩ := (isParent_iff records).mp ⟨_, parent, is⟩
    have entered : inner.record.status = .analyzed := by
      refine order.parents_analyzed (List.prefix_refl _) ?_ row hrow inner isParent
      simp
    obtain ⟨_, _, is'⟩ := isParent
    obtain ⟨_, _, stands⟩ := order.exists_standsIn is'
    obtain ⟨outer, isParent', sections⟩ := (stands.safelyPlaced entered).inSections kind
    obtain ⟨id', parent', is''⟩ := (isParent_iff records).mpr ⟨outer, isParent', rfl⟩
    have worksharing : outer.record.kind.isWorksharing = true ∧
        outer.record.kind ≠ .sectionBlock := by
      rcases sections with h | h <;> simp [h, DirectiveKind.isWorksharing]
    exact ⟨outer.record, .section parent is kind (.parent parent' is'' worksharing.2),
      worksharing.1⟩

section
variable {l : List RegionReport} {i : Nat} {k : DirectiveKind} {parent : Option Nat}
  {status : RegionStatus}

/-- What a row of a table of kinds, parents and states says of a record. -/
theorem exists_record_of_place
    (h : (l.map fun x => (x.kind, x.parent, x.status))[i]? = some (k, parent, status)) :
    ∃ x, l[i]? = some x ∧ x.kind = k ∧ x.parent = parent ∧ x.status = status := by
  rw [List.getElem?_map, Option.map_eq_some_iff] at h
  obtain ⟨x, is, fields⟩ := h
  cases fields
  exact ⟨x, is, rfl, rfl, rfl⟩

end

/-- `single` in a section of `parallel sections`, and `master` in `parallel`. -/
theorem in_worksharing_iff_in_section_single :
    let p := Draft.program do
      let single ← Draft.region .single id
      let block ← Draft.region .sectionBlock fun r => { r with body := some single }
      let sections ← Draft.region .parallelSections fun r => { r with body := some block }
      let master ← Draft.region .master id
      return [sections, ← Draft.region .parallel fun r => { r with body := some master }]
    ∃ report single master, (analyze {} p).1 = .ok report ∧
      report.regions.map (fun x => (x.kind, x.parent, x.status)) =
        [(.parallelSections, none, .analyzed), (.sectionBlock, some 0, .analyzed),
          (.single, some 1, .analyzed), (.parallel, none, .analyzed),
          (.master, some 3, .analyzed)] ∧
        report.regions[2]? = some single ∧ report.regions[4]? = some master ∧
          (∃ y, ClosestConstruct report.regions y single ∧ y.kind.isWorksharing = true) ∧
          ¬∃ y, ClosestConstruct report.regions y master ∧ y.kind.isWorksharing = true := by
  intro p
  obtain ⟨report, ok, places⟩ :
      ∃ report, (analyze {} p).1 = .ok report ∧
        report.regions.map (fun x => (x.kind, x.parent, x.status)) =
          [(.parallelSections, none, .analyzed), (.sectionBlock, some 0, .analyzed),
            (.single, some 1, .analyzed), (.parallel, none, .analyzed),
            (.master, some 3, .analyzed)] :=
    exists_report_of_decide _ (by decide +kernel)
  obtain ⟨block, blockIs, blockKind, -⟩ := exists_record_of_place (congrArg (·[1]?) places)
  obtain ⟨single, singleIs, singleKind, singleParent, singleStatus⟩ :=
    exists_record_of_place (congrArg (·[2]?) places)
  obtain ⟨parallel, parallelIs, parallelKind, -⟩ := exists_record_of_place (congrArg (·[3]?) places)
  obtain ⟨master, masterIs, masterKind, masterParent, masterStatus⟩ :=
    exists_record_of_place (congrArg (·[4]?) places)
  refine ⟨report, single, master, ok, places, singleIs, masterIs, ?_, ?_⟩
  · have inSection := in_worksharing_iff_in_section ok (List.mem_of_getElem? singleIs) singleStatus
      (by rw [singleKind]; rfl)
    exact inSection.mpr ⟨1, block, singleParent, blockIs, blockKind⟩
  · have inSection := in_worksharing_iff_in_section ok (List.mem_of_getElem? masterIs) masterStatus
      (by rw [masterKind]; rfl)
    rw [inSection]
    rintro ⟨id, z, is, isRow, kind⟩
    cases masterParent.symm.trans is
    cases parallelIs.symm.trans isRow
    rw [parallelKind] at kind
    cases kind

/-- A barrier in a section is analysed, though its closest construct is worksharing. -/
theorem barrier_analyzed_in_sections :
    let p := Draft.program do
      let barrier ← Draft.region .barrier id
      let block ← Draft.region .sectionBlock fun r => { r with body := some barrier }
      return [← Draft.region .sections fun r => { r with body := some block }]
    ∃ report, (analyze {} p).1 = .ok report ∧
      ∃ x ∈ report.regions, x.status = .analyzed ∧ x.kind = .barrier ∧
        ∃ y, ClosestConstruct report.regions y x ∧ y.kind.isWorksharing = true := by
  intro p
  obtain ⟨report, ok, places⟩ :
      ∃ report, (analyze {} p).1 = .ok report ∧
        report.regions.map (fun x => (x.kind, x.parent, x.status)) =
          [(.sections, none, .analyzed), (.sectionBlock, some 0, .analyzed),
            (.barrier, some 1, .analyzed)] :=
    exists_report_of_decide _ (by decide +kernel)
  obtain ⟨sections, sectionsIs, sectionsKind, -⟩ :=
    exists_record_of_place (congrArg (·[0]?) places)
  obtain ⟨block, blockIs, blockKind, blockParent, -⟩ :=
    exists_record_of_place (congrArg (·[1]?) places)
  obtain ⟨barrier, barrierIs, barrierKind, barrierParent, barrierStatus⟩ :=
    exists_record_of_place (congrArg (·[2]?) places)
  refine ⟨report, ok, barrier, List.mem_of_getElem? barrierIs, barrierStatus, barrierKind, sections,
    ?_, by rw [sectionsKind]; rfl⟩
  refine .section barrierParent blockIs blockKind (.parent blockParent sectionsIs ?_)
  rw [sectionsKind]
  decide

end Directives
