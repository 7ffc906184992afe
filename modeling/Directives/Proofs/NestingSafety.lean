import Directives.Proofs.RecordedForest
import Directives.Proofs.SoleStatement
/-!
What holds of the place of every region that was analysed. The table of the rules of nesting is read
from the top; a legal placement fits none of the rows that forbid something, because the one row that
allows something hides later rows from cancellations only. A region is entered only where its
placement is legal among the regions that its record names as those around it.
-/

namespace Directives

namespace Placement

variable {p : Placement}

/-- The only row that allows a placement is about cancellations. -/
theorem allowing_row : ∀ i, (inside : i < nestingRules.length) →
    nestingRules[i].outcome = .legal → i = 12 := by
  decide

/-- A legal placement fits no row but the one that allows cancellations, and for a cancellation those
after it. -/
theorem not_fits_of_legal (legal : p.verdict = .legal) (i : Nat) (inside : i < nestingRules.length)
    (unmasked : i < 12 ∨ p.child.isCancellation = false) : nestingRules[i].fits p = false := by
  unfold verdict at legal
  split at legal
  · rename_i unfit
    have other := List.find?_eq_none.mp unfit _ (List.getElem_mem inside)
    exact Bool.eq_false_iff.mpr other
  · rename_i rule found
    split at legal
    · rename_i allows
      obtain ⟨fits, j, hj, rfl, first⟩ := List.find?_eq_some_iff_getElem.mp found
      obtain rfl := allowing_row j hj allows
      rcases unmasked with earlier | other
      · simpa using first i earlier
      · have cancels : p.child.isCancellation = true := (Bool.and_eq_true_iff.mp fits).1
        rw [other] at cancels
        cases cancels
    · cases legal

theorem name_ne_of_sameNameCritical?_eq_none (unique : p.sameNameCritical? = none) :
    ∀ f ∈ p.enclosing, f.kind = .critical → f.name ≠ p.name := by
  unfold sameNameCritical? at unique
  generalize p.enclosing = frames at unique
  induction frames with
  | nil => simp
  | cons f outer ih =>
    rw [sameNameCritical?.search] at unique
    split at unique
    · cases unique
    · rename_i differs
      rw [List.forall_mem_cons]
      refine ⟨fun critical same => differs ?_, ih unique⟩
      simp [critical, same]

/-- What the rules of nesting forbid a region. -/
structure Safe (p : Placement) : Prop where
  critical : p.child = .critical → ∀ f ∈ p.enclosing, f.kind = .critical → f.name ≠ p.name
  inSections : p.child = .sectionBlock → p.parentIs (·.isSections) = true
  notInAtomic : p.parentIs (· = .atomic) = false
  inSimd : p.parentIs (·.isSimd) = true → p.child = .simd ∨ p.child = .atomic ∨ p.child = .scan ∨
    (p.child = .ordered ∧ p.hasSimdClause = true)
  inTeams : p.child.isDistribute = true → p.parentIs (·.isTeamsRegion) = true
  teams : p.child = .teams ∨ p.child = .teamsDistribute →
    p.parentIs (fun k => k != .target || !p.sole) = false

-- Each of these is that one row does not fit. Only the row about the names of `critical` regions
-- comes after the one that allows cancellations.
theorem safe_of_legal (legal : p.verdict = .legal) : p.Safe where
  critical is := by
    have unfit := not_fits_of_legal legal 14 (by decide) (.inr (by rw [is]; rfl))
    apply name_ne_of_sameNameCritical?_eq_none
    simpa [nestingRules, NestingRule.fits, is] using unfit
  inSections is := by
    have unfit := not_fits_of_legal legal 3 (by decide) (.inl (by decide))
    simpa [nestingRules, NestingRule.fits, is] using unfit
  notInAtomic := by
    have unfit := not_fits_of_legal legal 2 (by decide) (.inl (by decide))
    simpa [nestingRules, NestingRule.fits] using unfit
  inSimd inside := by
    have unfit := not_fits_of_legal legal 1 (by decide) (.inl (by decide))
    simp only [Decidable.or_iff_not_imp_left]
    simpa [nestingRules, NestingRule.fits, inside] using unfit
  inTeams is := by
    have unfit := not_fits_of_legal legal 11 (by decide) (.inl (by decide))
    simpa [nestingRules, NestingRule.fits, is] using unfit
  teams is := by
    have unfit := not_fits_of_legal legal 9 (by decide) (.inl (by decide))
    simpa [nestingRules, NestingRule.fits, is] using unfit

end Placement

/-! ## The place of a row -/

/-- The row `outer` is that of the parent that the record of `row` names. -/
def IsParent (rows : List Row) (outer row : Row) : Prop :=
  ∃ id, row.record.parent = some id ∧ rows[id]? = some outer

section
variable {rows : List Row} {forest siblings : List RegionTree} {around : List (Nat × RegionTree)}
  {row outer : Row} {i : Nat}

theorem RegionReport.Describes.label_eq {x : RegionReport} {t : RegionTree} {ids : List Nat}
    (h : x.Describes t.region i ids) : t.label = (x.kind, x.name) :=
  Prod.ext h.kind.symm h.name.symm

/-- The rows of the regions around a place say what these are. -/
theorem Encloses.exists_of_isParent (h : Encloses rows forest around siblings)
    (parent : row.record.parent = (around.map (·.1)).head?) (is : IsParent rows outer row) :
    ∃ id outside siblings', around = (id, outer.tree) :: outside ∧ siblings = outer.tree.children ∧
      outer.record.Describes outer.tree.region id (outside.map (·.1)) ∧
      Encloses rows forest outside siblings' := by
  obtain ⟨id, names, is⟩ := is
  cases h with
  | outermost =>
    rw [names] at parent
    cases parent
  | inside is' _ describes encloses =>
    rw [names] at parent
    cases parent
    cases is.symm.trans is'
    exact ⟨_, _, _, rfl, rfl, describes, encloses⟩

/-- Along the links to the parents stand only regions that are around the place. -/
theorem Encloses.label_mem_of_ancestor (h : Encloses rows forest around siblings)
    (parent : row.record.parent = (around.map (·.1)).head?)
    (ancestor : Relation.TransGen (IsParent rows) outer row) :
    (outer.record.kind, outer.record.name) ∈ around.map (·.2.label) := by
  induction ancestor generalizing around siblings with
  | single is =>
    obtain ⟨id, outside, _, rfl, -, describes, -⟩ := h.exists_of_isParent parent is
    rw [List.map_cons, ← describes.label_eq]
    exact List.mem_cons_self
  | tail _ is ih =>
    obtain ⟨id, outside, _, rfl, -, describes, encloses⟩ := h.exists_of_isParent parent is
    rw [List.map_cons]
    exact List.mem_cons_of_mem _ (ih encloses describes.parent)

/-- The closest region around a row's place, as the rules see it, is the one with the parent's row. -/
theorem Row.StandsIn.parentIs_iff (h : row.StandsIn rows forest i around siblings)
    {p : Placement} (labels : p.enclosing.map (·.label) = around.map (·.2.label))
    (property : DirectiveKind → Bool) :
    p.parentIs property = true ↔
      ∃ outer, IsParent rows outer row ∧ property outer.record.kind = true := by
  have parent := h.describes.parent
  have encloses := h.encloses
  rw [Placement.parentIs, Placement.parent?]
  constructor
  · intro holds
    cases encloses with
    | outermost =>
      rw [List.map_nil, List.map_eq_nil_iff] at labels
      rw [labels] at holds
      cases holds
    | @inside id t x _ _ is _ describes _ =>
      obtain ⟨f, frames, enclosing, label, -⟩ := List.map_eq_cons_iff.mp labels
      rw [enclosing, List.head?_cons, Option.any_some] at holds
      have sameKind : f.kind = t.region.kind := congrArg Prod.fst label
      refine ⟨⟨t, x⟩, ⟨id, parent, is⟩, ?_⟩
      rw [describes.kind, ← sameKind, holds]
  · rintro ⟨outer, is, holds⟩
    obtain ⟨id, outside, _, rfl, -, describes, -⟩ := encloses.exists_of_isParent parent is
    obtain ⟨f, frames, enclosing, label, -⟩ := List.map_eq_cons_iff.mp labels
    have sameKind : f.kind = outer.tree.region.kind := congrArg Prod.fst label
    rw [enclosing, List.head?_cons, Option.any_some, sameKind, ← describes.kind, holds]

theorem Row.StandsIn.parent_eq_none_or (h : row.StandsIn rows forest i around siblings) :
    row.record.parent = none ∨ ∃ outer, IsParent rows outer row := by
  have parent := h.describes.parent
  cases h.encloses with
  | outermost => exact .inl parent
  | inside is => exact .inr ⟨_, _, parent, is⟩

end

/-- A tree that is marked as the only statement is that of the region around it. -/
theorem Encloses.marks {rows : List Row} {p : Program} {around : List (Nat × RegionTree)}
    {siblings : List RegionTree} (h : Encloses rows p.forest around siblings) :
    Marks (fun inner => ∃ outer ∈ around.head?, outer.2.region.HasSole inner) siblings := by
  induction h with
  | outermost => exact p.marks_forest
  | inside _ mem _ _ ih =>
    obtain ⟨tree, -⟩ := ih _ mem
    rw [tree]
    exact (Region.marks_children _ _).mono fun inner sole => ⟨_, rfl, tree ▸ sole⟩

/-- What holds of the place of the region of a row, among those of the other rows. -/
structure Row.SafelyPlaced (row : Row) (rows : List Row) : Prop where
  /-- No `critical` region stands inside another one with its name, at any distance; no name is a
  name as well. -/
  critical : row.record.kind = .critical → ∀ outer, Relation.TransGen (IsParent rows) outer row →
    outer.record.kind = .critical → outer.record.name ≠ row.record.name
  inSections : row.record.kind = .sectionBlock → ∃ outer, IsParent rows outer row ∧
    (outer.record.kind = .sections ∨ outer.record.kind = .parallelSections)
  notInAtomic : ∀ outer, IsParent rows outer row → outer.record.kind ≠ .atomic
  inSimd : ∀ outer, IsParent rows outer row → outer.record.kind.isSimd = true →
    row.record.kind = .simd ∨ row.record.kind = .atomic ∨ row.record.kind = .scan ∨
      (row.record.kind = .ordered ∧ row.tree.region.hasSimdClause = true)
  inTeams : row.record.kind.isDistribute = true → ∃ outer, IsParent rows outer row ∧
    (outer.record.kind = .teams ∨ outer.record.kind = .targetTeams)
  /-- A region of teams stands in no other region, or is all that stands in a `target` region. -/
  teams : row.record.kind = .teams ∨ row.record.kind = .teamsDistribute →
    row.record.parent = none ∨ ∃ outer, IsParent rows outer row ∧ outer.record.kind = .target ∧
      outer.tree.region.HasSole row.tree.region

theorem DirectiveKind.isSections_iff {k : DirectiveKind} :
    k.isSections = true ↔ k = .sections ∨ k = .parallelSections := by
  cases k <;> simp [isSections]

theorem DirectiveKind.isTeamsRegion_iff {k : DirectiveKind} :
    k.isTeamsRegion = true ↔ k = .teams ∨ k = .targetTeams := by
  cases k <;> simp [isTeamsRegion]

theorem Row.StandsIn.safelyPlaced {row : Row} {rows : List Row} {p : Program}
    {siblings : List RegionTree} {around : List (Nat × RegionTree)} {i : Nat}
    (h : row.StandsIn rows p.forest i around siblings) (analyzed : row.record.status = .analyzed) :
    row.SafelyPlaced rows := by
  obtain ⟨frames, labels, legal⟩ := h.admitted analyzed
  have labels : frames.map (·.label) = around.map (·.2.label) := by
    rw [labels, List.map_map]
    rfl
  have safe := Placement.safe_of_legal legal
  have closest := h.parentIs_iff (p := .ofRegion row.tree.region row.tree.sole frames) labels
  have parent := h.describes.parent
  have sameKind : row.record.kind = row.tree.region.kind := h.describes.kind
  constructor
  · intro critical outer ancestor outerCritical sameName
    have mem := h.encloses.label_mem_of_ancestor parent ancestor
    rw [← labels] at mem
    obtain ⟨f, hf, label⟩ := List.mem_map.mp mem
    obtain ⟨kind, name⟩ := Prod.mk.inj label
    refine safe.critical (sameKind.symm.trans critical) f hf (kind.trans outerCritical) ?_
    exact name.trans (sameName.trans h.describes.name)
  · intro is
    obtain ⟨outer, isParent, sections⟩ := (closest _).mp (safe.inSections (sameKind.symm.trans is))
    exact ⟨outer, isParent, DirectiveKind.isSections_iff.mp sections⟩
  · intro outer isParent atomic
    have inside := (closest (· = .atomic)).mpr ⟨outer, isParent, decide_eq_true atomic⟩
    rw [safe.notInAtomic] at inside
    cases inside
  · intro outer isParent simd
    rw [sameKind]
    exact safe.inSimd ((closest _).mpr ⟨outer, isParent, simd⟩)
  · intro is
    have family := (congrArg _ sameKind).symm.trans is
    obtain ⟨outer, isParent, teams⟩ := (closest _).mp (safe.inTeams family)
    exact ⟨outer, isParent, DirectiveKind.isTeamsRegion_iff.mp teams⟩
  · intro is
    rcases h.parent_eq_none_or with none | ⟨outer, isParent⟩
    · exact .inl none
    · refine .inr ⟨outer, isParent, ?_⟩
      rw [sameKind] at is
      have unfit := safe.teams is
      rw [← Bool.not_eq_true, closest] at unfit
      have fits : outer.record.kind = .target ∧ row.tree.sole = true := by
        have here := not_and.mp (not_exists.mp unfit outer) isParent
        simpa [Placement.ofRegion] using here
      obtain ⟨-, marked⟩ := h.encloses.marks row.tree h.mem
      obtain ⟨entry, isHead, hasSole⟩ := marked fits.2
      obtain ⟨id, outside, _, rfl, -⟩ := h.encloses.exists_of_isParent parent isParent
      cases isHead
      exact ⟨fits.1, hasSole⟩

/-- Every region of a report that was analysed is safely placed, whatever the program. -/
theorem nesting_is_safe {o : Options} {p : Program} {report : Report}
    (ok : (analyze o p).1 = .ok report) :
    ∃ rows, report.regions = rows.map (·.record) ∧ ForestOrder 0 [] p.forest rows ∧
      ∀ row ∈ rows, row.record.status = .analyzed → row.SafelyPlaced rows := by
  obtain ⟨rows, regions, order⟩ := exists_rows_of_analyze ok
  refine ⟨rows, regions, order, fun row hrow analyzed => ?_⟩
  obtain ⟨i, is⟩ := List.mem_iff_getElem?.mp hrow
  obtain ⟨_, _, stands⟩ := order.exists_standsIn is
  exact stands.safelyPlaced analyzed

/-- Teams that are all there is in `target`, in a block; `ordered` with its `simd` clause in `simd`; and
a `critical` region inside one with its name, with another one between them, which is not entered. -/
theorem nesting_is_safe_mixed :
    let p := Draft.program do
      let distribute ← Draft.region .distribute id
      let teams ← Draft.region .teams fun r => { r with body := some distribute }
      let block ← Draft.block [teams]
      let target ← Draft.region .target fun r => { r with body := some block }
      let ordered ← Draft.region .ordered (·.withMark .simd)
      let simd ← Draft.region .simd fun r => { r with body := some ordered }
      let again ← Draft.region .critical fun r => { r with name := "a" }
      let between ← Draft.region .critical fun r => { r with name := "b", body := some again }
      return [target, simd,
        ← Draft.region .critical fun r => { r with name := "a", body := some between }]
    ∃ report, (analyze {} p).1 = .ok report ∧
      report.regions.map (fun x => (x.kind, x.parent, x.status)) =
        [(.target, none, .analyzed), (.teams, some 0, .analyzed), (.distribute, some 1, .analyzed),
          (.simd, none, .analyzed), (.ordered, some 3, .analyzed), (.critical, none, .analyzed),
          (.critical, some 5, .analyzed), (.critical, some 6, .invalidNesting)] ∧
        ∃ rows, report.regions = rows.map (·.record) ∧ ForestOrder 0 [] p.forest rows ∧
          ∀ row ∈ rows, row.record.status = .analyzed → row.SafelyPlaced rows := by
  intro p
  obtain ⟨report, ok, places⟩ :
      ∃ report, (analyze {} p).1 = .ok report ∧
        report.regions.map (fun x => (x.kind, x.parent, x.status)) =
          [(.target, none, .analyzed), (.teams, some 0, .analyzed),
            (.distribute, some 1, .analyzed), (.simd, none, .analyzed), (.ordered, some 3, .analyzed),
            (.critical, none, .analyzed), (.critical, some 5, .analyzed),
            (.critical, some 6, .invalidNesting)] :=
    exists_report_of_decide _ (by decide +kernel)
  exact ⟨report, ok, places, nesting_is_safe ok⟩

end Directives
