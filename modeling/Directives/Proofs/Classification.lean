import Directives.Proofs.LoopCounters
/-!
The variables of a region that is analysed. Its record is made after clauses, loops and inference have
changed the frame and the declarations; still, of the variables that count its loops, that its clauses list
and that its body refers to, each stands in exactly one of the three lists of the record, and each list
keeps the order in which they first occur.
-/

namespace Directives

/-- The variables that a region is about, as often as they occur: those that count in its nest, those that
its clauses list, and those that its body refers to. -/
def Region.mentioned (decls : DeclTable) (r : Region) (nest : Option LoopNest) : List DeclId :=
  ownCounters decls nest ++ r.items.map (fun i => decls.canonical i.decl) ++
    (r.references decls).map fun o => decls.canonical o.1

/-- Every variable that the region is about is recorded once: with an attribute, as unresolved or as
rejected. Each of these lists keeps the order of the first occurrences. The counters of the nest and the
variables of the implicit clauses are recorded with an attribute. -/
structure RegionReport.Classifies (x : RegionReport) (decls : DeclTable) (r : Region) : Prop where
  once : (x.attributes.map (·.var) ++ x.unresolved ++ x.rejected).Nodup
  all : (x.attributes.map (·.var) ++ x.unresolved ++ x.rejected).Perm (r.mentioned decls x.nest).eraseDups
  attributes : (x.attributes.map (·.var)).Sublist (r.mentioned decls x.nest).eraseDups
  unresolved : x.unresolved.Sublist (r.mentioned decls x.nest).eraseDups
  rejected : x.rejected.Sublist (r.mentioned decls x.nest).eraseDups
  implicit : ∀ v ∈ x.implicit.listed, v ∈ x.attributes.map (·.var)
  counters : ∀ v ∈ ownCounters decls x.nest, v ∈ x.attributes.map (·.var)

/-! ## The variables that are asked about -/

section
variable {decls decls' : DeclTable} {r : Region} {nest : Option LoopNest}

theorem distinct_eq_eraseDups (seen l : List DeclId) :
    regionVariables.distinct seen l = (l.filter (· ∉ seen)).eraseDups := by
  induction l generalizing seen with
  | nil => rfl
  | cons a rest ih =>
    rw [regionVariables.distinct]
    by_cases known : a ∈ seen
    · rw [if_pos (List.contains_iff_mem.mpr known), List.filter_cons_of_neg (by simpa using known), ih]
    · rw [if_neg (by simpa using known), eraseDups_filter_cons known, ih]

theorem regionVariables_eq : regionVariables decls r nest = (r.mentioned decls nest).eraseDups := by
  have referenced : (r.body.map (referencedVariables decls)).getD [] = r.references decls := rfl
  rw [regionVariables, distinct_eq_eraseDups, referenced]
  simp [Region.mentioned, ownCounters, Function.comp_def]

/-- What the region is about depends on the declarations only by what they stand for. -/
theorem Region.mentioned_congr (same : decls'.canonical = decls.canonical) :
    r.mentioned decls' nest = r.mentioned decls nest := by
  have referenced : r.references decls' = r.references decls := by
    unfold references referencedVariables
    rw [same]
  rw [mentioned, mentioned, referenced, ownCounters, ownCounters, same]

end

/-! ## Sorting -/

namespace RegionReport.Partitions

variable {x : RegionReport} {vars : List DeclId} {resolution : DeclId → Resolution}

theorem map_attributes (h : x.Partitions vars resolution) :
    x.attributes.map (·.var) = vars.filter fun v => (resolution v).attr?.isSome := by
  rw [h.attributes]
  clear h
  induction vars with
  | nil => rfl
  | cons v rest ih => cases resolved : (resolution v).attr? <;> simp [resolved, ih]

theorem perm (h : x.Partitions vars resolution) :
    (x.attributes.map (·.var) ++ x.unresolved ++ x.rejected).Perm vars := by
  rw [h.map_attributes, h.unresolved, h.rejected]
  clear h
  induction vars with
  | nil => exact .nil
  | cons v rest ih =>
    cases is : resolution v with
    | resolved a => simpa [is, Resolution.attr?] using ih
    | unresolved =>
      rw [List.append_assoc] at ih
      have later := List.perm_middle.trans (ih.cons v)
      simpa [is, Resolution.attr?] using later
    | rejected =>
      have later := List.perm_middle.trans (ih.cons v)
      simpa [is, Resolution.attr?] using later

end RegionReport.Partitions

/-! ## The counters -/

section
variable {o : Options} {r : Region} {w w₂ w₁ : Walk} {nest : Option LoopNest} {f f' : Frame}
  {outer : List Frame} {c : DeclId} {l : LoopLevel}

/-- The counters of the nest with which a region is entered stand for variables that are declared. -/
theorem Walk.Entrance.exists_declared (entrance : Entrance o r w w₂ w₁ nest f f' outer)
    (level : l ∈ (nest.map (·.levels)).getD []) :
    ∃ d, w₂.decls.get? (w₂.decls.canonical l.counter) = some d := by
  cases nest with
  | none => cases level
  | some n =>
    obtain ⟨unassociated, -⟩ | ⟨found, grown⟩ := entrance.loops
    · cases unassociated
    · have declared := canonicalizeNest_declared found.symm l level
      rw [← grown] at declared
      have earlier := Nat.lt_of_le_of_lt (w₂.decls.canonical_le l.counter) declared
      exact ⟨_, List.getElem?_eq_getElem earlier⟩

/-- The counters of the nest with which a region is entered are resolved, whatever clauses say. -/
theorem Walk.Entrance.exists_resolved (entrance : Entrance o r w w₂ w₁ nest f f' outer)
    (counter : c ∈ ownCounters w₂.decls nest) :
    ∃ a, resolve o w₂.decls (f' :: outer) c = .resolved a := by
  have counts := entrance.counter?_inferred counter
  obtain ⟨l, level, rfl⟩ := List.mem_map.mp counter
  obtain ⟨d, hd⟩ := entrance.exists_declared level
  cases threadprivate : d.threadprivate with
  | true =>
    simp only [resolve, w₂.decls.canonical_canonical, hd, threadprivate, if_true]
    exact ⟨_, rfl⟩
  | false =>
    obtain ⟨a, answer, -⟩ := Frame.answer_of_counter (o := o) (d := d) counts outer.length
    refine ⟨a, ?_⟩
    rw [resolve_of_canonical (w₂.decls.canonical_canonical l.counter) hd threadprivate, resolveDeclared,
      answer]

end

namespace Visit.Between

variable {o : Options} {decls decls' : DeclTable} {v : Visit} {x : RegionReport}

theorem implicitAgrees (h : v.Between o decls decls' x) (analyzed : x.status = .analyzed) :
    x.ImplicitAgrees := by
  obtain ⟨id, entered⟩ := h.exists_entered analyzed
  have arrives := Walk.arrives_arrive o v.region v.tree.sole h.hidden
  rw [entered] at arrives
  cases arrives with
  | entered enters => exact { enters.implicitAgrees h.records with }

theorem classifies (h : v.Between o decls decls' x) (analyzed : x.status = .analyzed) :
    x.Classifies decls v.region := by
  obtain ⟨w₂, f, f', outer, entrance, -, partitions⟩ := h.exists_listing_entrance analyzed
  have same : w₂.decls.canonical = decls.canonical := (h.since.trans entrance.extendsTo).canonical
  rw [regionVariables_eq, Region.mentioned_congr same] at partitions
  have all := partitions.perm
  constructor
  case once => exact all.nodup_iff.mpr (nodup_eraseDups _)
  case all => exact all
  case attributes =>
    rw [partitions.map_attributes]
    exact List.filter_sublist
  case unresolved =>
    rw [partitions.unresolved]
    exact List.filter_sublist
  case rejected =>
    rw [partitions.rejected]
    exact List.filter_sublist
  case implicit =>
    intro c listed
    obtain ⟨l, inside⟩ := x.implicit.exists_mem_vars listed
    obtain ⟨a, ha, is, -⟩ := ((h.implicitAgrees analyzed).mem_iff l c).mp inside
    exact List.mem_map.mpr ⟨a, ha, is⟩
  case counters =>
    intro c counter
    have counter' : c ∈ ownCounters w₂.decls x.nest := by
      rwa [ownCounters, same]
    obtain ⟨a, resolved⟩ := entrance.exists_resolved counter'
    rw [partitions.map_attributes, List.mem_filter, List.mem_eraseDups]
    constructor
    · exact List.mem_append_left _ (List.mem_append_left _ counter)
    · rw [resolved]
      rfl

end Visit.Between

/-- In every region that is analysed, each of the variables it is about is classified once. -/
theorem analyzed_variables_classified {o : Options} {p : Program} {report : Report}
    (ok : (analyze o p).1 = .ok report) :
    List.Forall₂ (fun v x => v.Records x ∧ (x.status = .analyzed → x.Classifies p.decls v.region))
      (p.visits o) report.regions := by
  apply (forall₂_visits ok).imp
  intro v x between
  exact ⟨between.records, between.classifies⟩

/-- A loop outside all other regions, with a reduction, with `x` from around it, and with `c`, which is
`const` and cannot be lastprivate; and a task that refers to `x`. -/
theorem analyzed_variables_classified_orphaned :
    let p := Draft.program do
      let i ← Draft.functionLocal "i" .int32
      let s ← Draft.functionLocal "s" .int32
      let x ← Draft.functionLocal "x" .int32
      let c ← Draft.functionLocal "c" (.int true .i32)
      let loop ← Draft.countedLoop i (← Draft.int 0) (← Draft.int 8) (← Draft.useVars [x, s, i])
      let loops ← Draft.region .forLoop fun r =>
        { (r.withList (.reduction .add) [s]).withList (.lastprivate false) [c] with body := some loop }
      let inTask ← Draft.useVars [x]
      return [loops, ← Draft.region .task fun r => { r with body := some inTask }]
    ∃ report, (analyze {} p).1 = .ok report ∧
      report.regions.map (·.status) = [.analyzed, .analyzed] ∧
      report.regions.map (fun x => (x.attributes.map (·.var), x.unresolved, x.rejected)) =
        [([⟨0⟩, ⟨1⟩], [⟨2⟩], [⟨3⟩]), ([⟨2⟩], [], [])] ∧
      report.regions.map (·.implicit.listed) = [[], [⟨2⟩]] ∧
      List.Forall₂ (fun v x => v.Records x ∧ (x.status = .analyzed → x.Classifies p.decls v.region))
        (p.visits {}) report.regions := by
  intro p
  obtain ⟨report, ok, status, lists, implicit⟩ :
      ∃ report, (analyze {} p).1 = .ok report ∧
        report.regions.map (·.status) = [.analyzed, .analyzed] ∧
        report.regions.map (fun x => (x.attributes.map (·.var), x.unresolved, x.rejected)) =
          [([⟨0⟩, ⟨1⟩], [⟨2⟩], [⟨3⟩]), ([⟨2⟩], [], [])] ∧
        report.regions.map (·.implicit.listed) = [[], [⟨2⟩]] :=
    exists_report_of_decide _ (by decide +kernel)
  exact ⟨report, ok, status, lists, implicit, analyzed_variables_classified ok⟩

end Directives
