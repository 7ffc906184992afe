import Directives.Proofs.Visits
import Directives.Proofs.NestLevels
/-!
The counters of associated loops are never shared. Their attribute is fixed before anything else is
asked, by the directive and the number of its loops; a clause can only choose another one of those
that a counter can take, and is reported otherwise.
-/

namespace Directives

/-! ## The predetermined attribute -/

/-- The attribute of the counters of so many associated loops: linear for the only loop of a directive that
runs iterations in vector lanes, lastprivate for each of several, and private for the other directives. -/
inductive DirectiveKind.Predetermines (k : DirectiveKind) (depth : Nat) : Sharing → Prop where
  | only : k.isSimd = true → depth = 1 → k.Predetermines depth .linear
  | several : k.isSimd = true → depth ≠ 1 → k.Predetermines depth .lastprivate
  | unvectored : k.isSimd = false → k.Predetermines depth .priv

theorem DirectiveKind.predetermines_counterSharing (k : DirectiveKind) (depth : Nat) :
    k.Predetermines depth (k.counterSharing depth) := by
  unfold counterSharing
  split
  · rename_i simd
    split
    · exact .only simd ‹_›
    · exact .several simd ‹_›
  · exact .unvectored (Bool.eq_false_iff.mpr ‹_›)

/-- None of them is shared. -/
theorem DirectiveKind.Predetermines.cases {k : DirectiveKind} {depth : Nat} {fixed : Sharing}
    (h : k.Predetermines depth fixed) : fixed = .priv ∨ fixed = .lastprivate ∨ fixed = .linear := by
  cases h with
  | only => exact .inr (.inr rfl)
  | several => exact .inr (.inl rfl)
  | unvectored => exact .inl rfl

/-! ## Counters are declared -/

/-- The counters of a nest are declared. -/
theorem canonicalizeNest_declared {o : Options} {r : Region} {decls : DeclTable} {n : LoopNest}
    (h : (canonicalizeNest o r decls).1.nest? = some n) :
    ∀ l ∈ n.levels, l.counter.index < (canonicalizeNest o r decls).2.size := by
  have ends : SearchEnds o (fun ls t => ∀ l ∈ ls, l.counter.index < t.size)
      (canonicalizeNest o r decls) := by
    refine canonicalizeNest_ends ?_ r fun _ h => absurd h List.not_mem_nil
    intro s level header outer decls l decls' before recognized made
    have counter : l.counter = header.counter :=
      congrArg LoopHeader.counter (LoopLevel.header_ofHeader made)
    rw [List.forall_mem_append, List.forall_mem_singleton, counter]
    obtain ⟨-, -, name, -, rfl⟩ := LoopLevel.ofHeader_eq_ok made
    have grows := (decls.growsTo_synthesize name header.counterTy header.location).size_le
    refine ⟨fun l hl => Nat.lt_of_lt_of_le (before l hl) grows, ?_⟩
    have declared := DeclTable.lt_of_typed (Stmt.recognize_counterTy recognized).1
    exact Nat.lt_of_lt_of_le declared grows
  obtain ⟨_, declared, last⟩ := ends.exists_of_nest (NestOutcome.nest?_eq_some.mp h)
  intro l hl
  rw [(Prod.mk.inj last).2]
  exact Nat.lt_of_lt_of_le (declared l hl) (DeclTable.growsTo_synthesize ..).size_le

/-! ## What is reported on a counter -/

/-- The diagnostic refuses an attribute that a clause gives to the counter. -/
def Diagnostic.RefusesCounter (d : Diagnostic) (counter : DeclId) : Prop :=
  d.kind = .attributeConflict .loopCounter ∧ d.var? = some counter

instance (d : Diagnostic) (counter : DeclId) : Decidable (d.RefusesCounter counter) :=
  inferInstanceAs (Decidable (_ ∧ _))

theorem Diagnostic.OnClause.not_refusesCounter {d : Diagnostic} (h : d.OnClause) (c : DeclId) :
    ¬ d.RefusesCounter c := by
  obtain ⟨reason, kind, other⟩ := h
  rintro ⟨refused, -⟩
  exact other (DiagnosticKind.attributeConflict.inj (kind.symm.trans refused))

theorem Diagnostic.OnLoop.not_refusesCounter {d : Diagnostic} (h : d.OnLoop) (c : DeclId) :
    ¬ d.RefusesCounter c := by
  obtain ⟨failure, level, rfl⟩ := h
  rintro ⟨refused, -⟩
  cases failure <;> cases refused

theorem not_refusesCounter_of_inferenceReport? {o : Options} {decls : DeclTable}
    {directive : DirectiveKind} {stack : FrameStack} {f : Frame} {occ : Occurrence} {d : Diagnostic}
    (h : inferenceReport? o decls directive stack f occ = some d) (c : DeclId) :
    ¬ d.RefusesCounter c := by
  obtain ⟨_, -, h⟩ := Option.bind_eq_some_iff.mp h
  rintro ⟨refused, -⟩
  unfold Inference.report? at h
  split at h <;> cases h <;> cases refused

theorem Frame.refusedCounter?_eq_some {f : Frame} {fixed : Sharing} {var c : DeclId} :
    (∃ d, f.refusedCounter? fixed var = some d ∧ d.RefusesCounter c) ↔
      var = c ∧ ∃ e, f.entryOf? c = some e ∧ e.implicit = false ∧
        Sharing.counterAccepts fixed e.kind = false := by
  unfold refusedCounter?
  constructor
  · rintro ⟨d, refused, -, same⟩
    obtain ⟨e, he, refused⟩ := Option.bind_eq_some_iff.mp refused
    split at refused
    · rename_i excluded
      cases refused
      cases same
      rw [Bool.and_eq_true, Bool.not_eq_true', Bool.not_eq_true'] at excluded
      exact ⟨rfl, e, he, excluded⟩
    · cases refused
  · rintro ⟨rfl, e, he, explicit, excluded⟩
    refine ⟨
      { location := e.location
        kind := .attributeConflict .loopCounter
        args := [.var var, .sharing e.kind, .sharing fixed] }, ?_, rfl, rfl⟩
    rw [he, Option.bind_some, explicit, excluded]
    rfl

section
variable {o : Options} {decls decls' : DeclTable} {v : Visit} {x : RegionReport} {w₂ : Walk}
  {nest : Option LoopNest} {f f' : Frame} {outer : List Frame} {c : DeclId} {d : VarDecl}

/-- A counter is refused exactly where a clause lists it with an attribute it cannot take. -/
theorem Walk.Entrance.refuses_iff
    (entrance : Entrance o v.region v.before w₂ v.after nest f f' outer)
    (counter : c ∈ ownCounters w₂.decls nest) :
    (∃ d ∈ v.emitted, d.RefusesCounter c) ↔
      ∃ e, f.entryOf? c = some e ∧ e.implicit = false ∧
        Sharing.counterAccepts (v.region.fixedSharing nest) e.kind = false := by
  obtain ⟨clauses, loops, onClause, onLoop, reported⟩ := entrance.reports
  have emitted := Visit.emitted_eq reported
  constructor
  · rintro ⟨d, hd, refuses⟩
    simp only [emitted, List.mem_append] at hd
    obtain hd | hd | hd | hd := hd
    · exact absurd refuses ((onClause d hd).not_refusesCounter c)
    · exact absurd refuses ((onLoop d hd).not_refusesCounter c)
    · obtain ⟨var, -, refused⟩ := List.mem_filterMap.mp hd
      exact (Frame.refusedCounter?_eq_some.mp ⟨d, refused, refuses⟩).2
    · obtain ⟨occ, -, due⟩ := List.mem_filterMap.mp hd
      exact absurd refuses (not_refusesCounter_of_inferenceReport? due c)
  · intro excluded
    obtain ⟨d, refused, refuses⟩ := Frame.refusedCounter?_eq_some.mpr ⟨rfl, excluded⟩
    refine ⟨d, ?_, refuses⟩
    simp only [emitted, List.mem_append]
    exact .inr (.inr (.inl (List.mem_filterMap.mpr ⟨c, counter, refused⟩)))

/-- What resolution says of a counter: its fixed attribute, or that of an entry it can take. -/
theorem Frame.answer_of_counter {fixed : Sharing} (counter : f.counter? c = some fixed) (i : Nat) :
    ∃ a, f.answer o c d i = .settled (.resolved a) ∧ (a.kind = fixed ∨
      ∃ e, f.entryOf? c = some e ∧ Sharing.counterAccepts fixed e.kind ∧ a.kind = e.kind) := by
  unfold Frame.answer
  rw [counter]
  dsimp only [Frame.answer.entryIf]
  split
  · rename_i e he
    split
    · rename_i accepted
      exact ⟨_, rfl, .inr ⟨e, he, accepted, rfl⟩⟩
    · exact ⟨_, rfl, .inl rfl⟩
  · exact ⟨_, rfl, .inl rfl⟩

theorem Sharing.eq_of_counterAccepts {fixed kind : Sharing} (h : Sharing.counterAccepts fixed kind) :
    kind = .priv ∨ kind = .lastprivate ∨ kind = .linear := by
  unfold Sharing.counterAccepts at h
  split at h
  · exact .inl rfl
  · exact .inr (.inl rfl)
  · exact .inr (.inr rfl)
  · cases h

end

/-- What a record says of a counter `c` whose attribute is fixed as `fixed`: it has an attribute, and
that is none of a shared variable; it is the fixed one or that of a clause that the counter can take; and
a clause with an attribute that it cannot take is what is reported on it. -/
structure Visit.SettlesCounter (v : Visit) (x : RegionReport) (fixed : Sharing) (c : DeclId) : Prop where
  settled : ∃ a ∈ x.attributes, a.var = c
  unshared : ∀ a ∈ x.attributes, a.var = c →
    a.attr.kind = .priv ∨ a.attr.kind = .lastprivate ∨ a.attr.kind = .linear
  chosen : ∀ a ∈ x.attributes, a.var = c → a.attr.kind ≠ fixed →
    ∃ e, v.entryOf? c = some e ∧ e.implicit = false ∧ Sharing.counterAccepts fixed e.kind ∧
      a.attr.kind = e.kind
  refused : (∃ d ∈ v.emitted, d.RefusesCounter c) ↔
    ∃ e, v.entryOf? c = some e ∧ e.implicit = false ∧ Sharing.counterAccepts fixed e.kind = false

theorem Walk.Entrance.settlesCounter {o : Options} {v : Visit} {x : RegionReport} {w₂ : Walk}
    {nest : Option LoopNest} {f f' : Frame} {outer : List Frame} {c : DeclId} {d : VarDecl}
    (entrance : Entrance o v.region v.before w₂ v.after nest f f' outer)
    (attributes : ∀ a, a ∈ x.attributes ↔ a.var ∈ regionVariables w₂.decls v.region nest ∧
      resolve o w₂.decls (f' :: outer) a.var = .resolved a.attr)
    (counter : c ∈ ownCounters w₂.decls nest) (canonical : w₂.decls.canonical c = c)
    (hd : w₂.decls.get? c = some d) (notThreadprivate : d.threadprivate = false) :
    v.SettlesCounter x (v.region.fixedSharing nest) c := by
  have counts : f.counter? c = some (v.region.fixedSharing nest) := by
    rw [entrance.counter?, if_pos counter]
  have counts' := entrance.counter?_inferred counter
  -- Inference leaves counters alone, so that their entries are those of the clauses.
  have same : f'.entryOf? c = f.entryOf? c := by
    refine entrance.entries c d hd fun leavesOpen => ?_
    rw [leavesOpen.counter] at counts
    cases counts
  have entry : v.entryOf? c = f'.entryOf? c := by
    rw [Visit.entryOf?, FrameStack.currentEntryOf?, entrance.inferred.current?]
    rfl
  obtain ⟨a, answer, kind⟩ := Frame.answer_of_counter (o := o) (d := d) counts' outer.length
  have resolved : resolve o w₂.decls (f' :: outer) c = .resolved a := by
    rw [resolve_of_canonical canonical hd notThreadprivate, resolveDeclared, answer]
  have asked : c ∈ regionVariables w₂.decls v.region nest := by
    obtain ⟨l, hl, rfl⟩ := List.mem_map.mp counter
    refine mem_distinct.mpr ⟨List.mem_map.mpr ⟨l.counter, ?_, rfl⟩, List.not_mem_nil⟩
    exact List.mem_append_left _ (List.mem_append_left _ (List.mem_map_of_mem hl))
  have only : ∀ b ∈ x.attributes, b.var = c → b.attr = a := by
    intro b hb hc
    have hr := ((attributes b).mp hb).2
    rw [hc, resolved] at hr
    exact (Resolution.resolved.inj hr).symm
  refine ⟨⟨⟨c, a⟩, (attributes _).mpr ⟨asked, resolved⟩, rfl⟩, fun b hb hc => ?_,
    fun b hb hc other => ?_, ?_⟩
  · rw [only b hb hc]
    obtain fixed | ⟨e, -, accepted, chosen⟩ := kind
    · rw [fixed]
      exact (DirectiveKind.predetermines_counterSharing _ _).cases
    · rw [chosen]
      exact Sharing.eq_of_counterAccepts accepted
  · rw [only b hb hc] at other ⊢
    obtain ⟨e, he, accepted, chosen⟩ := kind.resolve_left other
    exact ⟨e, entry.trans he, entrance.explicit c e (same.symm.trans he), accepted, chosen⟩
  · rw [entry, same]
    exact entrance.refuses_iff counter

/-- Loop counters are never shared. -/
theorem counters_never_shared {o : Options} {p : Program} {report : Report}
    (ok : (analyze o p).1 = .ok report) :
    List.Forall₂ (fun v x => v.Records x ∧ ∀ nest, x.nest = some nest → ∀ l ∈ nest.levels,
        (report.decls.get? (report.decls.canonical l.counter)).any (·.threadprivate) = false →
          ∃ fixed, v.region.kind.Predetermines nest.depth fixed ∧
            v.SettlesCounter x fixed (report.decls.canonical l.counter))
      (p.visits o) report.regions := by
  refine (forall₂_visits ok).imp fun v x between => ⟨between.records, fun nest hnest l hl => ?_⟩
  have analyzed : x.status = .analyzed := by
    refine Classical.byContradiction fun skipped => ?_
    rw [(between.nothing_of_skipped skipped).2] at hnest
    cases hnest
  obtain ⟨w₂, f, f', outer, entrance, -, attributes⟩ := between.exists_entrance analyzed
  rw [hnest] at entrance attributes
  obtain ⟨unassociated, -⟩ | ⟨found, decls₂⟩ := entrance.loops
  · cases unassociated
  have declared := canonicalizeNest_declared found.symm l hl
  rw [← decls₂] at declared
  -- What the counter is called is settled once it is declared.
  have grows : w₂.decls.GrowsTo report.decls := entrance.decls_eq ▸ between.upTo.grows
  have inside := Nat.lt_of_le_of_lt (w₂.decls.canonical_le l.counter) declared
  rw [grows.canonical_eq declared, grows.get?_eq inside]
  obtain ⟨d, hd⟩ : ∃ d, w₂.decls.get? (w₂.decls.canonical l.counter) = some d :=
    ⟨_, List.getElem?_eq_getElem inside⟩
  intro notThreadprivate
  rw [hd] at notThreadprivate
  exact ⟨_, v.region.kind.predetermines_counterSharing nest.depth,
    entrance.settlesCounter attributes (List.mem_map_of_mem hl)
      (w₂.decls.canonical_canonical l.counter) hd notThreadprivate⟩

/-- Two collapsed loops, one with a counter that is listed as lastprivate, which it can be, and one
with a counter that is listed as firstprivate; and loops that run in vector lanes, one alone and two
collapsed. -/
theorem counters_never_shared_collapsed :
    let p := Draft.program do
      let i ← Draft.functionLocal "i" .int32
      let j ← Draft.functionLocal "j" .int32
      let single ← Draft.countedLoop i (← Draft.int 0) (← Draft.int 8) (← Draft.useVars [i])
      let inner ← Draft.countedLoop j (← Draft.int 0) (← Draft.int 4) (← Draft.useVars [i, j])
      let outer ← Draft.countedLoop i (← Draft.int 0) (← Draft.int 8) inner
      let loops ← Draft.region .forLoop fun r =>
        { ((r.withMark (.collapse (r.literal 2))).withList (.lastprivate false) [i]).withList
            .firstprivate [j] with body := some outer }
      let lanes ← Draft.region .simd fun r => { r with body := some single }
      let grid ← Draft.region .simd fun r =>
        { r.withMark (.collapse (r.literal 2)) with body := some outer }
      return [← Draft.region .parallel fun r => { r with body := some loops }, lanes, grid]
    ∃ report, (analyze {} p).1 = .ok report ∧
      report.regions.filterMap (fun x => x.nest.map fun n => (x.kind, n.depth,
        x.attributes.map fun a => (a.var, a.attr.kind))) =
          [(.forLoop, 2, [(⟨0⟩, .lastprivate), (⟨1⟩, .priv)]), (.simd, 1, [(⟨0⟩, .linear)]),
            (.simd, 2, [(⟨0⟩, .lastprivate), (⟨1⟩, .lastprivate)])] ∧
      reported (.attributeConflict .loopCounter) (analyze {} p).2 ∧
      List.Forall₂ (fun v x => v.Records x ∧ ∀ nest, x.nest = some nest → ∀ l ∈ nest.levels,
          (report.decls.get? (report.decls.canonical l.counter)).any (·.threadprivate) = false →
            ∃ fixed, v.region.kind.Predetermines nest.depth fixed ∧
              v.SettlesCounter x fixed (report.decls.canonical l.counter))
        (p.visits {}) report.regions := by
  intro p
  obtain ⟨report, ok, settled⟩ :
      ∃ report, (analyze {} p).1 = .ok report ∧
        report.regions.filterMap (fun x => x.nest.map fun n => (x.kind, n.depth,
          x.attributes.map fun a => (a.var, a.attr.kind))) =
            [(.forLoop, 2, [(⟨0⟩, .lastprivate), (⟨1⟩, .priv)]), (.simd, 1, [(⟨0⟩, .linear)]),
              (.simd, 2, [(⟨0⟩, .lastprivate), (⟨1⟩, .lastprivate)])] :=
    exists_report_of_decide _ (by decide +kernel)
  exact ⟨report, ok, settled, by decide +kernel, counters_never_shared ok⟩

end Directives
