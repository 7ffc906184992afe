import Directives.Proofs.Completion
/-!
Cancellations are accounted for. A record says that a cancellation is present exactly where one was
analysed, directly in the region or directly in a section of it. While a region is open its frame
keeps the account; it is handed to the record when the region is left.
-/

namespace Directives

/-- A cancellation that stands directly in the region `inner?` concerns the region `i`: it is that
region, or the one around it where it is a section. -/
inductive Concerns (l : List RegionReport) (inner? : Option Nat) (i : Nat) : Prop where
  | direct (inner : inner? = some i)
  | section {k x} (inner : inner? = some k) (is : l[k]? = some x) (kind : x.kind = .sectionBlock)
      (around : x.parent = some i)

/-- The record is that of a cancellation that was analysed and concerns the region `i`. -/
structure RegionReport.Cancels (y : RegionReport) (l : List RegionReport) (i : Nat) : Prop where
  kind : y.kind = .cancel
  status : y.status = .analyzed
  concerns : Concerns l y.parent i

/-- There is the record of a cancellation that was analysed and concerns the region `i`. -/
def Cancelled (l : List RegionReport) (i : Nat) : Prop := ∃ y ∈ l, y.Cancels l i

/-- The parents of all records have numbers below `n`. -/
def LinksBelow (n : Nat) (l : List RegionReport) : Prop :=
  ∀ y ∈ l, ∀ k, y.parent = some k → k < n

section
variable {l : List RegionReport} {x y : RegionReport} {inner? : Option Nat} {i id n : Nat}

theorem concerns_some_iff (is : l[id]? = some x) :
    Concerns l (some id) i ↔ i = id ∨ (x.kind = .sectionBlock ∧ x.parent = some i) := by
  constructor
  · intro h
    cases h with
    | direct inner =>
      cases inner
      exact .inl rfl
    | «section» inner is' kind around =>
      cases inner
      cases is.symm.trans is'
      exact .inr ⟨kind, around⟩
  · rintro (rfl | ⟨kind, around⟩)
    · exact .direct rfl
    · exact .section rfl is kind around

theorem LinksBelow.lt_of_concerns (links : LinksBelow n l) (inner : ∀ k, inner? = some k → k < n)
    (h : Concerns l inner? i) : i < n := by
  cases h with
  | direct is => exact inner i is
  | «section» _ is _ around => exact links _ (List.mem_of_getElem? is) i around

theorem LinksBelow.not_cancelled (links : LinksBelow n l) : ¬Cancelled l n := by
  rintro ⟨y, hy, cancels⟩
  exact Nat.lt_irrefl n (links.lt_of_concerns (links y hy) cancels.concerns)

/-- A new record makes no difference to what concerns a region that is there already. -/
theorem concerns_append_iff (inner : ∀ k, inner? = some k → k < l.length) :
    Concerns (l ++ [x]) inner? i ↔ Concerns l inner? i := by
  cases inner? with
  | none =>
    constructor
    · rintro (h | h) <;> cases h
    · rintro (h | h) <;> cases h
  | some k =>
    have is := List.getElem?_eq_getElem (inner k rfl)
    have is' : (l ++ [x])[k]? = _ := (List.getElem?_append_left (inner k rfl)).trans is
    rw [concerns_some_iff is, concerns_some_iff is']

theorem cancelled_append_iff (links : LinksBelow l.length l)
    (inner : ∀ k, x.parent = some k → k < l.length) :
    Cancelled (l ++ [x]) i ↔
      Cancelled l i ∨ (x.kind = .cancel ∧ x.status = .analyzed ∧ Concerns l x.parent i) := by
  constructor
  · rintro ⟨y, hy, kind, status, concerns⟩
    rcases List.mem_append.mp hy with hy | hy
    · exact .inl ⟨y, hy, kind, status, (concerns_append_iff (links y hy)).mp concerns⟩
    · cases List.mem_singleton.mp hy
      exact .inr ⟨kind, status, (concerns_append_iff inner).mp concerns⟩
  · rintro (⟨y, hy, kind, status, concerns⟩ | ⟨kind, status, concerns⟩)
    · exact ⟨y, List.mem_append_left _ hy, kind, status,
        (concerns_append_iff (links y hy)).mpr concerns⟩
    · exact ⟨x, List.mem_append_right _ List.mem_cons_self, kind, status,
        (concerns_append_iff inner).mpr concerns⟩

/-- The record without the note of a cancellation. -/
def RegionReport.unnoted (x : RegionReport) : RegionReport := { x with cancelPresent := false }

theorem RegionReport.links_of_unnoted (same : x.unnoted = y.unnoted) :
    x.kind = y.kind ∧ x.status = y.status ∧ x.parent = y.parent := by
  have fields := RegionReport.mk.inj same
  exact ⟨fields.2.1, fields.2.2.2.2.2.2.2.1, fields.2.2.2.2.1⟩

/-- What concerns a region does not depend on what is noted of cancellations. -/
theorem Concerns.of_unnoted {l' : List RegionReport} (same : l.map (·.unnoted) = l'.map (·.unnoted))
    (h : Concerns l inner? i) : Concerns l' inner? i := by
  cases h with
  | direct inner => exact .direct inner
  | @«section» k x inner is kind around =>
    have there : (l'.map (·.unnoted))[k]? = some x.unnoted := by
      rw [← same, List.getElem?_map, is, Option.map_some]
    rw [List.getElem?_map, Option.map_eq_some_iff] at there
    obtain ⟨x', is', unnoted⟩ := there
    obtain ⟨sameKind, -, sameParent⟩ := RegionReport.links_of_unnoted unnoted
    exact .section inner is' (sameKind.trans kind) (sameParent.trans around)

theorem Cancelled.of_unnoted {l' : List RegionReport}
    (same : l.map (·.unnoted) = l'.map (·.unnoted)) (h : Cancelled l i) : Cancelled l' i := by
  obtain ⟨y, hy, kind, status, concerns⟩ := h
  have there : y.unnoted ∈ l'.map (·.unnoted) := same ▸ List.mem_map_of_mem hy
  obtain ⟨y', hy', unnoted⟩ := List.mem_map.mp there
  obtain ⟨sameKind, sameStatus, sameParent⟩ := RegionReport.links_of_unnoted unnoted
  exact ⟨y', hy', sameKind.trans kind, sameStatus.trans status,
    sameParent ▸ concerns.of_unnoted same⟩

/-- The list with a note in the record of the region `id`. -/
def noteRecord (l : List RegionReport) (id : Nat) (present : Bool) : List RegionReport :=
  l.modify id fun x => { x with cancelPresent := present }

theorem length_noteRecord (l : List RegionReport) (id : Nat) (present : Bool) :
    (noteRecord l id present).length = l.length := List.length_modify ..

theorem getElem?_noteRecord_self (is : l[id]? = some x) (present : Bool) :
    (noteRecord l id present)[id]? = some { x with cancelPresent := present } := by
  rw [noteRecord, List.getElem?_modify_eq, is]
  rfl

theorem getElem?_noteRecord_of_ne (other : id ≠ i) (present : Bool) :
    (noteRecord l id present)[i]? = l[i]? := List.getElem?_modify_ne _ _ other

theorem unnoted_noteRecord (l : List RegionReport) (id : Nat) (present : Bool) :
    (noteRecord l id present).map (·.unnoted) = l.map (·.unnoted) := by
  refine List.ext_getElem? fun k => ?_
  rw [List.getElem?_map, List.getElem?_map, noteRecord, List.getElem?_modify]
  cases l[k]? with
  | none => rfl
  | some x => by_cases own : id = k <;> simp [own, RegionReport.unnoted]

theorem cancelled_noteRecord_iff {present : Bool} :
    Cancelled (noteRecord l id present) i ↔ Cancelled l i :=
  have same := unnoted_noteRecord l id present
  ⟨.of_unnoted same, .of_unnoted same.symm⟩

theorem LinksBelow.noteRecord (links : LinksBelow n l) (id : Nat) (present : Bool) :
    LinksBelow n (noteRecord l id present) := by
  intro y hy
  have there : y.unnoted ∈ l.map (·.unnoted) :=
    unnoted_noteRecord l id present ▸ List.mem_map_of_mem hy
  obtain ⟨y', hy', unnoted⟩ := List.mem_map.mp there
  obtain ⟨-, -, sameParent⟩ := RegionReport.links_of_unnoted unnoted
  exact sameParent ▸ links y' hy'

end

/-! ## The account of the open regions -/

/-- The regions with the numbers `ids` are open, and `frames` are their frames, innermost first:
each stands in the next one, and its frame says whether a cancellation that concerns it was
recorded. -/
inductive OpenAccount (l : List RegionReport) : List Frame → List Nat → Prop where
  | nil : OpenAccount l [] []
  | cons {f frames id ids x} (is : l[id]? = some x) (kind : x.kind = f.kind)
      (parent : x.parent = ids.head?) (inner : ∀ k ∈ ids, k < id)
      (noted : f.flags.cancelPresent = true ↔ Cancelled l id) (outer : OpenAccount l frames ids) :
      OpenAccount l (f :: frames) (id :: ids)

namespace OpenAccount

variable {l : List RegionReport} {frames : List Frame} {ids : List Nat} {x : RegionReport} {i : Nat}

theorem mem_lt (h : OpenAccount l frames ids) : ∀ k ∈ ids, k < l.length := by
  induction h with
  | nil => simp
  | cons is _ _ _ _ _ ih =>
    rw [List.forall_mem_cons]
    obtain ⟨inside, -⟩ := List.getElem?_eq_some_iff.mp is
    exact ⟨inside, ih⟩

/-- What stands in the innermost open region concerns open regions only. -/
theorem mem_of_concerns (h : OpenAccount l frames ids) (concerns : Concerns l ids.head? i) :
    i ∈ ids := by
  cases h with
  | nil => cases concerns <;> contradiction
  | cons is _ parent _ _ _ =>
    rcases (concerns_some_iff is).mp concerns with rfl | ⟨-, around⟩
    · exact List.mem_cons_self
    · exact List.mem_cons_of_mem _ (List.mem_of_head? (parent ▸ around))

/-- A record that concerns none of the open regions leaves the account as it is. -/
theorem append (h : OpenAccount l frames ids)
    (same : ∀ k ∈ ids, Cancelled (l ++ [x]) k ↔ Cancelled l k) :
    OpenAccount (l ++ [x]) frames ids := by
  induction h with
  | nil => exact .nil
  | cons is kind parent inner noted _ ih =>
    rw [List.forall_mem_cons] at same
    obtain ⟨own, outer⟩ := same
    obtain ⟨inside, -⟩ := List.getElem?_eq_some_iff.mp is
    exact .cons ((List.getElem?_append_left inside).trans is) kind parent inner
      (noted.trans own.symm) (ih outer)

/-- A note in the record of a region that was left leaves the account of the others as it is. -/
theorem noteRecord {id : Nat} (h : OpenAccount l frames ids) (closed : id ∉ ids) (present : Bool) :
    OpenAccount (noteRecord l id present) frames ids := by
  induction h with
  | nil => exact .nil
  | cons is kind parent inner noted _ ih =>
    rw [List.mem_cons, not_or] at closed
    exact .cons ((getElem?_noteRecord_of_ne closed.1 present).trans is) kind parent inner
      (noted.trans cancelled_noteRecord_iff.symm) (ih closed.2)

/-- A cancellation that is recorded in the innermost open region is noted in the frames of the
regions that it concerns. -/
theorem noteCancel (h : OpenAccount l frames ids) (links : LinksBelow l.length l)
    (kind : x.kind = .cancel) (status : x.status = .analyzed) (parent : x.parent = ids.head?) :
    OpenAccount (l ++ [x]) (FrameStack.noteCancel frames) ids := by
  have below : ∀ k, x.parent = some k → k < l.length := by
    intro k is
    exact h.mem_lt k (List.mem_of_head? (parent ▸ is))
  have cancelled (i : Nat) : Cancelled (l ++ [x]) i ↔ Cancelled l i ∨ Concerns l ids.head? i := by
    rw [cancelled_append_iff links below, parent]
    simp only [kind, status, true_and]
  cases h with
  | nil => exact .nil
  | @cons f frames id ids z is kindOf parentOf inner noted outer =>
    have stays {k : Nat} {y : RegionReport} (is : l[k]? = some y) : (l ++ [x])[k]? = some y := by
      obtain ⟨inside, -⟩ := List.getElem?_eq_some_iff.mp is
      exact (List.getElem?_append_left inside).trans is
    have unconcerned (k : Nat) (hk : k ∈ ids)
        (elsewhere : z.kind = .sectionBlock → z.parent ≠ some k) :
        Cancelled (l ++ [x]) k ↔ Cancelled l k := by
      rw [cancelled, List.head?_cons, concerns_some_iff is]
      refine or_iff_left ?_
      rintro (rfl | ⟨inSection, around⟩)
      · exact Nat.lt_irrefl _ (inner _ hk)
      · exact elsewhere inSection around
    refine .cons (stays is) kindOf parentOf inner
      ⟨fun _ => (cancelled id).mpr (.inr (.direct rfl)), fun _ => rfl⟩ ?_
    split
    · rename_i inSection
      cases outer with
      | nil => exact .nil
      | @cons g frames id' ids y is' kind' parent' inner' _ outer' =>
        have here : Concerns l (some id) id' := .section rfl is (kindOf.trans inSection) parentOf
        refine .cons (stays is') kind' parent' inner'
          ⟨fun _ => (cancelled id').mpr (.inr here), fun _ => rfl⟩ (outer'.append fun k hk => ?_)
        refine unconcerned k (List.mem_cons_of_mem _ hk) fun _ around => ?_
        cases parentOf.symm.trans around
        exact Nat.lt_irrefl _ (inner' _ hk)
    · rename_i elsewhere
      refine outer.append fun k hk => unconcerned k hk fun inSection => ?_
      exact absurd (kindOf.symm.trans inSection) elsewhere

end OpenAccount

/-! ## The account of a walk -/

namespace Walk

variable {o : Options} {r : Region} {sole : Bool} {w w₁ : Walk} {id : Nat}

/-- Cancellations are accounted for: for the open regions in their frames, for the others in their
records. -/
structure Accounted (w : Walk) : Prop where
  links : LinksBelow w.regions.length w.regions
  opened : OpenAccount w.regions w.scope.stack.frames w.parents
  closed : ∀ i x, w.regions[i]? = some x → i ∉ w.parents →
    (x.cancelPresent = true ↔ Cancelled w.regions i)

theorem Accounted.parent_lt (h : w.Accounted) {x : RegionReport}
    (parent : x.parent = w.parents.head?) : ∀ k, x.parent = some k → k < w.regions.length := by
  intro k is
  exact h.opened.mem_lt k (List.mem_of_head? (parent ▸ is))

/-- A new record concerns open regions only. It is no parent yet, so that nothing concerns it. -/
theorem Accounted.record (h : w.Accounted) {x : RegionReport} (parent : x.parent = w.parents.head?)
    (uncancelled : x.cancelPresent = false) :
    LinksBelow (w.regions ++ [x]).length (w.regions ++ [x]) ∧
      ¬Cancelled (w.regions ++ [x]) w.regions.length ∧
      ∀ i y, (w.regions ++ [x])[i]? = some y → i ∉ w.parents →
        (y.cancelPresent = true ↔ Cancelled (w.regions ++ [x]) i) := by
  have below : LinksBelow w.regions.length (w.regions ++ [x]) := by
    intro y hy
    rcases List.mem_append.mp hy with hy | hy
    · exact h.links y hy
    · cases List.mem_singleton.mp hy
      exact h.parent_lt parent
  refine ⟨?_, below.not_cancelled, fun i y is closed => ?_⟩
  · intro y hy k is
    rw [List.length_append]
    exact Nat.lt_add_right _ (below y hy k is)
  · by_cases earlier : i < w.regions.length
    · rw [List.getElem?_append_left earlier] at is
      rw [h.closed i y is closed, cancelled_append_iff h.links (h.parent_lt parent), parent]
      exact (or_iff_left fun ⟨_, _, concerns⟩ => closed (h.opened.mem_of_concerns concerns)).symm
    · obtain ⟨last, -⟩ := List.getElem?_eq_some_iff.mp is
      rw [List.length_append, List.length_singleton] at last
      obtain rfl : i = w.regions.length := by omega
      rw [List.getElem?_concat_length] at is
      cases is
      simp [uncancelled, below.not_cancelled]

theorem accounted_start (decls : DeclTable) : (start decls).Accounted where
  links := by simp [start, LinksBelow]
  opened := .nil
  closed := by simp [start]

theorem Accounted.passed (h : w.Accounted) (passes : Passes r w w₁) : w₁.Accounted := by
  obtain ⟨x, regions, records, skipped⟩ := passes.record
  obtain ⟨links, -, closed⟩ := h.record records.parent records.uncancelled
  have frames : w₁.scope.stack.frames = w.scope.stack.frames := by
    cases passes with
    | intro _ _ stack => exact congrArg FrameStack.frames stack
  constructor
  · rwa [regions]
  · rw [regions, frames, passes.backAt.parents]
    refine h.opened.append fun k _ => ?_
    rw [cancelled_append_iff h.links (h.parent_lt records.parent)]
    exact or_iff_left fun ⟨_, status, _⟩ => skipped status
  · rwa [regions, passes.backAt.parents]

theorem Accounted.entered (h : w.Accounted) (enters : Enters o r sole w id w₁) : w₁.Accounted := by
  obtain ⟨x, regions, records, analyzed⟩ := enters.record
  obtain ⟨links, fresh, closed⟩ := h.record records.parent records.uncancelled
  obtain ⟨f, current⟩ := enters.exists_current
  have isLast : id = w.regions.length := by cases enters; rfl
  subst isLast
  have around : OpenAccount (w.regions ++ [x]) (w.scope.stack.noting r).frames w.parents := by
    unfold FrameStack.noting
    split
    · rename_i cancel
      rw [FrameStack.frames_markCancel current.hidden]
      exact h.opened.noteCancel h.links (records.kind.trans cancel) analyzed records.parent
    · rename_i other
      refine h.opened.append fun k _ => ?_
      rw [cancelled_append_iff h.links (h.parent_lt records.parent)]
      exact or_iff_left fun ⟨kind, _⟩ => other (records.kind.symm.trans kind)
  have unmarked : f.flags.cancelPresent = false := current.continues.cancelPresent
  constructor
  · rwa [regions]
  · rw [regions, current.inside.frames, current.parents]
    refine .cons List.getElem?_concat_length ?_ records.parent h.opened.mem_lt ?_ around
    · exact records.kind.trans current.continues.kind.symm
    · simp [unmarked, fresh]
  · intro i y is notOpen
    rw [current.parents, List.mem_cons, not_or] at notOpen
    rw [regions] at is ⊢
    exact closed i y is notOpen.2

theorem Accounted.left {around : List Nat} {f : Frame} {outer : List Frame} (h : w.Accounted)
    (parents : w.parents = id :: around) (inside : w.scope.stack.Inside f outer) :
    (w.left id f outer).Accounted := by
  have regions : (w.left id f outer).regions = noteRecord w.regions id f.flags.cancelPresent := rfl
  have parents' : (w.left id f outer).parents = around := by rw [Walk.left, parents, List.tail_cons]
  have opened := h.opened
  rw [parents, inside.frames] at opened
  cases opened with
  | cons is _ _ inner noted opened =>
    constructor
    · rw [regions, length_noteRecord]
      exact h.links.noteRecord id _
    · rw [regions, parents']
      exact opened.noteRecord (fun own => Nat.lt_irrefl _ (inner id own)) _
    · intro i y is' notOpen
      rw [regions] at is' ⊢
      rw [parents'] at notOpen
      rw [cancelled_noteRecord_iff]
      by_cases own : id = i
      · subst own
        cases (getElem?_noteRecord_self is _).symm.trans is'
        exact noted
      · rw [getElem?_noteRecord_of_ne own] at is'
        refine h.closed i y is' ?_
        rw [parents, List.mem_cons, not_or]
        exact ⟨Ne.symm own, notOpen⟩

/-- The account is kept through a whole walk. -/
theorem Runs.accounted {ts : List RegionTree} {w' : Walk} (run : Runs o ts w w') (h : w.Accounted) :
    w'.Accounted :=
  run.invariant .passed .entered .left h

end Walk

/-- A record says that a cancellation is present exactly where one was analysed. -/
theorem cancellations_accounted {o : Options} {p : Program} {report : Report}
    (ok : (analyze o p).1 = .ok report) (i : Nat) (x : RegionReport)
    (is : report.regions[i]? = some x) :
    x.cancelPresent = true ↔ Cancelled report.regions i := by
  obtain ⟨w, run, rfl⟩ := runs_of_analyze ok
  have accounted := run.accounted (Walk.accounted_start p.decls)
  have leftAll : w.parents = [] := (run.backAt rfl).parents
  exact accounted.closed i x is (leftAll ▸ List.not_mem_nil)

/-- Two sections, with a cancellation of `sections` in the first one. In the second one stand a
cancellation that may not stand there, and one that is put off. -/
theorem cancellations_accounted_sections :
    let p := Draft.program do
      let cancel ← Draft.region .cancel fun r => { r with cancelTarget := some .sections }
      let mismatch ← Draft.region .cancel fun r => { r with cancelTarget := some .forLoop }
      let deferred ← Draft.region .cancel fun r =>
        { r with cancelTarget := some .sections, dependent := true }
      let unusual ← Draft.block [mismatch, deferred]
      let first ← Draft.region .sectionBlock fun r => { r with body := some cancel }
      let second ← Draft.region .sectionBlock fun r => { r with body := some unusual }
      let both ← Draft.block [first, second]
      return [← Draft.region .sections fun r => { r with body := some both }]
    ∃ report, (analyze {} p).1 = .ok report ∧
      report.regions.map (fun x => (x.kind, x.status, x.cancelPresent)) =
        [(.sections, .analyzed, true), (.sectionBlock, .analyzed, true),
          (.cancel, .analyzed, false), (.sectionBlock, .analyzed, false),
          (.cancel, .invalidNesting, false), (.cancel, .deferred, false)] ∧
        Cancelled report.regions 0 ∧ ¬Cancelled report.regions 3 := by
  intro p
  obtain ⟨report, ok, rows⟩ :
      ∃ report, (analyze {} p).1 = .ok report ∧
        report.regions.map (fun x => (x.kind, x.status, x.cancelPresent)) =
          [(.sections, .analyzed, true), (.sectionBlock, .analyzed, true),
            (.cancel, .analyzed, false), (.sectionBlock, .analyzed, false),
            (.cancel, .invalidNesting, false), (.cancel, .deferred, false)] :=
    exists_report_of_decide _ (by decide +kernel)
  have noted (i : Nat) (kind : DirectiveKind) (status : RegionStatus) (present : Bool)
      (row : (report.regions.map fun x => (x.kind, x.status, x.cancelPresent))[i]? =
        some (kind, status, present)) :
      present = true ↔ Cancelled report.regions i := by
    rw [List.getElem?_map, Option.map_eq_some_iff] at row
    obtain ⟨x, is, fields⟩ := row
    cases fields
    exact cancellations_accounted ok i x is
  refine ⟨report, ok, rows, (noted 0 .sections .analyzed true ?_).mp rfl, fun cancelled => ?_⟩
  · rw [rows]
    rfl
  · have impossible := (noted 3 .sectionBlock .analyzed false (by rw [rows]; rfl)).mpr cancelled
    cases impossible

end Directives
