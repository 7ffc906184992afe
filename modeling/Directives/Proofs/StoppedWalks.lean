import Directives.Proofs.Visits
import Directives.Proofs.WholeNests
/-!
What stops an analysis. A walk ends in the first region that lists an undeclared variable, or for the
loops of which there is no room; nothing else stops it. Items are looked up in the table of declarations
as it is when the clauses are registered. The loops that the walk went through before have added
variables of the analysis to that table: an identity that the program does not declare may name one of
these.
-/

namespace Directives

namespace DeclTable

variable {t t' t'' : DeclTable}

/-- What is declared besides was added by the analysis, and no identity stands for another variable
than before. -/
structure SynthesizesTo (t t' : DeclTable) : Prop where
  extended : t.ExtendsTo t'
  synthesized : ∀ id d, t.size ≤ id.index → t'.get? id = some d → d.synthesized = true

namespace SynthesizesTo

theorem refl (t : DeclTable) : t.SynthesizesTo t where
  extended := .refl t
  synthesized id d outside is := by
    rw [get?, List.getElem?_eq_none outside] at is
    cases is

theorem trans (h : t.SynthesizesTo t') (h' : t'.SynthesizesTo t'') : t.SynthesizesTo t'' where
  extended := h.extended.trans h'.extended
  synthesized id d outside is := by
    by_cases inside : id.index < t'.size
    · rw [h'.extended.grows.get?_eq inside] at is
      exact h.synthesized id d outside is
    · exact h'.synthesized id d (Nat.le_of_not_lt inside) is

end SynthesizesTo

theorem synthesizesTo_synthesize (t : DeclTable) (name : String) (ty : Ty) (location : Location) :
    t.SynthesizesTo (t.synthesize name ty location).2 where
  extended := t.extendsTo_synthesize name ty location
  synthesized id d outside is := by
    rw [get?, synthesize, push, List.getElem?_append_right outside,
      List.getElem?_singleton] at is
    split at is
    · cases is
      rfl
    · cases is

theorem synthesizesTo_canonicalizeNest (o : Options) (r : Region) (decls : DeclTable) :
    decls.SynthesizesTo (canonicalizeNest o r decls).2 :=
  canonicalizeNest_invariant (P := decls.SynthesizesTo)
    (fun _ _ _ _ before => before.trans (synthesizesTo_synthesize ..)) o r (.refl _)

end DeclTable

/-! ## The items of one region -/

/-- The identity of the first item that is not in the table. -/
def undeclared? (decls : DeclTable) (items : List ClauseItem) : Option Nat :=
  (items.find? fun i => decls.size ≤ i.decl.index).map (·.decl.index)

section
variable {o : Options} {decls : DeclTable} {directive : DirectiveKind} {clause : ClauseKind}
  {item : ClauseItem} {items : List ClauseItem} {s s' : Scope} {e : Error} {r : Region}

theorem undeclared?_cons_of_lt (inside : item.decl.index < decls.size) :
    undeclared? decls (item :: items) = undeclared? decls items := by
  rw [undeclared?, List.find?_cons_of_neg (by simpa using inside), undeclared?]

theorem undeclared?_cons_of_size_le (outside : decls.size ≤ item.decl.index) :
    undeclared? decls (item :: items) = some item.decl.index := by
  rw [undeclared?, List.find?_cons_of_pos (by simpa using outside), Option.map_some]

theorem lt_of_undeclared?_eq_none (declared : undeclared? decls items = none) :
    ∀ item ∈ items, item.decl.index < decls.size := by
  intro item hitem
  have found := List.find?_eq_none.mp (Option.map_eq_none_iff.mp declared) item hitem
  simpa using found

theorem registerItem_of_size_le (outside : decls.size ≤ item.decl.index) :
    registerItem o decls directive clause item s =
      .error (.unknownDeclaration item.decl.index) := by
  have absent : decls.get? item.decl = none := List.getElem?_eq_none outside
  rw [registerItem, DeclTable.canonical_of_size_le outside, DeclTable.decl, absent]

theorem lt_of_registerItem (h : registerItem o decls directive clause item s = .ok s') :
    item.decl.index < decls.size := by
  by_contra outside
  rw [registerItem_of_size_le (Nat.le_of_not_lt outside)] at h
  cases h

theorem size_le_of_registerItem (h : registerItem o decls directive clause item s = .error e) :
    decls.size ≤ item.decl.index := by
  by_contra inside
  obtain ⟨d, found, -⟩ := DeclTable.exists_decl_canonical (Nat.lt_of_not_le inside)
  rw [registerItem, found] at h
  cases h

theorem undeclared?_eq_none_of_lt (declared : ∀ item ∈ items, item.decl.index < decls.size) :
    undeclared? decls items = none := by
  rw [undeclared?, List.find?_eq_none.mpr, Option.map_none]
  intro item hitem
  simpa using declared item hitem

/-- Items are registered up to the first that is not declared, and this one stops the registration. -/
theorem undeclared?_of_registerItems {listed : List (ClauseKind × ClauseItem)} :
    (∀ s', registerItems o decls directive listed s = .ok s' →
        undeclared? decls (listed.map (·.2)) = none) ∧
      ∀ e s', registerItems o decls directive listed s = .error (e, s') →
        ∃ n, e = .unknownDeclaration n ∧ undeclared? decls (listed.map (·.2)) = some n := by
  induction listed generalizing s with
  | nil =>
    refine ⟨fun _ _ => rfl, fun e s' h => ?_⟩
    cases h
  | cons first rest ih =>
    obtain ⟨clause, item⟩ := first
    rw [registerItems, List.map_cons]
    cases registered : registerItem o decls directive clause item s with
    | error e =>
      have outside := size_le_of_registerItem registered
      rw [registerItem_of_size_le outside] at registered
      cases registered
      refine ⟨fun s' h => ?_, fun e s' h => ?_⟩
      · cases h
      · cases h
        exact ⟨_, rfl, undeclared?_cons_of_size_le outside⟩
    | ok s₁ =>
      rw [undeclared?_cons_of_lt (lt_of_registerItem registered)]
      exact ih

theorem map_listed_items (r : Region) :
    (r.clauses.flatMap fun c => c.items.map (c.kind, ·)).map (·.2) = r.items := by
  rw [List.map_flatMap, Region.items]
  simp [Function.comp_def]

theorem undeclared?_of_registerClauses (h : registerClauses o decls r s = .ok s') :
    undeclared? decls r.items = none := by
  unfold registerClauses at h
  rw [← map_listed_items]
  exact undeclared?_of_registerItems.1 _ h

theorem undeclared?_of_registerClauses_error (h : registerClauses o decls r s = .error (e, s')) :
    ∃ n, e = .unknownDeclaration n ∧ undeclared? decls r.items = some n := by
  unfold registerClauses at h
  rw [← map_listed_items]
  exact undeclared?_of_registerItems.2 _ _ h

end

/-! ## The regions of a walk -/

/-- A region at which a walk arrives and whose clauses it registers, and the declarations that are in
the table then. -/
structure Registering where
  region : Region
  decls : DeclTable

namespace Registering

/-- The identity that stops the registration. -/
def undeclared? (a : Registering) : Option Nat := Directives.undeclared? a.decls a.region.items

/-- More loops are looked for in the region than there is room for. -/
def LacksRoom (o : Options) (a : Registering) : Prop :=
  a.region.kind.isLoopAssociated = true ∧ a.region.LacksRoom o

/-- The region stops a walk with an error. Its clauses come before its loops. -/
inductive StopsWith (o : Options) (a : Registering) : Error → Prop where
  | undeclared {n : Nat} (is : a.undeclared? = some n) : StopsWith o a (.unknownDeclaration n)
  | noRoom (declared : a.undeclared? = none) (lacks : a.LacksRoom o) : StopsWith o a .noRoom

/-- The region stops no walk. -/
structure Passes (o : Options) (a : Registering) : Prop where
  declared : a.undeclared? = none
  room : ¬a.LacksRoom o

section
variable {o : Options} {a : Registering} {e e' : Error} {n : Nat}

theorem StopsWith.unique (h : a.StopsWith o e) (h' : a.StopsWith o e') : e = e' := by
  cases h with
  | undeclared is =>
    cases h' with
    | undeclared is' => exact congrArg _ (Option.some.inj (is.symm.trans is'))
    | noRoom declared => cases is.symm.trans declared
  | noRoom declared =>
    cases h' with
    | undeclared is => cases declared.symm.trans is
    | noRoom => rfl

theorem Passes.not_stopsWith (h : a.Passes o) : ¬a.StopsWith o e := by
  intro stops
  cases stops with
  | undeclared is => cases h.declared.symm.trans is
  | noRoom _ lacks => exact h.room lacks

theorem stopsWith_unknownDeclaration : a.StopsWith o (.unknownDeclaration n) ↔ a.undeclared? = some n := by
  constructor
  · intro stops
    cases stops with
    | undeclared is => exact is
  · exact .undeclared

theorem stopsWith_noRoom (declared : a.undeclared? = none) :
    a.StopsWith o .noRoom ↔ a.LacksRoom o := by
  constructor
  · intro stops
    cases stops with
    | noRoom _ lacks => exact lacks
  · exact .noRoom declared

end

end Registering

namespace Walk

mutual

/-- The regions of a tree whose clauses a walk registers. -/
def treeRegistered (o : Options) : RegionTree → Walk → List Registering
  | .node r sole children, w =>
    match w.arrive o r sole with
    | .passed _ => []
    | .stopped _ _ => [⟨r, w.decls⟩]
    | .entered _ w' => ⟨r, w.decls⟩ :: forestRegistered o children w'

/-- The regions of trees that stand one after the other. -/
def forestRegistered (o : Options) : List RegionTree → Walk → List Registering
  | [], _ => []
  | t :: rest, w =>
    treeRegistered o t w ++
      match w.tree o t with
      | .ok w' => forestRegistered o rest w'
      | .error _ => []

end

end Walk

/-- The regions of a program whose clauses the walk over it registers. -/
def Program.registered (o : Options) (p : Program) : List Registering :=
  (Walk.start p.decls).forestRegistered o p.forest

namespace Walk

variable {o : Options} {r : Region} {sole : Bool} {w w₁ w' : Walk} {id : Nat} {e : Error}
  {l m : List Registering} {outcome : Outcome}

/-- How a walk ends that registers the clauses of the regions: the last of them stops it, or none
does. -/
inductive EndsAfter (o : Options) : List Registering → Outcome → Prop where
  | completed {l : List Registering} {w : Walk} (passes : ∀ a ∈ l, a.Passes o) : EndsAfter o l (.ok w)
  | stopped {before : List Registering} {a : Registering} {e : Error} {w : Walk}
      (passes : ∀ b ∈ before, b.Passes o) (stops : a.StopsWith o e) :
      EndsAfter o (before ++ [a]) (.error (e, w))

theorem EndsAfter.append (h : EndsAfter o l (.ok w)) (h' : EndsAfter o m outcome) :
    EndsAfter o (l ++ m) outcome := by
  cases h with
  | completed passes =>
    cases h' with
    | completed passes' => exact .completed (List.forall_mem_append.mpr ⟨passes, passes'⟩)
    | stopped passes' stops =>
      rw [← List.append_assoc]
      exact .stopped (List.forall_mem_append.mpr ⟨passes, passes'⟩) stops

theorem EndsAfter.passes (h : EndsAfter o l (.ok w)) : ∀ a ∈ l, a.Passes o := by
  cases h with
  | completed passes => exact passes

/-- The error of a walk is that of the region that stopped it. -/
theorem EndsAfter.error_iff {e' : Error} (h : EndsAfter o l (.error (e, w))) :
    e = e' ↔ ∃ a ∈ l, a.StopsWith o e' := by
  cases h with
  | @stopped before a _ _ passes stops =>
    constructor
    · rintro rfl
      exact ⟨a, List.mem_append_right _ List.mem_cons_self, stops⟩
    · rintro ⟨b, hb, stops'⟩
      rcases List.mem_append.mp hb with hb | hb
      · exact absurd stops' (passes b hb).not_stopsWith
      · cases List.mem_singleton.mp hb
        exact stops.unique stops'

/-- Loops for which there is no room are not registered. -/
theorem not_lacksRoom_of_registerLoops {nest : Option LoopNest}
    (loops : w.registerLoops o r = (.ok nest, w₁)) (associated : r.kind.isLoopAssociated = true) :
    ¬r.LacksRoom o := by
  cases registersLoops loops with
  | other other => exact absurd associated other
  | searched _ room => exact fun lacks => room (canonicalizeNest_eq_noRoom.mpr lacks)

/-- A walk from `w` that registers the clauses of the regions `l`: how it ends, and what the tables hold
meanwhile. -/
structure Registers (o : Options) (w : Walk) (l : List Registering) (outcome : Outcome) : Prop where
  ends : EndsAfter o l outcome
  tables : ∀ a ∈ l, w.decls.SynthesizesTo a.decls
  final : ∀ w', outcome = .ok w' → w.decls.SynthesizesTo w'.decls

namespace Registers

theorem none (grown : w.decls.SynthesizesTo w'.decls) : w.Registers o [] (.ok w') where
  ends := .completed nofun
  tables := nofun
  final := by
    intro w'' is
    cases is
    exact grown

theorem append (h : w.Registers o l (.ok w₁)) (h' : w₁.Registers o m outcome) :
    w.Registers o (l ++ m) outcome where
  ends := h.ends.append h'.ends
  tables := by
    have since := h.final w₁ rfl
    exact List.forall_mem_append.mpr
      ⟨h.tables, fun a ha => since.trans (h'.tables a ha)⟩
  final w' is := (h.final w₁ rfl).trans (h'.final w' is)

theorem entered (hidden : w.scope.stack.hidden = 0) (arrived : w.arrive o r sole = .entered id w₁) :
    w.Registers o [⟨r, w.decls⟩] (.ok w₁) := by
  obtain ⟨s, nest, w₂, clauses, loops, rfl⟩ := exists_registered hidden arrived
  have passes : Registering.Passes o ⟨r, w.decls⟩ :=
    ⟨undeclared?_of_registerClauses clauses,
      fun lacks => not_lacksRoom_of_registerLoops loops lacks.1 lacks.2⟩
  refine ⟨.completed (List.forall_mem_singleton.mpr passes), ?_, ?_⟩
  · exact List.forall_mem_singleton.mpr (.refl _)
  · intro w' is
    cases is
    have table : (w₂.conclude o r (w.blank r .legal .analyzed) nest).decls = w₂.decls := rfl
    rw [table]
    obtain ⟨-, kept⟩ | ⟨-, grown⟩ := loops_of_registerLoops loops
    · rw [kept]
      exact .refl _
    · rw [grown]
      exact DeclTable.synthesizesTo_canonicalizeNest o r w.decls

theorem stopped (hidden : w.scope.stack.hidden = 0) (arrived : w.arrive o r sole = .stopped e w₁) :
    w.Registers o [⟨r, w.decls⟩] (.error (e, w₁)) := by
  have stops : Registering.StopsWith o ⟨r, w.decls⟩ e := by
    obtain ⟨s, refused, -⟩ | ⟨s, clauses, loops⟩ := registered_of_stopped hidden arrived
    · obtain ⟨n, rfl, undeclared⟩ := undeclared?_of_registerClauses_error refused
      exact .undeclared undeclared
    · obtain ⟨⟨rfl, associated, found⟩, -⟩ := noRoom_of_registerLoops loops
      exact .noRoom (undeclared?_of_registerClauses clauses)
        ⟨associated, canonicalizeNest_eq_noRoom.mp found⟩
  have ends : EndsAfter o ([] ++ [⟨r, w.decls⟩]) (.error (e, w₁)) := .stopped nofun stops
  refine ⟨ends, ?_, nofun⟩
  exact List.forall_mem_singleton.mpr (.refl _)

end Registers

mutual

theorem registers_tree (t : RegionTree) {w : Walk} (hidden : w.scope.stack.hidden = 0) :
    w.Registers o (w.treeRegistered o t) (w.tree o t) := by
  match t with
  | .node r sole children =>
    have arrives := arrives_arrive o r sole hidden
    rw [treeRegistered, tree]
    cases arrived : w.arrive o r sole with
    | passed w₁ =>
      rw [arrived] at arrives
      cases arrives with
      | passed passes =>
        cases passes
        exact .none (.refl _)
    | stopped e w₁ => exact .stopped hidden arrived
    | entered id w₁ =>
      rw [arrived] at arrives
      cases arrives with
      | entered enters =>
        obtain ⟨_, current⟩ := enters.exists_current
        have first := Registers.entered hidden arrived
        have inner : w₁.Registers o (w₁.forestRegistered o children) (w₁.forest o children) :=
          registers_forest children current.inside.hidden
        have both := first.append inner
        dsimp only
        cases walked : w₁.forest o children with
        | error stopped =>
          rw [walked] at both
          exact both
        | ok w₂ =>
          rw [walked] at both
          -- To leave the region changes no table.
          have back := (Runs.of_forest children current.inside.hidden walked).backAt
            current.inside.hidden
          obtain ⟨f, outer, again⟩ := current.again back
          have leaves : w₂.decls.SynthesizesTo (w₂.left id f outer).decls := .refl w₂.decls
          have last := both.append (.none leaves)
          dsimp only
          rw [leave_of_inside again]
          rwa [List.append_nil] at last

theorem registers_forest (ts : List RegionTree) {w : Walk} (hidden : w.scope.stack.hidden = 0) :
    w.Registers o (w.forestRegistered o ts) (w.forest o ts) := by
  match ts with
  | [] => exact .none (.refl _)
  | t :: rest =>
    have first : w.Registers o (w.treeRegistered o t) (w.tree o t) := registers_tree t hidden
    rw [forestRegistered, forest]
    cases walked : w.tree o t with
    | error stopped =>
      rw [walked] at first
      rw [List.append_nil]
      exact first
    | ok w₁ =>
      rw [walked] at first
      have back := (Runs.of_tree t hidden walked .done).backAt hidden
      exact first.append (registers_forest rest back.hidden)

end

end Walk

section
variable {o : Options} {p : Program} {e : Error}

theorem registers_start (o : Options) (p : Program) :
    (Walk.start p.decls).Registers o (p.registered o) ((Walk.start p.decls).forest o p.forest) :=
  Walk.registers_forest (o := o) p.forest rfl

/-- An analysis with valid options fails in the region that stops the walk. -/
theorem analyze_eq_error_iff (valid : o.validate = .ok ()) :
    (analyze o p).1 = .error e ↔ ∃ a ∈ p.registered o, a.StopsWith o e := by
  have ends := (registers_start o p).ends
  cases hrun : (Walk.start p.decls).forest o p.forest with
  | error stopped =>
    obtain ⟨e', w⟩ := stopped
    rw [hrun] at ends
    have result : (analyze o p).1 = .error e' := by
      rw [analyze, valid]
      dsimp only
      rw [hrun]
    rw [result, ← ends.error_iff, Except.error.injEq]
  | ok w =>
    rw [hrun] at ends
    rw [analyze_of_runs valid hrun]
    constructor
    · intro failed
      cases failed
    · rintro ⟨a, ha, stops⟩
      exact absurd stops (ends.passes a ha).not_stopsWith

end

/-- An analysis with valid options fails at the first item that is not in the table as it is when its
region is registered. What is in that table is declared by the program or added by the analysis. -/
theorem unknown_declaration_iff {o : Options} (p : Program) (valid : o.validate = .ok ()) :
    (∀ n, (analyze o p).1 = .error (.unknownDeclaration n) ↔
        ∃ a ∈ p.registered o, a.undeclared? = some n) ∧
      ∀ a ∈ p.registered o, p.decls.SynthesizesTo a.decls := by
  refine ⟨fun n => ?_, (registers_start o p).tables⟩
  simp only [analyze_eq_error_iff valid, Registering.stopsWith_unknownDeclaration]

/-- After a loop, for which two variables are added to the one that is declared, a region lists `#3`. -/
theorem unknown_declaration_iff_after_loop :
    let p := Draft.program do
      let i ← Draft.functionLocal "i" .int32
      let loop ← Draft.countedLoop i (← Draft.int 0) (← Draft.int 8) (← Draft.useVars [i])
      let loops ← Draft.region .forLoop fun r => { r with body := some loop }
      return [loops, ← Draft.region .parallel (·.withList .priv [⟨3⟩])]
    (p.registered {}).map (fun a => (a.region.kind, a.decls.size)) =
        [(.forLoop, 1), (.parallel, 3)] ∧
      (analyze {} p).1 = .error (.unknownDeclaration 3) := by
  intro p
  refine ⟨by decide +kernel, ((unknown_declaration_iff p rfl).1 3).mpr ?_⟩
  decide +kernel

/-- After the same loop, a region may list `#1`, which the program does not declare. -/
theorem undeclared_item_accepted :
    let p := Draft.program do
      let i ← Draft.functionLocal "i" .int32
      let loop ← Draft.countedLoop i (← Draft.int 0) (← Draft.int 8) (← Draft.useVars [i])
      let loops ← Draft.region .forLoop fun r => { r with body := some loop }
      return [loops, ← Draft.region .parallel (·.withList .priv [⟨1⟩])]
    (∃ a ∈ p.registered {}, ∃ item ∈ a.region.items, p.decls.size ≤ item.decl.index) ∧
      ∃ report, (analyze {} p).1 = .ok report := by
  intro p
  obtain ⟨report, ok, -⟩ : ∃ report, (analyze {} p).1 = .ok report ∧ report.regions.length = 2 :=
    exists_report_of_decide _ (by decide +kernel)
  exact ⟨by decide +kernel, report, ok⟩

/-! ## Analyses that come to their end -/

/-- Every variable that a clause of the program lists is in its table of declarations. -/
def Program.ItemsDeclared (p : Program) : Prop :=
  ∀ r ∈ p.regions, ∀ item ∈ r.items, item.decl.index < p.decls.size

instance (p : Program) : Decidable p.ItemsDeclared :=
  inferInstanceAs (Decidable (∀ r ∈ p.regions, ∀ item ∈ r.items, _ < _))

namespace Walk

variable {o : Options}

mutual

theorem treeRegistered_sublist (t : RegionTree) (w : Walk) :
    ((w.treeRegistered o t).map Registering.region).Sublist t.regions := by
  match t with
  | .node r sole children =>
    rw [treeRegistered, RegionTree.regions]
    cases w.arrive o r sole with
    | passed => exact List.nil_sublist _
    | stopped => exact (List.nil_sublist _).cons_cons r
    | entered _ w₁ => exact (forestRegistered_sublist children w₁).cons_cons r

theorem forestRegistered_sublist (ts : List RegionTree) (w : Walk) :
    ((w.forestRegistered o ts).map Registering.region).Sublist (regionsOfForest ts) := by
  match ts with
  | [] => exact List.nil_sublist _
  | t :: rest =>
    rw [forestRegistered, regionsOfForest, List.map_append]
    refine (treeRegistered_sublist t w).append ?_
    cases w.tree o t with
    | ok w₁ => exact forestRegistered_sublist rest w₁
    | error => exact List.nil_sublist _

end

end Walk

section
variable {o : Options} {p : Program} {e : Error}

/-- Where every item is declared, the clauses of no region stop the walk. -/
theorem undeclared?_of_itemsDeclared (declared : p.ItemsDeclared) {a : Registering}
    (ha : a ∈ p.registered o) : a.undeclared? = none := by
  have ofProgram : a.region ∈ p.regions :=
    (Walk.forestRegistered_sublist p.forest _).subset (List.mem_map_of_mem ha)
  have table := ((registers_start o p).tables a ha).extended.grows.size_le
  exact undeclared?_eq_none_of_lt fun item hitem =>
    Nat.lt_of_lt_of_le (declared a.region ofProgram item hitem) table

theorem Options.isStackMisuse_of_validate (h : o.validate = .error e) : e.isStackMisuse = false := by
  unfold validate at h
  split at h <;> cases h
  rfl

theorem Registering.StopsWith.isStackMisuse {a : Registering} (h : a.StopsWith o e) :
    e.isStackMisuse = false := by
  cases h <;> rfl

end

/-- No analysis misuses the stack of open regions. With valid options and declared items it comes to its
end, unless it arrives at a region for the loops of which there is no room. -/
theorem analyze_completes_iff (o : Options) (p : Program) :
    (∀ e, (analyze o p).1 = .error e → e.isStackMisuse = false) ∧
      (o.validate = .ok () → p.ItemsDeclared →
        ((∃ report, (analyze o p).1 = .ok report) ↔ ∀ a ∈ p.registered o, ¬a.LacksRoom o) ∧
        ((analyze o p).1 = .error .noRoom ↔ ∃ a ∈ p.registered o, a.LacksRoom o)) := by
  constructor
  · intro e failed
    cases valid : o.validate with
    | error e' =>
      rw [analyze, valid] at failed
      cases failed
      exact Options.isStackMisuse_of_validate valid
    | ok =>
      obtain ⟨a, -, stops⟩ := (analyze_eq_error_iff valid).mp failed
      exact stops.isStackMisuse
  · intro valid declared
    have lacking : (analyze o p).1 = .error .noRoom ↔ ∃ a ∈ p.registered o, a.LacksRoom o := by
      rw [analyze_eq_error_iff valid]
      constructor
      · rintro ⟨a, ha, stops⟩
        exact ⟨a, ha, (Registering.stopsWith_noRoom (undeclared?_of_itemsDeclared declared ha)).mp stops⟩
      · rintro ⟨a, ha, lacks⟩
        exact ⟨a, ha, .noRoom (undeclared?_of_itemsDeclared declared ha) lacks⟩
    refine ⟨⟨?_, fun room => ?_⟩, lacking⟩
    · rintro ⟨report, ok⟩ a ha lacks
      rw [lacking.mpr ⟨a, ha, lacks⟩] at ok
      cases ok
    · cases result : (analyze o p).1 with
      | ok report => exact ⟨report, rfl⟩
      | error e =>
        obtain ⟨a, ha, stops⟩ := (analyze_eq_error_iff valid).mp result
        have passes : a.Passes o := ⟨undeclared?_of_itemsDeclared declared ha, room a ha⟩
        exact absurd stops passes.not_stopsWith

/-- A variable that is private in `parallel` may not be listed as firstprivate in `single` inside it,
which is found out while a frame is hidden; a variable that nothing declares stops the analysis. -/
theorem analyze_completes_iff_hidden :
    let program (outside : Nat) := Draft.program do
      let x ← Draft.functionLocal "x" .int32
      let single ← Draft.region .single (·.withList .firstprivate [x, ⟨x.index + outside⟩])
      return [← Draft.region .parallel fun r => { r.withList .priv [x] with body := some single }]
    ((program 0).ItemsDeclared ∧ ∃ report, (analyze {} (program 0)).1 = .ok report) ∧
      ∃ e, (analyze {} (program 1)).1 = .error e ∧ e.isStackMisuse = false := by
  intro program
  have declared : (program 0).ItemsDeclared := by decide +kernel
  have noLoops : ∀ a ∈ (program 0).registered {}, a.region.kind.isLoopAssociated = false := by
    decide +kernel
  have failed : (analyze {} (program 1)).1.isOk = false := by decide +kernel
  refine ⟨⟨declared, ((analyze_completes_iff {} (program 0)).2 rfl declared).1.mpr ?_⟩, ?_⟩
  · intro a ha lacks
    exact Bool.false_ne_true ((noLoops a ha).symm.trans lacks.1)
  · cases stopped : (analyze {} (program 1)).1 with
    | error e => exact ⟨e, rfl, (analyze_completes_iff {} (program 1)).1 e stopped⟩
    | ok report =>
      rw [stopped] at failed
      cases failed

/-- `collapse(2 ^ 62)` asks for more levels than there is room for, and no report is made. -/
theorem analysis_dies_of_depth :
    let p := Draft.program do
      let i ← Draft.functionLocal "i" .int32
      let loop ← Draft.countedLoop i (← Draft.int 0) (← Draft.int 8) (← Draft.useVars [i])
      return [← Draft.region .forLoop fun r =>
        { r.withMark (.collapse (.ofInt 4611686018427387904 .int64 r.location)) with
          body := some loop }]
    ({} : Options).validate = .ok () ∧ p.ItemsDeclared ∧ (analyze {} p).1 = .error .noRoom := by
  intro p
  exact ⟨rfl, by decide +kernel, rfl⟩

end Directives
