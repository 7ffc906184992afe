import Directives.Proofs.DemandedVariables
/-!
Which variables are local to a region. A region treats a variable as its own if a declaration statement
in its body declares it, whatever blocks, loops, branches and nested regions stand around the statement.
Only expressions are not looked into: a variable that is declared in the body of a closure is not local,
although the references there count for the region.
-/

namespace Directives

namespace Part

/-- The part declares the variable, in itself or in parts inside it, of which only those count that are
`entered`. -/
inductive Declares (entered : Part → Prop) (id : DeclId) : Part → Prop where
  | here {loc inits i} (listed : i ∈ inits) (is : i.decl = id) :
      Declares entered id (.stmt (.decl loc inits))
  | inside {p q} (part : q ∈ p.parts) (enters : entered q) (declares : Declares entered id q) :
      Declares entered id p

def IsStmt : Part → Prop
  | .stmt _ => True
  | .expr _ => False

theorem declares_iff_of_not_decl {entered : Part → Prop} {id : DeclId} {p : Part}
    (other : ∀ loc inits, p ≠ .stmt (.decl loc inits)) :
    p.Declares entered id ↔ ∃ q ∈ p.parts, entered q ∧ q.Declares entered id := by
  constructor
  · intro h
    cases h with
    | here => exact absurd rfl (other _ _)
    | inside part enters declares => exact ⟨_, part, enters, declares⟩
  · rintro ⟨q, part, enters, declares⟩
    exact .inside part enters declares

end Part

/-! ## What is collected -/

section
variable {id : DeclId} {ps qs : List Part} {l m : List DeclId}

/-- The variable is listed exactly where a statement among the parts declares it outside of
expressions. -/
def ListsDeclared (id : DeclId) (ps : List Part) (l : List DeclId) : Prop :=
  id ∈ l ↔ ∃ q ∈ ps, q.IsStmt ∧ q.Declares Part.IsStmt id

namespace ListsDeclared

theorem exprs (es : List Expr) : ListsDeclared id (es.map .expr) [] := by
  refine ⟨fun h => absurd h List.not_mem_nil, ?_⟩
  rintro ⟨q, part, statement, -⟩
  obtain ⟨e, -, rfl⟩ := List.mem_map.mp part
  exact statement.elim

theorem append (h : ListsDeclared id ps l) (h' : ListsDeclared id qs m) :
    ListsDeclared id (ps ++ qs) (l ++ m) := by
  unfold ListsDeclared at h h' ⊢
  simp only [List.mem_append, or_and_right, exists_or, h, h']

theorem single {s : Stmt} (other : ∀ loc inits, s ≠ .decl loc inits)
    (h : ListsDeclared id s.parts l) : ListsDeclared id [.stmt s] l := by
  have declares : (Part.stmt s).Declares Part.IsStmt id ↔
      ∃ q ∈ s.parts, q.IsStmt ∧ q.Declares Part.IsStmt id :=
    Part.declares_iff_of_not_decl fun loc inits same => other loc inits (Part.stmt.inj same)
  unfold ListsDeclared at h ⊢
  rw [h]
  simp only [List.mem_singleton, exists_eq_left, declares]
  exact ⟨fun inside => ⟨trivial, inside⟩, And.right⟩

theorem decl (loc : Location) (inits : List DeclInit) :
    ListsDeclared id [.stmt (.decl loc inits)] (inits.map (·.decl)) := by
  unfold ListsDeclared
  simp only [List.mem_map, List.mem_singleton, exists_eq_left]
  constructor
  · rintro ⟨i, listed, is⟩
    exact ⟨trivial, .here listed is⟩
  · rintro ⟨-, declares⟩
    cases declares with
    | here listed is => exact ⟨_, listed, is⟩
    | inside part enters =>
      -- The parts of a declaration statement are its initializers.
      obtain ⟨e, -, rfl⟩ := List.mem_map.mp part
      exact enters.elim

end ListsDeclared

open ListsDeclared

mutual

theorem Stmt.listsDeclared (s : Stmt) : ListsDeclared id [.stmt s] s.declared := by
  match s with
  | .expr _ e => exact .single nofun (exprs [e])
  | .decl loc inits => exact .decl loc inits
  | .block _ stmts => exact .single nofun (listsDeclared_stmts stmts)
  | .forLoop _ init cond inc body =>
    have header := ((listsDeclared_stmt? init).append (exprs cond.toList)).append (exprs inc.toList)
    rw [List.append_nil, List.append_nil] at header
    exact .single nofun (header.append body.listsDeclared)
  | .whileLoop _ cond body => exact .single nofun ((exprs [cond]).append body.listsDeclared)
  | .branch _ cond a b =>
    exact .single nofun (((exprs [cond]).append a.listsDeclared).append (listsDeclared_stmt? b))
  | .region _ ⟨_, _, _, _, body, _, _⟩ => exact .single nofun (listsDeclared_stmt? body)
  | .null _ => exact .single nofun (exprs [])

theorem listsDeclared_stmts (stmts : List Stmt) :
    ListsDeclared id (stmts.map .stmt) (declaredInStmts stmts) := by
  match stmts with
  | [] => exact exprs []
  | s :: rest => exact s.listsDeclared.append (listsDeclared_stmts rest)

theorem listsDeclared_stmt? (s : Option Stmt) :
    ListsDeclared id (s.toList.map .stmt) (declaredInStmt? s) := by
  match s with
  | none => exact exprs []
  | some s => exact s.listsDeclared

end

end

/-- The body of the region declares the variable. -/
def Region.Declares (entered : Part → Prop) (canon : DeclId → DeclId) (r : Region) (c : DeclId) :
    Prop :=
  ∃ body, r.body = some body ∧ ∃ id, canon id = c ∧ Part.Declares entered id (.stmt body)

/-- Local to a region are the variables with automatic storage that its body declares outside of
expressions. -/
theorem Region.mem_locals_iff {decls : DeclTable} {r : Region} {c : DeclId} {d : VarDecl}
    (hd : decls.get? c = some d) :
    c ∈ r.locals decls ↔ r.Declares Part.IsStmt decls.canonical c ∧ d.isAutomatic := by
  have declared (s : Stmt) (id : DeclId) :
      id ∈ s.declared ↔ Part.Declares Part.IsStmt id (.stmt s) := by
    have listed : ListsDeclared id [.stmt s] s.declared := s.listsDeclared
    unfold ListsDeclared at listed
    rw [listed]
    simp [Part.IsStmt]
  unfold locals Declares
  rw [List.mem_filter, hd, Option.any_some, List.mem_map]
  refine and_congr_left fun _ => ?_
  cases r.body with
  | none => simp
  | some body =>
    simp only [Option.map_some, Option.getD_some, Option.some.injEq, exists_eq_left', declared]
    exact exists_congr fun id => and_comm

/-! ## What a region makes of its local variables -/

namespace Frame

variable {o : Options} {f : Frame} {var : DeclId} {d : VarDecl} {i : Nat} {a : Attribute}

theorem answer_of_isLocal (noCounter : f.counter? var = none) (isLocal : f.isLocal var = true) :
    f.answer o var d i = .settled (.resolved
      { kind := .priv, frame := some i, location := some d.location, origin := .predetermined }) := by
  rw [answer, noCounter, isLocal]
  rfl

/-- Apart from loop counters and local variables, the nature of a variable makes it shared if
anything. -/
theorem kind_of_answer_predetermined (noCounter : f.counter? var = none)
    (notLocal : f.isLocal var = false) (h : f.answer o var d i = .settled (.resolved a))
    (fixed : a.origin = .predetermined) : a.kind = .shared := by
  have entry (e : Entry) : (e.toAttribute i).origin ≠ .predetermined := by
    unfold Entry.toAttribute
    dsimp only
    split <;> nofun
  by_cases const : (o.sharesConst && d.ty.isReadOnly) = true
  · rw [answer, noCounter, notLocal, const] at h
    simp only [Bool.false_eq_true, ↓reduceIte, answer.entryIf] at h
    split at h
    · split at h
      · cases h
        exact absurd fixed (entry _)
      · cases h
        rfl
    · cases h
      rfl
  · have leavesOpen : f.LeavesOpen o var d := ⟨noCounter, notLocal, Bool.eq_false_iff.mpr const⟩
    cases he : f.entryOf? var with
    | some e =>
      rw [answer_of_entry leavesOpen he] at h
      cases h
      exact absurd fixed (entry e)
    | none =>
      simp only [answer, noCounter, notLocal, const, he, Bool.false_eq_true, ↓reduceIte] at h
      split at h
      · cases h
      · rw [(defaultAnswer_eq_resolved h).2] at fixed
        cases fixed

end Frame

section
variable {o : Options} {decls : DeclTable} {f : Frame} {outer : List Frame} {c : DeclId} {d : VarDecl}
  {a : Attribute}

theorem resolveDeclared_of_isLocal (noCounter : f.counter? c = none) (isLocal : f.isLocal c = true) :
    resolveDeclared o c d (f :: outer) = .resolved
      { kind := .priv, frame := some outer.length, location := some d.location,
        origin := .predetermined } := by
  rw [resolveDeclared, Frame.answer_of_isLocal noCounter isLocal]

/-- A variable that is no counter is private to a region by its nature only where it is local to
it. -/
theorem isLocal_of_resolveDeclared (noCounter : f.counter? c = none)
    (h : resolveDeclared o c d (f :: outer) = .resolved a) (priv : a.kind = .priv)
    (fixed : a.origin = .predetermined) (here : a.frame = some outer.length) :
    f.isLocal c = true := by
  refine Classical.byContradiction fun notLocal => ?_
  rw [Bool.not_eq_true] at notLocal
  rw [resolveDeclared] at h
  split at h
  · rename_i r answer
    subst h
    have shared := Frame.kind_of_answer_predetermined noCounter notLocal answer fixed
    rw [priv] at shared
    cases shared
  · rw [(Promotion.frame_of_resolved h).2] at fixed
    cases fixed
  · exact absurd (frame_lt_of_resolveDeclared h here) (Nat.lt_irrefl _)

end

/-- The attribute is that of a variable that belongs to the region at this depth: it is private by the
nature of the variable. -/
def Attribute.IsOwn (a : Attribute) (depth : Nat) : Prop :=
  a.kind = .priv ∧ a.origin = .predetermined ∧ a.frame = some depth

/-- The region treats the variable as its own: it does not ask what it is, and if the variable has an
attribute there, it is that of a variable of the region. -/
structure Visit.TreatsAsLocal (v : Visit) (x : RegionReport) (c : DeclId) : Prop where
  unasked : ¬ ∃ e ∈ v.emitted, e.LeavesUnresolved c
  own : ∀ a ∈ x.attributes, a.var = c → a.attr.IsOwn x.depth

/-- A clause of the region lists the variable, or a reference to it reaches the region. -/
def Region.Mentions (canon : DeclId → DeclId) (r : Region) (c : DeclId) : Prop :=
  (∃ i ∈ r.items, canon i.decl = c) ∨ r.IsReached canon c

/-- A region is asked about the counters of its loops and the variables that it mentions. -/
theorem mem_regionVariables_iff {decls : DeclTable} {r : Region} {nest : Option LoopNest}
    {c : DeclId} :
    c ∈ regionVariables decls r nest ↔
      c ∈ ownCounters decls nest ∨ r.Mentions decls.canonical c := by
  have reached : (∃ occ ∈ r.references decls, decls.canonical occ.1 = c) ↔
      r.IsReached decls.canonical c := by
    rw [Region.isReached_iff, Region.references]
    cases r.body with
    | none => simp
    | some body =>
      refine exists_congr fun occ => and_congr_right fun listed => ?_
      rw [canonical_of_mem_referencedVariables listed]
  rw [Region.Mentions, ← reached, regionVariables, mem_distinct, ownCounters]
  simp only [List.map_append, List.mem_append, List.map_map, List.mem_map, Function.comp_apply,
    List.not_mem_nil, not_false_eq_true, and_true, Region.references, or_assoc]

section
variable {o : Options} {decls : DeclTable} {v : Visit} {x : RegionReport} {w₂ : Walk}
  {nest : Option LoopNest} {f f' : Frame} {outer : List Frame} {c : DeclId} {d : VarDecl}

theorem Walk.Entrance.isLocal_iff (entrance : Entrance o v.region v.before w₂ v.after nest f f' outer)
    (since : decls.ExtendsTo v.before.decls) (hd : decls.get? c = some d) (automatic : d.isAutomatic)
    (noCounter : c ∉ ownCounters w₂.decls nest) :
    f.isLocal c = true ↔ v.region.Declares Part.IsStmt decls.canonical c := by
  rw [entrance.isLocal, decide_eq_true noCounter, Bool.and_true, decide_eq_true_iff,
    mem_locals_congr since hd, Region.mem_locals_iff hd, and_iff_left automatic]

/-- Inference has nothing to ask about local variables. -/
theorem Walk.Entrance.unasked_of_isLocal
    (entrance : Entrance o v.region v.before w₂ v.after nest f f' outer)
    (canonical : w₂.decls.canonical c = c) (hd : w₂.decls.get? c = some d)
    (isLocal : f.isLocal c = true) : ¬ ∃ e ∈ v.emitted, e.LeavesUnresolved c := by
  have fixed : ¬ f.LeavesOpen o c d := fun leavesOpen =>
    Bool.false_ne_true (leavesOpen.isLocal.symm.trans isLocal)
  rw [entrance.leavesUnresolved_iff]
  rintro ⟨-, d', hd', context, inferred⟩
  cases hd.symm.trans hd'
  rw [infer_of_not_leavesOpen entrance.registered canonical hd fixed] at inferred
  cases inferred

end

/-- Of the variables with automatic storage that do not count its loops, a region treats those as its
own that its body declares outside of expressions, and they have an attribute wherever it mentions
them. No attribute of another variable is that of a variable of the region. -/
theorem declared_variables_local {o : Options} {p : Program} {report : Report}
    (ok : (analyze o p).1 = .ok report) :
    List.Forall₂ (fun v x => v.Records x ∧
        (x.status = .analyzed → ∀ c d, p.decls.get? c = some d → p.decls.canonical c = c →
          d.isAutomatic → d.threadprivate = false → c ∉ ownCounters p.decls x.nest →
            (v.region.Declares Part.IsStmt p.decls.canonical c → v.TreatsAsLocal x c ∧
              (v.region.Mentions p.decls.canonical c → ∃ a ∈ x.attributes, a.var = c)) ∧
            (¬ v.region.Declares Part.IsStmt p.decls.canonical c →
              ∀ a ∈ x.attributes, a.var = c → ¬ a.attr.IsOwn x.depth)))
      (p.visits o) report.regions := by
  refine (forall₂_visits ok).imp fun v x between => ⟨between.records, ?_⟩
  intro analyzed c d hd canonical automatic notThreadprivate noCounter
  obtain ⟨w₂, f, f', outer, entrance, depth, attributes⟩ := between.exists_entrance analyzed
  have extended : p.decls.ExtendsTo w₂.decls := between.since.trans entrance.extendsTo
  have hd₂ : w₂.decls.get? c = some d := extended.get?_eq_some hd
  have canonical₂ : w₂.decls.canonical c = c := by rw [extended.canonical, canonical]
  rw [← ownCounters_congr extended.canonical] at noCounter
  have isLocal := entrance.isLocal_iff between.since hd automatic noCounter
  -- Inference leaves the marks as they are, and the attributes are those after inference.
  have isLocal' : f'.isLocal c = f.isLocal c := by
    rw [Frame.isLocal, entrance.marks.locals, Frame.isLocal]
  have counter : f'.counter? c = none := by
    rw [Frame.counter?, entrance.marks.counters, ← Frame.counter?, entrance.counter?,
      if_neg noCounter]
  have resolves : resolve o w₂.decls (f' :: outer) c = resolveDeclared o c d (f' :: outer) :=
    resolve_of_canonical canonical₂ hd₂ notThreadprivate
  constructor
  · intro declared
    have own := isLocal.mpr declared
    have resolved : resolveDeclared o c d (f' :: outer) = .resolved _ :=
      resolveDeclared_of_isLocal counter (isLocal'.trans own)
    refine ⟨⟨entrance.unasked_of_isLocal canonical₂ hd₂ own, fun a listed same => ?_⟩,
      fun mentions => ?_⟩
    · have asked := ((attributes a).mp listed).2
      rw [same, resolves, resolved] at asked
      rw [← Resolution.resolved.inj asked, depth]
      exact ⟨rfl, rfl, rfl⟩
    · rw [← extended.canonical] at mentions
      exact ⟨_, (attributes ⟨c, _⟩).mpr
        ⟨mem_regionVariables_iff.mpr (.inr mentions), resolves.trans resolved⟩, rfl⟩
  · rintro undeclared a listed same ⟨priv, fixed, here⟩
    have asked := ((attributes a).mp listed).2
    rw [same, resolves] at asked
    refine undeclared (isLocal.mp ?_)
    rw [← isLocal']
    exact isLocal_of_resolveDeclared counter asked priv fixed (depth ▸ here)

/-- The counter that the header of a loop declares is local to the parallel region around the loop, and
so is the variable that the body of the loop declares. The variable of the closure is not. -/
theorem declared_variables_local_header :
    let p := Draft.program do
      let i ← Draft.blockLocal "i" .int32
      let x ← Draft.blockLocal "x" .int32
      let y ← Draft.blockLocal "y" .int32
      let body ← Draft.block [← Draft.declStmt x none, ← Draft.useVars [i, x]]
      let loop ← Draft.forLoop (← Draft.declStmt i (some (← Draft.int 0)))
        (.mkBinary .lt (← Draft.var i) (← Draft.int 8)) (← Draft.unary .postInc i) body
      let loops ← Draft.region .forLoop fun r => { r with body := some loop }
      let inner ← Draft.block [← Draft.declStmt y none, ← Draft.useVars [y]]
      let stmts ← Draft.block [loops, ← Draft.exprStmt (← Draft.closure inner)]
      return [← Draft.region .parallel fun r => { r with body := some stmts }]
    ∃ report, (analyze {} p).1 = .ok report ∧
      report.regions.map (fun x => (x.status, x.attributes.map fun a =>
        (a.var, a.attr.kind, a.attr.origin))) =
          [(.analyzed, [(⟨0⟩, .priv, .predetermined), (⟨1⟩, .priv, .predetermined),
              (⟨2⟩, .shared, .implicit)]),
            (.analyzed, [(⟨0⟩, .priv, .predetermined), (⟨1⟩, .priv, .predetermined)])] ∧
      List.Forall₂ (fun v x => v.Records x ∧
          (x.status = .analyzed → ∀ c d, p.decls.get? c = some d → p.decls.canonical c = c →
            d.isAutomatic → d.threadprivate = false → c ∉ ownCounters p.decls x.nest →
              (v.region.Declares Part.IsStmt p.decls.canonical c → v.TreatsAsLocal x c ∧
                (v.region.Mentions p.decls.canonical c → ∃ a ∈ x.attributes, a.var = c)) ∧
              (¬ v.region.Declares Part.IsStmt p.decls.canonical c →
                ∀ a ∈ x.attributes, a.var = c → ¬ a.attr.IsOwn x.depth)))
        (p.visits {}) report.regions := by
  intro p
  obtain ⟨report, ok, attributes⟩ : ∃ report, (analyze {} p).1 = .ok report ∧
      report.regions.map (fun x => (x.status, x.attributes.map fun a =>
        (a.var, a.attr.kind, a.attr.origin))) =
          [(.analyzed, [(⟨0⟩, .priv, .predetermined), (⟨1⟩, .priv, .predetermined),
              (⟨2⟩, .shared, .implicit)]),
            (.analyzed, [(⟨0⟩, .priv, .predetermined), (⟨1⟩, .priv, .predetermined)])] :=
    exists_report_of_decide _ (by decide +kernel)
  exact ⟨report, ok, attributes, declared_variables_local ok⟩

/-- A parallel region under `default(none)` with nothing but a closure in it, which declares a variable
and uses it. The region asks for the variable. -/
theorem asks_for_variable_of_closure :
    let p := Draft.program do
      let x ← Draft.blockLocal "x" .int32
      let inner ← Draft.block [← Draft.declStmt x none, ← Draft.useVars [x]]
      let closure ← Draft.exprStmt (← Draft.closure inner)
      return [← Draft.region .parallel fun r =>
        { r.withMark (.default .none) with body := some closure }]
    ∃ report, (analyze {} p).1 = .ok report ∧
      ∃ v x, p.visits {} = [v] ∧ report.regions = [x] ∧
        x.status = .analyzed ∧
        (p.decls.get? ⟨0⟩).any (fun d => d.isAutomatic && !d.threadprivate) ∧
        ⟨0⟩ ∉ ownCounters p.decls x.nest ∧
        v.region.Declares (fun _ => True) p.decls.canonical ⟨0⟩ ∧
        ¬ v.TreatsAsLocal x ⟨0⟩ := by
  intro p
  obtain ⟨around, l, info, l', l'', uses, regions, body⟩ :
      ∃ around l info l' l'' uses, p.regions = [around] ∧
        around.body = some (.expr l (.closure info (.block l' [.decl l'' [⟨⟨0⟩, none⟩], uses]))) :=
    ⟨_, _, _, _, _, _, rfl, rfl⟩
  have declares : around.Declares (fun _ => True) p.decls.canonical ⟨0⟩ :=
    ⟨_, body, ⟨0⟩, by decide, .inside (.head _) trivial (.inside (.head _) trivial
      (.inside (.head _) trivial (.here (.head _) rfl)))⟩
  obtain ⟨report, ok, records⟩ := exists_report_of_decide (o := {}) (p := p)
    (fun report => report.regions.map (fun x => (x.status, ownCounters p.decls x.nest)) =
      [(.analyzed, [])]) (by decide +kernel)
  have asks : (p.visits {}).map (fun v => decide (∃ e ∈ v.emitted, e.LeavesUnresolved ⟨0⟩)) =
      [true] := by decide +kernel
  obtain ⟨x, recorded⟩ := List.length_eq_one_iff.mp (by simpa using congrArg List.length records)
  obtain ⟨v, visited⟩ := List.length_eq_one_iff.mp (by simpa using congrArg List.length asks)
  have visits := p.map_region_visits (o := {}) (by rw [visited, regions]; rfl)
  rw [visited, regions] at visits
  obtain rfl : v.region = around := List.head_eq_of_cons_eq visits
  rw [recorded] at records
  obtain ⟨analyzed, noCounters⟩ : x.status = .analyzed ∧ ownCounters p.decls x.nest = [] := by
    simpa using records
  rw [visited] at asks
  refine ⟨report, ok, v, x, visited, recorded, analyzed, by decide, ?_, declares, fun treats => ?_⟩
  · rw [noCounters]
    exact List.not_mem_nil
  · exact treats.unasked (of_decide_eq_true (List.head_eq_of_cons_eq asks))

end Directives
