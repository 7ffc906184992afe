import Directives.Proofs.RegisteredFrame
import Directives.Proofs.Value
/-!
The steps of `linear` clauses. What is recorded of a step is a literal, if it is one behind wrappers and
signs. Other steps can be constant as well: collapsed levels and the steps of loops are evaluated, and
`2 + 2` counts as four there. For a `linear` clause it counts as no constant.
-/

namespace Directives

namespace Expr

/-- An integer literal behind conversions, parentheses, constructor calls with one argument and signs. -/
inductive IsSignedLiteral : Expr → Prop where
  | literal (i : ExprInfo) (v : Int) : IsSignedLiteral (.intLit i v)
  | negated (i : ExprInfo) {e : Expr} : IsSignedLiteral e → IsSignedLiteral (.unary i .neg e)
  | cast (i : ExprInfo) {e : Expr} : IsSignedLiteral e → IsSignedLiteral (.cast i e)
  | paren (i : ExprInfo) {e : Expr} : IsSignedLiteral e → IsSignedLiteral (.paren i e)
  | construct (i : ExprInfo) {e : Expr} : IsSignedLiteral e → IsSignedLiteral (.construct i [e])

theorem isSome_literal? {e : Expr} : e.literal?.isSome = true ↔ e.IsSignedLiteral := by
  constructor
  · intro h
    induction e using literal?.induct with
    | case1 i v => exact .literal i v
    | case2 i e ih =>
      rw [literal?, Option.isSome_map] at h
      exact .negated i (ih h)
    | case3 i e ih => exact .cast i (ih h)
    | case4 i e ih => exact .paren i (ih h)
    | case5 i e ih => exact .construct i (ih h)
    | case6 e => grind [literal?]
  · intro h
    induction h with
    | literal => rfl
    | negated i _ ih => rwa [literal?, Option.isSome_map]
    | cast _ _ ih | paren _ _ ih | construct _ _ ih => exact ih

/-- A literal behind wrappers and signs has a value in exact arithmetic. What is read is that value, or the
one in range that it wraps to. -/
theorem exists_value_of_literal? {e : Expr} {v : Int} (h : e.literal? = some v) (env : Bindings) :
    ∃ exact, e.value env = some exact ∧ (v = exact ∨ v = Wide.wrap exact) := by
  induction e using literal?.induct generalizing v with
  | case1 => exact ⟨v, h, .inl rfl⟩
  | case2 i e ih =>
    obtain ⟨w, hw, rfl⟩ := Option.map_eq_some_iff.mp h
    obtain ⟨exact, value, rfl | rfl⟩ := ih hw
    · exact ⟨-w, by rw [value_neg, value]; rfl, .inr rfl⟩
    · exact ⟨-exact, by rw [value_neg, value]; rfl, .inr (Wide.wrap_neg_wrap exact)⟩
  | case3 _ e ih | case4 _ e ih | case5 _ e ih =>
    exact ih h
  | case6 e => grind [literal?]

/-- The least value negated is read as itself, and has no value in 128 bits. -/
example (i : ExprInfo) :
    (Expr.unary i .neg (.intLit i Wide.least)).literal? = some Wide.least ∧
      (Expr.unary i .neg (.intLit i Wide.least)).constant? = none := by
  constructor <;> rfl

/-- Where both are there, the literal and the constant are the same: a constant is in range, and no value in
range wraps to another. -/
theorem literal?_eq_constant {e : Expr} {v w : Int} (literal : e.literal? = some v)
    (constant : e.constant? = some w) : v = w := by
  obtain ⟨exact, value, read⟩ := exists_value_of_literal? literal .none
  obtain rfl : exact = w := Option.some.inj (value.symm.trans (value_of_constant constant .none))
  have inRange : Wide.InRange exact := by
    refine eval_inRange ?_ constant
    intro d v bound
    cases bound
  rcases read with rfl | rfl
  · rfl
  · exact Wide.wrap_of_inRange inRange

/-- The literal is the constant, for expressions of which one is there when the other is. -/
theorem literal?_eq_constant?_iff {e : Expr} :
    e.literal? = e.constant? ↔ (e.constant?.isSome = true ↔ e.IsSignedLiteral) := by
  rw [← isSome_literal?]
  constructor
  · intro same
    rw [same]
  · intro both
    cases literal : e.literal? with
    | none =>
      rw [literal] at both
      exact (Option.not_isSome_iff_eq_none.mp fun constant => nomatch both.mp constant).symm
    | some v =>
      rw [literal] at both
      obtain ⟨w, constant⟩ := Option.isSome_iff_exists.mp (both.mpr rfl)
      rw [constant, literal?_eq_constant literal constant]

end Expr

/-- The step of a `linear` clause as a constant: without an expression it is one. -/
def constantStep : Option Expr → Option Int
  | none => some 1
  | some e => e.constant?

/-- What is recorded of the step of a `linear` clause: its value, where it is left out or a signed literal,
wrapped where the sign takes it out of range. That is the step as a constant, unless the step is constant
without being a signed literal, or a signed literal that is out of range. -/
structure RecordsStep (step : Option Expr) (recorded : Option Int) : Prop where
  isSome_iff : recorded.isSome = true ↔ ∀ e ∈ step, e.IsSignedLiteral
  value : ∀ v, recorded = some v → ∀ e ∈ step,
    ∃ exact, e.value .none = some exact ∧ (v = exact ∨ v = Wide.wrap exact)
  constant_iff : recorded = constantStep step ↔
    ∀ e ∈ step, (e.constant?.isSome = true ↔ e.IsSignedLiteral)

/-- The clause lists the variable, at the location and for the attribute of the entry. -/
structure Entry.IsAskedBy (e : Entry) (canon : DeclId → DeclId) (v : DeclId)
    (listed : ClauseKind × ClauseItem) : Prop where
  gives : listed.1.sharing? = some (e.kind, e.modifier)
  lists : canon listed.2.decl = v
  location : e.location = listed.2.location

section
variable {o : Options} {decls : DeclTable} {stack : FrameStack} {f f' : Frame} {outer : List Frame}
  {s s' : Scope} {directive : DirectiveKind} {clause : ClauseKind} {var v : DeclId} {d : VarDecl}
  {kind : Sharing} {modifier : Modifier} {e e' : Entry}

theorem ClauseKind.records_of_sharing? (given : clause.sharing? = some (.linear, modifier)) :
    ∃ step recorded, clause = .linear step ∧ modifier = .linearStep recorded ∧
      RecordsStep step recorded := by
  cases clause with
  | linear step =>
    cases given
    refine ⟨step, _, rfl, rfl, ?_⟩
    cases step with
    | none => exact ⟨by simp, by simp, by simp [constantStep]⟩
    | some e =>
      constructor
      · simp [Expr.isSome_literal?]
      · intro v literal e' is
        cases is
        exact Expr.exists_value_of_literal? literal .none
      · simp [constantStep, Expr.literal?_eq_constant?_iff]
  | _ => cases given

theorem sharing?_of_judge_enter
    (entered : judge o decls stack directive clause var d = .enter kind modifier) :
    clause.sharing? = some (kind, modifier) := by
  unfold judge at entered
  repeat' split at entered
  all_goals cases entered
  assumption

/-- Only merged entries are neither the new one nor one that was there. -/
theorem Frame.entryOf?_insertExplicit (held : (f.insertExplicit var e).1.entryOf? v = some e')
    (single : e'.kind ≠ .lastprivate) : f.entryOf? v = some e' ∨ (var = v ∧ e' = e) := by
  have recorded {g : Entry} (held : (f.setEntry var g).entryOf? v = some e') :
      f.entryOf? v = some e' ∨ (var = v ∧ e' = g) := by
    by_cases same : var = v
    · subst same
      rw [entryOf?_setEntry_self] at held
      exact .inr ⟨rfl, (Option.some.inj held).symm⟩
    · rw [entryOf?_setEntry_of_ne same] at held
      exact .inl held
  have inserts := f.insertsExplicit var e
  generalize f.insertExplicit var e = result at inserts held
  cases inserts with
  | first | replaced => exact recorded held
  | merged _ _ _ last =>
    obtain kept | ⟨-, rfl⟩ := recorded held
    · exact .inl kept
    · exact absurd last single
  | joined _ _ last =>
    obtain kept | ⟨-, rfl⟩ := recorded held
    · exact .inl kept
    · exact absurd last single
  | duplicate | conflict => exact .inl held

theorem Judgement.Leads.entryOf? {item : ClauseItem}
    (leads : (judge o decls stack directive clause (decls.canonical item.decl) d).Leads
      (decls.canonical item.decl) item.location f f')
    (held : f'.entryOf? v = some e) (single : e.kind ≠ .lastprivate) :
    f.entryOf? v = some e ∨ e.IsAskedBy decls.canonical v (clause, item) := by
  generalize judged : judge o decls stack directive clause (decls.canonical item.decl) d = j at leads
  cases leads with
  | pass | report => exact .inl held
  | reject =>
    rw [Frame.entryOf?_reject] at held
    exact .inl held
  | enter =>
    obtain kept | ⟨rfl, rfl⟩ := Frame.entryOf?_insertExplicit held single
    · exact .inl kept
    · exact .inr ⟨sharing?_of_judge_enter judged, rfl, rfl⟩

/-- Of the entries in the frame after registration each was there before or is asked for by one of the
listed items. -/
theorem entryOf?_registerItems (h : s.stack.Inside f outer) {items : List (ClauseKind × ClauseItem)}
    (hok : registerItems o decls directive items s = .ok s') :
    ∃ f', s'.stack.Inside f' outer ∧ ∀ v e, f'.entryOf? v = some e → e.kind ≠ .lastprivate →
      f.entryOf? v = some e ∨ ∃ listed ∈ items, e.IsAskedBy decls.canonical v listed := by
  induction items generalizing s f with
  | nil =>
    cases hok
    exact ⟨f, h, fun v e held _ => .inl held⟩
  | cons item rest ih =>
    rw [registerItems] at hok
    split at hok
    · cases hok
    · rename_i s₁ hitem
      obtain ⟨d₁, f₁, -, leads, inside₁, -⟩ := registerItem_leads h hitem
      obtain ⟨f₂, inside₂, asked₂⟩ := ih inside₁ hok
      refine ⟨f₂, inside₂, ?_⟩
      intro v e held single
      obtain before | ⟨listed, hlisted, asked⟩ := asked₂ v e held single
      · obtain before | asked := leads.entryOf? before single
        · exact .inl before
        · exact .inr ⟨item, List.mem_cons_self, asked⟩
      · exact .inr ⟨listed, List.mem_cons_of_mem _ hlisted, asked⟩

theorem entryOf?_registerClauses (h : s.stack.Inside f outer) {r : Region}
    (hok : registerClauses o decls r s = .ok s') :
    ∃ f', s'.stack.Inside f' outer ∧ ∀ v e, f'.entryOf? v = some e → e.kind ≠ .lastprivate →
      f.entryOf? v = some e ∨
        ∃ c ∈ r.clauses, ∃ i ∈ c.items, e.IsAskedBy decls.canonical v (c.kind, i) := by
  obtain ⟨f₁, inside₁, -, ⟨entries₁, -⟩, -⟩ := foldl_registerMode_frame h r.kind r.clauses
  unfold registerClauses at hok
  rw [h.current?, Option.isSome_some, if_pos rfl] at hok
  obtain ⟨f₂, inside₂, asked⟩ := entryOf?_registerItems inside₁ hok
  refine ⟨f₂, inside₂, ?_⟩
  intro v e held single
  obtain before | ⟨listed, hlisted, asked⟩ := asked v e held single
  · rw [Frame.entryOf?, entries₁] at before
    exact .inl before
  · obtain ⟨c, hc, hlisted⟩ := List.mem_flatMap.mp hlisted
    obtain ⟨i, hi, rfl⟩ := List.mem_map.mp hlisted
    exact .inr ⟨c, hc, i, hi, asked⟩

/-- Every `linear` entry that registration leaves in the frame was there before, or stems from a clause
that lists its variable, and its modifier is what is recorded of the step of that clause. -/
theorem linear_steps_recorded (h : s.stack.Inside f outer) {r : Region}
    (hok : registerClauses o decls r s = .ok s') :
    ∃ f', s'.stack.Inside f' outer ∧ ∀ v e, f'.entryOf? v = some e → e.kind = .linear →
      f.entryOf? v = some e ∨
        ∃ c ∈ r.clauses, ∃ i ∈ c.items, ∃ step recorded,
          decls.canonical i.decl = v ∧ e.location = i.location ∧ c.kind = .linear step ∧
          e.modifier = .linearStep recorded ∧ RecordsStep step recorded := by
  obtain ⟨f', inside', asked⟩ := entryOf?_registerClauses h hok
  refine ⟨f', inside', ?_⟩
  intro v e held linear
  obtain before | ⟨c, hc, i, hi, asked⟩ := asked v e held (by simp [linear])
  · exact .inl before
  · have given := asked.gives
    rw [linear] at given
    obtain ⟨step, recorded, hstep, modifier, records⟩ := ClauseKind.records_of_sharing? given
    exact .inr ⟨c, hc, i, hi, step, recorded, asked.lists, asked.location, hstep, modifier, records⟩

end

/-- In a loop region `x` is listed with the step `-2`, `y` without one and `z` with a step that depends on
`y`. -/
theorem linear_steps_recorded_negative :
    let decl (id : Nat) (name : String) : VarDecl :=
      { id := ⟨id⟩, name, ty := .int32, storage := .automatic, scope := .function, location := ⟨1, 1⟩ }
    let decls : DeclTable := ⟨[decl 0 "x", decl 1 "y", decl 2 "z"]⟩
    let info : ExprInfo := { ty := .int32, location := ⟨2, 20⟩ }
    let list (step : Option Expr) (var column : Nat) : Clause :=
      { kind := .linear step, items := [{ decl := ⟨var⟩, location := ⟨2, column⟩ }], location := ⟨2, 9⟩ }
    let r : Region :=
      { kind := .forLoop, location := ⟨2, 1⟩
        clauses := [list (some (.unary info .neg (.intLit info 2))) 0 16, list none 1 30,
          list (some (.ref info ⟨1⟩)) 2 40] }
    let s : Scope := { stack := { frames := [{ kind := .forLoop }] } }
    ∃ s' f', registerClauses {} decls r s = .ok s' ∧ s'.stack.Inside f' [] ∧
      [0, 1, 2].map (fun v => (f'.entryOf? ⟨v⟩).map (·.modifier)) =
        [some (.linearStep (some (-2))), some (.linearStep (some 1)), some (.linearStep none)] ∧
      ∀ v e, f'.entryOf? v = some e → e.kind = .linear → ∃ step recorded,
        e.modifier = .linearStep recorded ∧ RecordsStep step recorded := by
  intro decl decls info list r s
  have registered : (registerClauses {} decls r s).toOption.bind (fun s' =>
      s'.stack.current?.map fun f => [0, 1, 2].map fun v => (f.entryOf? ⟨v⟩).map (·.modifier)) =
      some [some (.linearStep (some (-2))), some (.linearStep (some 1)), some (.linearStep none)] := by
    decide +kernel
  obtain ⟨s', ok, modifiers⟩ := Option.bind_eq_some_iff.mp registered
  cases result : registerClauses {} decls r s with
  | error =>
    rw [result] at ok
    cases ok
  | ok s₁ =>
    rw [result] at ok
    cases ok
    obtain ⟨f', inside', recorded⟩ := linear_steps_recorded ⟨rfl, rfl⟩ result
    rw [inside'.current?] at modifiers
    refine ⟨_, f', rfl, inside', Option.some.inj modifiers, ?_⟩
    intro v e held linear
    obtain before | ⟨-, -, -, -, step, value, -, -, -, modifier, records⟩ := recorded v e held linear
    · cases before
    · exact ⟨step, value, modifier, records⟩

/-- The step `2 + 2` is the constant four, and recorded as none. -/
theorem constant_step_not_recorded :
    let decls : DeclTable :=
      ⟨[{ id := ⟨0⟩, name := "x", ty := .int32, storage := .automatic, scope := .function,
          location := ⟨1, 1⟩ }]⟩
    let info : ExprInfo := { ty := .int32, location := ⟨2, 20⟩ }
    let step : Expr := .binary info .add (.intLit info 2) (.intLit info 2)
    let r : Region :=
      { kind := .forLoop, location := ⟨2, 1⟩
        clauses := [{ kind := .linear (some step), items := [{ decl := ⟨0⟩, location := ⟨2, 16⟩ }]
                      location := ⟨2, 9⟩ }] }
    let s : Scope := { stack := { frames := [{ kind := .forLoop, location := ⟨2, 1⟩ }] } }
    step.constant? = some 4 ∧
      (registerClauses {} decls r s).toOption.bind (fun s' => s'.stack.current?.bind fun f =>
        (f.entryOf? ⟨0⟩).map fun e => (e.kind, e.modifier)) = some (.linear, .linearStep none) := by
  decide +kernel

end Directives
