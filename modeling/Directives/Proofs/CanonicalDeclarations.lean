import Mathlib.Logic.Relation
import Directives.Proofs.Declarations
/-!
Where placeholders lead. The search for the variable that an identity stands for comes to an end in every
table, also in one whose placeholders name themselves or what comes later, and searching on from its end
leads nowhere else. In a table that was made by declaring variables and taking placeholders for them, the
end is a variable and no placeholder, and all placeholders of a variable, and of its placeholders, lead to
the same one.
-/

namespace Directives

namespace DeclTable

/-- In the table `c` is a placeholder that stands for `of`. -/
def Captures (t : DeclTable) (c of : DeclId) : Prop := ∃ d, t.get? c = some d ∧ d.captureOf = some of

/-- A search for the variable that an identity stands for, with the number of its steps. It goes from a
placeholder to an earlier declaration, as long as there is one. -/
inductive Leads (t : DeclTable) : Nat → DeclId → DeclId → Prop where
  | ends {id} (last : ∀ of, t.Captures id of → id.index ≤ of.index) : Leads t 0 id id
  | follows {n id of last} (captures : t.Captures id of) (earlier : of.index < id.index)
      (rest : Leads t n of last) : Leads t (n + 1) id last

/-- The table was made by declaring variables, of the program or of the analysis, and by taking
placeholders. -/
inductive Built : DeclTable → Prop where
  | empty : Built {}
  | declare {t} (built : Built t) (name : String) (ty : Ty) (storage : StorageClass) (scope : DeclScope)
      (location : Location) : Built (t.declare name ty storage scope location).2
  | synthesize {t} (built : Built t) (name : String) (ty : Ty) (location : Location) :
      Built (t.synthesize name ty location).2
  | capture {t t' of c} (built : Built t) (taken : t.capture of = .ok (c, t')) : Built t'

variable {t t' : DeclTable} {id of c v last last' : DeclId} {d : VarDecl} {n n' : Nat}

/-! ## The search -/

theorem Captures.unique (h : t.Captures c of) (h' : t.Captures c v) : of = v := by
  obtain ⟨d, found, captured⟩ := h
  obtain ⟨d', found', captured'⟩ := h'
  cases found.symm.trans found'
  exact Option.some.inj (captured.symm.trans captured')

theorem captured?_eq_some_iff : t.captured? id = some of ↔ t.Captures id of ∧ of.index < id.index := by
  unfold captured? Captures
  cases found : t.get? id with
  | none => simp
  | some d =>
    cases captured : d.captureOf with
    | none => simp [captured]
    | some earlier =>
      simp only [Option.bind_eq_bind, Option.bind_some, captured, Option.ite_none_right_eq_some,
        Option.some.injEq]
      constructor
      · rintro ⟨before, rfl⟩
        exact ⟨⟨d, rfl, captured⟩, before⟩
      · rintro ⟨⟨_, rfl, same⟩, before⟩
        cases captured.symm.trans same
        exact ⟨before, rfl⟩

theorem captured?_eq_none_iff : t.captured? id = none ↔ ∀ of, t.Captures id of → id.index ≤ of.index := by
  simp only [Option.eq_none_iff_forall_ne_some, ne_eq, captured?_eq_some_iff, not_and, Nat.not_lt]

/-- Every step goes back in the table, so that there are no more of them than earlier positions. -/
theorem Leads.steps_le (h : t.Leads n id last) : n + last.index ≤ id.index := by
  induction h with
  | ends => exact Nat.le_of_eq (Nat.zero_add _)
  | follows _ earlier _ ih => omega

theorem Leads.unique (h : t.Leads n id last) (h' : t.Leads n' id last') : last = last' := by
  induction h generalizing n' with
  | ends none =>
    cases h' with
    | ends => rfl
    | follows captures earlier => exact absurd earlier (Nat.not_lt.mpr (none _ captures))
  | follows captures earlier _ ih =>
    cases h' with
    | ends none => exact absurd earlier (Nat.not_lt.mpr (none _ captures))
    | follows captures' _ rest' =>
      cases captures.unique captures'
      exact ih rest'

theorem exists_leads_follow {steps : Nat} (enough : id.index ≤ steps) :
    ∃ n, t.Leads n id (t.follow steps id) := by
  induction steps generalizing id with
  | zero =>
    refine ⟨0, .ends fun of _ => ?_⟩
    rw [Nat.le_zero.mp enough]
    exact Nat.zero_le _
  | succ steps ih =>
    rw [follow]
    split
    · rename_i earlier captured
      obtain ⟨captures, before⟩ := captured?_eq_some_iff.mp captured
      obtain ⟨n, rest⟩ := ih (show earlier.index ≤ steps by omega)
      exact ⟨n + 1, .follows captures before rest⟩
    · rename_i none
      exact ⟨0, .ends (captured?_eq_none_iff.mp none)⟩

theorem exists_leads_canonical (t : DeclTable) (id : DeclId) : ∃ n, t.Leads n id (t.canonical id) :=
  exists_leads_follow (Nat.le_refl _)

/-- A placeholder for an earlier declaration stands for what that one stands for. -/
theorem Captures.canonical_eq (captures : t.Captures c of) (earlier : of.index < c.index) :
    t.canonical c = t.canonical of := by
  obtain ⟨n, leads⟩ := t.exists_leads_canonical of
  obtain ⟨n', leads'⟩ := t.exists_leads_canonical c
  exact leads'.unique (.follows captures earlier leads)

/-! ## Tables of declarations and placeholders -/

theorem captures_of_push (h : (t.push d).2.Captures c of) :
    t.Captures c of ∨ (c.index = t.size ∧ d.captureOf = some of) := by
  obtain ⟨d', found, captured⟩ := h
  rw [get?, push, List.getElem?_append] at found
  split at found
  · exact .inl ⟨d', found, captured⟩
  · rename_i outside
    rw [List.getElem?_singleton] at found
    split at found
    · rename_i own
      cases found
      exact .inr ⟨Nat.le_antisymm (Nat.le_of_sub_eq_zero own) (Nat.le_of_not_lt outside), captured⟩
    · cases found

theorem captures_push (captured : d.captureOf = some of) : (t.push d).2.Captures (t.push d).1 of := by
  refine ⟨{ d with id := t.nextId }, ?_, captured⟩
  simp [get?, push, nextId, size]

theorem capture_eq_ok_iff : t.capture of = .ok (c, t') ↔
    ∃ d, t.get? of = some d ∧ (c, t') = t.push { d with captureOf := some of, synthesized := true } := by
  unfold capture decl
  cases t.get? of with
  | none => simp [bind, Except.bind]
  | some d => simp [bind, Except.bind, pure, Except.pure, eq_comm]

/-- Placeholders come after what they stand for. -/
theorem Built.captures_earlier (built : t.Built) (captures : t.Captures c of) : of.index < c.index := by
  induction built generalizing c of with
  | empty =>
    obtain ⟨d, found, -⟩ := captures
    cases found
  | declare _ _ _ _ _ _ ih | synthesize _ _ _ _ ih =>
    obtain before | ⟨-, captured⟩ := captures_of_push captures
    · exact ih before
    · cases captured
  | capture _ taken ih =>
    obtain ⟨d, found, is⟩ := capture_eq_ok_iff.mp taken
    cases is
    obtain before | ⟨own, captured⟩ := captures_of_push captures
    · exact ih before
    · cases captured
      rw [own]
      exact (List.getElem?_eq_some_iff.mp found).1

/-- What a declared identity stands for is declared, and no placeholder. -/
theorem Built.exists_canonical (built : t.Built) (declared : id.index < t.size) :
    ∃ d, t.get? (t.canonical id) = some d ∧ d.captureOf = none := by
  obtain ⟨d, -, found⟩ := exists_decl_canonical declared
  refine ⟨d, found, ?_⟩
  cases captured : d.captureOf with
  | none => rfl
  | some of =>
    have captures : t.Captures (t.canonical id) of := ⟨d, found, captured⟩
    have moved := captures.canonical_eq (built.captures_earlier captures)
    rw [canonical_canonical] at moved
    have back := t.canonical_le of
    have earlier := built.captures_earlier captures
    rw [moved] at earlier
    omega

/-- Placeholders of a variable, placeholders of these, and so on, stand for what the variable stands
for. -/
theorem Built.canonical_eq (built : t.Built) (chain : Relation.ReflTransGen t.Captures c v) :
    t.canonical c = t.canonical v := by
  induction chain using Relation.ReflTransGen.head_induction_on with
  | refl => rfl
  | head captures _ ih => rw [captures.canonical_eq (built.captures_earlier captures), ih]

/-- A placeholder that is taken stands for what the identity stood for before. -/
theorem Built.canonical_capture (built : t.Built) (taken : t.capture v = .ok (c, t')) :
    t'.Captures c v ∧ t'.canonical c = t.canonical v := by
  have built' := built.capture taken
  obtain ⟨d, found, is⟩ := capture_eq_ok_iff.mp taken
  cases is
  have captures := captures_push (t := t) (d := { d with captureOf := some v, synthesized := true }) rfl
  have declared := (List.getElem?_eq_some_iff.mp found).1
  exact ⟨captures,
    (built'.canonical_eq (.single captures)).trans ((t.growsTo_push _).canonical_eq declared)⟩

/-- A placeholder can be taken for all that is declared. -/
theorem exists_capture (declared : v.index < t.size) : ∃ c t', t.capture v = .ok (c, t') :=
  ⟨_, _, capture_eq_ok_iff.mpr ⟨_, List.getElem?_eq_getElem declared, rfl⟩⟩

end DeclTable

/-- From every identity, in every table, the search for its variable ends, and only where `canonical` says:
after no more steps than there are earlier positions, at a position that is not later, from which it leads
nowhere. In a table of declarations and placeholders, what a declared identity stands for is a variable and
no placeholder, a placeholder can be taken for the identity, and all placeholders that go back to it, in
however many steps, stand for the same variable. -/
theorem canonical_leads_back :
    (∀ (t : DeclTable) (id : DeclId),
      (∃ n ≤ id.index, t.Leads n id (t.canonical id)) ∧
      (∀ n last, t.Leads n id last → last = t.canonical id) ∧
      (t.canonical id).index ≤ id.index ∧ t.canonical (t.canonical id) = t.canonical id) ∧
    ∀ t : DeclTable, t.Built → ∀ v : DeclId, v.index < t.size →
      (∃ d, t.get? (t.canonical v) = some d ∧ d.captureOf = none) ∧
      (∃ c t', t.capture v = .ok (c, t')) ∧
      (∀ c t', t.capture v = .ok (c, t') → t'.Captures c v ∧ t'.canonical c = t.canonical v) ∧
      ∀ c, Relation.ReflTransGen t.Captures c v → t.canonical c = t.canonical v := by
  constructor
  · intro t id
    obtain ⟨n, leads⟩ := t.exists_leads_canonical id
    have steps := leads.steps_le
    exact ⟨⟨n, by omega, leads⟩, fun _ _ other => other.unique leads, t.canonical_le id,
      t.canonical_canonical id⟩
  · intro t built v declared
    exact ⟨built.exists_canonical declared, DeclTable.exists_capture declared,
      fun c t' taken => built.canonical_capture taken, fun c chain => built.canonical_eq chain⟩

/-- The variable `x` with a placeholder, a placeholder for that one and one more for the second; and a table
in which the first entry stands for itself, the second for the third and the third for the second. -/
theorem canonical_leads_back_chain :
    let entry (id : Nat) (captureOf : Option DeclId) : VarDecl :=
      { id := ⟨id⟩, name := "x", ty := .int32, storage := .automatic, scope := .function, captureOf
        synthesized := captureOf.isSome, location := ⟨1, 1⟩ }
    let t : DeclTable :=
      ⟨[entry 0 none, entry 1 (some ⟨0⟩), entry 2 (some ⟨1⟩), entry 3 (some ⟨2⟩)]⟩
    let odd : DeclTable := ⟨[entry 0 (some ⟨0⟩), entry 1 (some ⟨2⟩), entry 2 (some ⟨1⟩)]⟩
    t.Built ∧ Relation.ReflTransGen t.Captures ⟨3⟩ ⟨0⟩ ∧ t.canonical ⟨3⟩ = t.canonical ⟨0⟩ ∧
      t.canonical ⟨0⟩ = ⟨0⟩ ∧
      (∃ n, odd.Leads n ⟨2⟩ ⟨1⟩) ∧ odd.canonical ⟨2⟩ = ⟨1⟩ ∧ odd.canonical ⟨0⟩ = ⟨0⟩ := by
  intro entry t odd
  have declared : DeclTable.Built ⟨[entry 0 none]⟩ := .declare .empty "x" .int32 .automatic .function ⟨1, 1⟩
  have first : DeclTable.Built ⟨[entry 0 none, entry 1 (some ⟨0⟩)]⟩ :=
    .capture declared (show DeclTable.capture _ ⟨0⟩ = _ from rfl)
  have second : DeclTable.Built ⟨[entry 0 none, entry 1 (some ⟨0⟩), entry 2 (some ⟨1⟩)]⟩ :=
    .capture first (show DeclTable.capture _ ⟨1⟩ = _ from rfl)
  have built : t.Built := .capture second (show DeclTable.capture _ ⟨2⟩ = _ from rfl)
  have chain : Relation.ReflTransGen t.Captures ⟨3⟩ ⟨0⟩ :=
    .head (b := ⟨2⟩) ⟨_, rfl, rfl⟩ (.head (b := ⟨1⟩) ⟨_, rfl, rfl⟩ (.single ⟨_, rfl, rfl⟩))
  obtain ⟨-, -, -, same⟩ := canonical_leads_back.2 t built ⟨0⟩ (by decide)
  obtain ⟨⟨n, -, leads⟩, -⟩ := canonical_leads_back.1 odd ⟨2⟩
  exact ⟨built, chain, same _ chain, rfl, ⟨n, leads⟩, rfl, rfl⟩

end Directives
