import Directives.Loop.Canonical
/-!
Declaration tables: where placeholders lead, also in tables whose placeholders name what they
should not, and tables that only grow. Canonicalization of loops adds declarations and leaves those
that were there.
-/

namespace Directives

namespace DeclTable

variable {t t' t'' : DeclTable} {id earlier : DeclId}

theorem captured?_lt (h : t.captured? id = some earlier) : earlier.index < id.index := by
  unfold captured? at h
  cases hd : t.get? id with
  | none => rw [hd] at h; cases h
  | some d =>
    rw [hd] at h
    cases hc : d.captureOf with
    | none => simp [hc] at h
    | some e =>
      simp only [hc, Option.bind_eq_bind, Option.bind_some, Option.ite_none_right_eq_some,
        Option.some.injEq] at h
      exact h.2 ▸ h.1

theorem follow_le (steps : Nat) : (t.follow steps id).index ≤ id.index := by
  induction steps generalizing id with
  | zero => exact Nat.le_refl _
  | succ steps ih =>
    rw [follow]
    split
    · rename_i earlier h
      exact Nat.le_trans ih (Nat.le_of_lt (captured?_lt h))
    · exact Nat.le_refl _

/-- With as many steps as there are earlier positions, the last placeholder is passed. -/
theorem captured?_follow {steps : Nat} (enough : id.index ≤ steps) :
    t.captured? (t.follow steps id) = none := by
  induction steps generalizing id with
  | zero =>
    rw [follow]
    cases h : t.captured? id with
    | none => rfl
    | some earlier =>
      have := captured?_lt h
      omega
  | succ steps ih =>
    rw [follow]
    split
    · rename_i earlier h
      have := captured?_lt h
      exact ih (by omega)
    · rename_i h
      exact h

theorem follow_of_captured?_eq_none (h : t.captured? id = none) (steps : Nat) :
    t.follow steps id = id := by
  cases steps with
  | zero => rfl
  | succ steps => rw [follow, h]

theorem canonical_le (t : DeclTable) (id : DeclId) : (t.canonical id).index ≤ id.index :=
  follow_le _

theorem canonical_canonical (t : DeclTable) (id : DeclId) :
    t.canonical (t.canonical id) = t.canonical id :=
  follow_of_captured?_eq_none (captured?_follow (Nat.le_refl _)) _

/-- What stands for a declared variable is declared as well. -/
theorem exists_decl_canonical (h : id.index < t.size) :
    ∃ d, t.decl (t.canonical id) = .ok d ∧ t.get? (t.canonical id) = some d := by
  have found := List.getElem?_eq_getElem (Nat.lt_of_le_of_lt (t.canonical_le id) h)
  exact ⟨_, by rw [decl, get?, found], found⟩

/-- What is declared in a table is what comes first in the other. -/
def GrowsTo (t t' : DeclTable) : Prop := t.decls <+: t'.decls

theorem GrowsTo.refl (t : DeclTable) : t.GrowsTo t := List.prefix_refl _

theorem GrowsTo.trans (h : t.GrowsTo t') (h' : t'.GrowsTo t'') : t.GrowsTo t'' :=
  List.IsPrefix.trans h h'

theorem GrowsTo.size_le (h : t.GrowsTo t') : t.size ≤ t'.size := List.IsPrefix.length_le h

theorem GrowsTo.get?_eq (h : t.GrowsTo t') (inside : id.index < t.size) :
    t'.get? id = t.get? id := by
  obtain ⟨added, h⟩ := h
  rw [get?, ← h, List.getElem?_append_left inside, get?]

theorem lt_of_typed {ty : Ty} (typed : (t.get? id).map (·.ty) = some ty) : id.index < t.size := by
  obtain ⟨d, is, -⟩ := Option.map_eq_some_iff.mp typed
  exact (List.getElem?_eq_some_iff.mp is).1

theorem GrowsTo.typed {ty : Ty} (h : t.GrowsTo t') (typed : (t.get? id).map (·.ty) = some ty) :
    (t'.get? id).map (·.ty) = some ty := by
  rw [h.get?_eq (lt_of_typed typed), typed]

/-- What is declared stands for the same variable in a larger table. -/
theorem GrowsTo.canonical_eq (h : t.GrowsTo t') (inside : id.index < t.size) :
    t'.canonical id = t.canonical id := by
  have follow (steps : Nat) (id : DeclId) (inside : id.index < t.size) :
      t'.follow steps id = t.follow steps id := by
    induction steps generalizing id with
    | zero => rfl
    | succ steps ih =>
      have same : t'.captured? id = t.captured? id := by
        rw [captured?, captured?, h.get?_eq inside]
      rw [DeclTable.follow, DeclTable.follow, same]
      split
      · rename_i earlier captured
        exact ih earlier (Nat.lt_trans (captured?_lt captured) inside)
      · rfl
  exact follow id.index id inside

/-- What is not declared stands for nothing else. -/
theorem canonical_of_size_le (outside : t.size ≤ id.index) : t.canonical id = id := by
  refine follow_of_captured?_eq_none ?_ _
  rw [captured?, get?, List.getElem?_eq_none outside]
  rfl

/-- A larger table leads from what an identity stands for to where it leads from the identity. -/
theorem GrowsTo.canonical_canonical (h : t.GrowsTo t') (id : DeclId) :
    t'.canonical (t.canonical id) = t'.canonical id := by
  by_cases inside : id.index < t.size
  · rw [h.canonical_eq inside, h.canonical_eq (Nat.lt_of_le_of_lt (t.canonical_le id) inside),
      t.canonical_canonical]
  · rw [canonical_of_size_le (Nat.le_of_not_lt inside)]

theorem growsTo_push (t : DeclTable) (d : VarDecl) : t.GrowsTo (t.push d).2 :=
  List.prefix_append _ _

theorem growsTo_synthesize (t : DeclTable) (name : String) (ty : Ty) (location : Location) :
    t.GrowsTo (t.synthesize name ty location).2 :=
  growsTo_push _ _

/-- What is declared besides is no placeholder: every identity stands for what it stood for. -/
structure ExtendsTo (t t' : DeclTable) : Prop where
  grows : t.GrowsTo t'
  canonical : t'.canonical = t.canonical

theorem ExtendsTo.refl (t : DeclTable) : t.ExtendsTo t := ⟨.refl t, rfl⟩

theorem ExtendsTo.trans (h : t.ExtendsTo t') (h' : t'.ExtendsTo t'') : t.ExtendsTo t'' where
  grows := h.grows.trans h'.grows
  canonical := h'.canonical.trans h.canonical

theorem ExtendsTo.get?_eq_some {d : VarDecl} (h : t.ExtendsTo t') (hd : t.get? id = some d) :
    t'.get? id = some d :=
  (h.grows.get?_eq (List.getElem?_eq_some_iff.mp hd).1).trans hd

theorem extendsTo_synthesize (t : DeclTable) (name : String) (ty : Ty) (location : Location) :
    t.ExtendsTo (t.synthesize name ty location).2 where
  grows := t.growsTo_synthesize name ty location
  canonical := by
    funext id
    by_cases inside : id.index < t.size
    · exact (t.growsTo_synthesize name ty location).canonical_eq inside
    · rw [canonical_of_size_le (Nat.le_of_not_lt inside)]
      refine follow_of_captured?_eq_none ?_ _
      rw [captured?, get?, synthesize, push, List.getElem?_append_right (Nat.le_of_not_lt inside)]
      cases id.index - t.decls.length <;> rfl

end DeclTable

open DeclTable

/-- What is made of an accepted header: a level with its number and with the trip count and the
precondition of its bounds, and the declaration of its private counter. -/
theorem LoopLevel.ofHeader_eq_ok {o : Options} {level : Nat} {h : LoopHeader}
    {outer : List LoopLevel} {decls decls' : DeclTable} {l : LoopLevel}
    (hok : ofHeader o level h outer decls = .ok (l, decls')) :
    l.counted o.iterationWidth = l ∧ l.level = level ∧
      ∃ name, l.privateCounter = (decls.synthesize name h.counterTy h.location).1 ∧
        decls' = (decls.synthesize name h.counterTy h.location).2 := by
  unfold ofHeader at hok
  cases hlower : boundDependency h.lower h.counterTy outer with
  | error => rw [hlower] at hok; cases hok
  | ok lower =>
    cases hupper : boundDependency h.upper h.counterTy outer with
    | error => rw [hlower, hupper] at hok; cases hok
    | ok upper =>
      rw [hlower, hupper] at hok
      cases hok
      exact ⟨rfl, rfl, _, rfl, rfl⟩

/-! ## The search for loops -/

theorem NestOutcome.nest?_eq_some {outcome : NestOutcome} {n : LoopNest} :
    outcome.nest? = some n ↔ outcome = .nest n := by
  cases outcome with
  | nest m => rw [nest?, Option.some.injEq, NestOutcome.nest.injEq]
  | invalid | deferred | noRoom => exact ⟨nofun, nofun⟩

/-- How a search for loops ends, where `P` holds of the levels that were found and of the table then:
with the nest of these levels, or without a nest. -/
inductive SearchEnds (o : Options) (P : List LoopLevel → DeclTable → Prop) :
    NestOutcome × DeclTable → Prop where
  | nest {levels decls} (found : P levels decls) :
      SearchEnds o P
        (.nest (LoopNest.ofLevels o levels decls).1, (LoopNest.ofLevels o levels decls).2)
  | other {outcome levels decls} (found : P levels decls) (noNest : outcome.nest? = none) :
      SearchEnds o P (outcome, decls)

section
variable {o : Options} {P : List LoopLevel → DeclTable → Prop} {result : NestOutcome × DeclTable}
  {n : LoopNest}

theorem SearchEnds.exists_of_nest (ends : SearchEnds o P result) (h : result.1 = .nest n) :
    ∃ decls, P n.levels decls ∧ (n, result.2) = LoopNest.ofLevels o n.levels decls := by
  cases ends with
  | nest found =>
    cases h
    exact ⟨_, found, rfl⟩
  | other _ noNest =>
    cases h
    cases noNest

/-- What holds of the levels and the table at the beginning of a search holds of them when it ends, if
adding a level keeps it. -/
theorem canonicalizeFrom_ends
    (added : ∀ {s level header outer decls l decls'}, P outer decls →
      Stmt.recognize o decls s = .ok header →
      LoopLevel.ofHeader o level header outer decls = .ok (l, decls') → P (outer ++ [l]) decls')
    (remaining level : Nat) (s : Stmt) {outer : List LoopLevel} (failures : List (Nat × LoopFailure))
    {decls : DeclTable} (before : P outer decls) :
    SearchEnds o P (canonicalizeFrom o remaining level s outer failures decls) := by
  induction remaining generalizing level s outer failures decls with
  | zero =>
    rw [canonicalizeFrom]
    split
    · exact .nest before
    · exact .other before rfl
  | succ remaining ih =>
    unfold canonicalizeFrom
    split
    · split
      · exact .other before rfl
      · split
        · exact ih _ _ _ before
        · rename_i header recognized
          split
          · exact ih _ _ _ before
          · rename_i made
            exact ih _ _ _ (added before recognized made)
    · exact .other before rfl

theorem canonicalizeLoops_ends
    (added : ∀ {s level header outer decls l decls'}, P outer decls →
      Stmt.recognize o decls s = .ok header →
      LoopLevel.ofHeader o level header outer decls = .ok (l, decls') → P (outer ++ [l]) decls')
    (s : Stmt) (depth : Nat) {decls : DeclTable} (before : P [] decls) :
    SearchEnds o P (canonicalizeLoops o s depth decls) := by
  unfold canonicalizeLoops
  split
  · exact canonicalizeFrom_ends added _ _ _ _ before
  · exact .other before rfl

theorem canonicalizeNest_ends
    (added : ∀ {s level header outer decls l decls'}, P outer decls →
      Stmt.recognize o decls s = .ok header →
      LoopLevel.ofHeader o level header outer decls = .ok (l, decls') → P (outer ++ [l]) decls')
    (r : Region) {decls : DeclTable} (before : P [] decls) :
    SearchEnds o P (canonicalizeNest o r decls) := by
  unfold canonicalizeNest
  split
  · exact .other before rfl
  · exact .other before rfl
  · split
    · exact .other before rfl
    · exact canonicalizeLoops_ends added _ _ before

end

/-- Room is no matter once the search has begun. -/
theorem canonicalizeFrom_ne_noRoom {o : Options} {remaining level : Nat} {s : Stmt}
    {outer : List LoopLevel} {failures : List (Nat × LoopFailure)} {decls : DeclTable} :
    (canonicalizeFrom o remaining level s outer failures decls).1 ≠ .noRoom := by
  induction remaining generalizing level s outer failures decls with
  | zero =>
    rw [canonicalizeFrom]
    split <;> exact nofun
  | succ remaining ih =>
    unfold canonicalizeFrom
    split
    · split
      · exact nofun
      · split
        · exact ih
        · split <;> exact ih
    · exact nofun

/-- Where there is no room for the levels, nothing is declared. -/
theorem canonicalizeNest_of_noRoom {o : Options} {r : Region} {decls : DeclTable}
    (h : (canonicalizeNest o r decls).1 = .noRoom) : (canonicalizeNest o r decls).2 = decls := by
  revert h
  unfold canonicalizeNest
  rcases r.association with f | _ | a
  · exact fun _ => rfl
  · exact fun _ => rfl
  · cases r.body with
    | none => exact fun _ => rfl
    | some body =>
      intro h
      dsimp only at h ⊢
      unfold canonicalizeLoops at h ⊢
      by_cases room : a.depth ≤ o.levelRoom
      · rw [if_pos room] at h
        exact absurd h canonicalizeFrom_ne_noRoom
      · rw [if_neg room]

/-- What holds of a table holds of it after canonicalization, if declaring a variable of the analysis
keeps it. -/
theorem canonicalizeNest_invariant {P : DeclTable → Prop}
    (synthesized : ∀ t name ty location, P t → P (DeclTable.synthesize t name ty location).2)
    (o : Options) (r : Region) {decls : DeclTable} (before : P decls) :
    P (canonicalizeNest o r decls).2 := by
  have ends : SearchEnds o (fun _ t => P t) (canonicalizeNest o r decls) := by
    refine canonicalizeNest_ends (fun before _ made => ?_) r before
    obtain ⟨-, -, name, -, rfl⟩ := LoopLevel.ofHeader_eq_ok made
    exact synthesized _ _ _ _ before
  generalize canonicalizeNest o r decls = result at ends
  cases ends with
  | nest found => exact synthesized _ _ _ _ found
  | other found => exact found

theorem growsTo_canonicalizeNest (o : Options) (r : Region) (decls : DeclTable) :
    decls.GrowsTo (canonicalizeNest o r decls).2 :=
  canonicalizeNest_invariant (P := decls.GrowsTo)
    (fun _ _ _ _ before => before.trans (growsTo_synthesize ..)) o r (.refl _)

theorem extendsTo_canonicalizeNest (o : Options) (r : Region) (decls : DeclTable) :
    decls.ExtendsTo (canonicalizeNest o r decls).2 :=
  canonicalizeNest_invariant (P := decls.ExtendsTo)
    (fun _ _ _ _ before => before.trans (extendsTo_synthesize ..)) o r (.refl _)

end Directives
