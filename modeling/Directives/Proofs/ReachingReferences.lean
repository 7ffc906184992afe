import Directives.Proofs.ReferencedVariables
/-!
Which references reach a region, read off the parts of its body. A reference inside the body of a
nested region stops there if the nested region holds the variable; clauses of a nested region refer to
variables where the nested region stands. What is counted for a region are the references that reach
it when a nested region holds the variables of its `private` clauses, and no others.
-/

namespace Directives

/-- The part refers to the variable `c` outside the bodies of regions that hold it. -/
inductive Reaches (canon : DeclId → DeclId) (holds : Region → Prop) (c : DeclId) : Part → Prop where
  | reference {info d} (is : canon d = c) : Reaches canon holds c (.expr (.ref info d))
  | inside {p q} (part : q ∈ p.parts) (visible : ∀ r, p.region? = some r → ¬ holds r)
      (reaches : Reaches canon holds c q) : Reaches canon holds c p
  | item {p r k i} (is : p.region? = some r) (clause : k ∈ r.clauses)
      (outside : k.kind.needsOuterValue) (listed : i ∈ k.items) (same : canon i.decl = c) :
      Reaches canon holds c p
  | argument {p r k e} (is : p.region? = some r) (clause : k ∈ r.clauses)
      (evaluated : k.kind.evaluated? = some e) (reaches : Reaches canon holds c (.expr e)) :
      Reaches canon holds c p

section
variable {canon : DeclId → DeclId} {holds : Region → Prop} {c : DeclId} {p : Part} {r : Region}

/-- A clause of a nested region refers to the variable. -/
def Clause.Reaches (canon : DeclId → DeclId) (holds : Region → Prop) (c : DeclId) (k : Clause) :
    Prop :=
  (k.kind.needsOuterValue ∧ ∃ i ∈ k.items, canon i.decl = c) ∨
    ∃ e, k.kind.evaluated? = some e ∧ Directives.Reaches canon holds c (.expr e)

theorem reaches_region_iff (is : p.region? = some r) :
    Reaches canon holds c p ↔ (∃ k ∈ r.clauses, k.Reaches canon holds c) ∨
      (¬ holds r ∧ ∃ q ∈ p.parts, Reaches canon holds c q) := by
  constructor
  · intro h
    cases h with
    | reference => cases is
    | inside part visible reaches => exact .inr ⟨visible r is, _, part, reaches⟩
    | item is' clause outside listed same =>
      cases is.symm.trans is'
      exact .inl ⟨_, clause, .inl ⟨outside, _, listed, same⟩⟩
    | argument is' clause evaluated reaches =>
      cases is.symm.trans is'
      exact .inl ⟨_, clause, .inr ⟨_, evaluated, reaches⟩⟩
  · rintro (⟨k, clause, ⟨outside, i, listed, same⟩ | ⟨e, evaluated, reaches⟩⟩ | ⟨open', q, part, reaches⟩)
    · exact .item is clause outside listed same
    · exact .argument is clause evaluated reaches
    · refine .inside part (fun r' is' => ?_) reaches
      cases is.symm.trans is'
      exact open'

/-- The part is neither a region nor a reference, so that it refers to what its parts refer to. -/
def Part.IsPlain (p : Part) : Prop := p.region? = none ∧ ∀ info d, p ≠ .expr (.ref info d)

theorem reaches_plain_iff (plain : p.IsPlain) :
    Reaches canon holds c p ↔ ∃ q ∈ p.parts, Reaches canon holds c q := by
  constructor
  · intro h
    cases h with
    | reference => exact absurd rfl (plain.2 _ _)
    | inside part _ reaches => exact ⟨_, part, reaches⟩
    | item is | argument is =>
      rw [plain.1] at is
      cases is
  · rintro ⟨q, part, reaches⟩
    refine .inside part (fun r is => ?_) reaches
    rw [plain.1] at is
    cases is

theorem reaches_ref_iff {info : ExprInfo} {d : DeclId} :
    Reaches canon holds c (.expr (.ref info d)) ↔ canon d = c := by
  constructor
  · intro h
    cases h with
    | reference is => exact is
    | inside part => cases part
    | item is | argument is => cases is
  · exact .reference

end

/-! ## What is counted -/

/-- The region lists the variable in a `private` clause. -/
def Region.ListsPrivate (canon : DeclId → DeclId) (c : DeclId) (r : Region) : Prop :=
  c ∈ privateItems canon r.clauses

section
variable {canon : DeclId → DeclId} {c : DeclId} {p : Part} {r : Region}

/-- An occurrence of the variable counts among the sites. -/
def Occurs (canon : DeclId → DeclId) (c : DeclId) (l : List Site) : Prop :=
  ∃ s ∈ l, canon s.decl = c ∧ s.Counts canon

theorem occurs_append {l m : List Site} :
    Occurs canon c (l ++ m) ↔ Occurs canon c l ∨ Occurs canon c m := by
  simp only [Occurs, List.mem_append, or_and_right, exists_or]

theorem occurs_flatMap {α : Type} {l : List α} {f : α → List Site} :
    Occurs canon c (l.flatMap f) ↔ ∃ a ∈ l, Occurs canon c (f a) := by
  constructor
  · rintro ⟨s, mem, occurs⟩
    obtain ⟨a, ha, mem⟩ := List.mem_flatMap.mp mem
    exact ⟨a, ha, s, mem, occurs⟩
  · rintro ⟨a, ha, s, mem, occurs⟩
    exact ⟨s, List.mem_flatMap.mpr ⟨a, ha, mem⟩, occurs⟩

theorem occurs_within {l : List Site} :
    Occurs canon c (l.map (.within r)) ↔ ¬ r.ListsPrivate canon c ∧ Occurs canon c l := by
  constructor
  · rintro ⟨_, mem, is, counts⟩
    obtain ⟨s, hs, rfl⟩ := List.mem_map.mp mem
    rw [Site.counts_within] at counts
    exact ⟨is ▸ counts.1, s, hs, is, counts.2⟩
  · rintro ⟨absent, s, hs, is, counts⟩
    refine ⟨s.within r, List.mem_map_of_mem hs, is, Site.counts_within.mpr ⟨?_, counts⟩⟩
    rw [is]
    exact absent

theorem occurs_itemSites {k : Clause} :
    Occurs canon c k.itemSites ↔ k.kind.needsOuterValue ∧ ∃ i ∈ k.items, canon i.decl = c := by
  have counts (i : ClauseItem) : Site.Counts canon { decl := i.decl, location := i.location } := nofun
  unfold Clause.itemSites ClauseKind.needsOuterValue
  split
  · rename_i priv
    simp [Occurs, priv]
  · rename_i outer
    simp [Occurs, outer, counts]

theorem Part.isPlain_or_ref (is : p.region? = none) :
    (p.IsPlain ∧ p.ownSites = []) ∨ ∃ info d, p = .expr (.ref info d) := by
  match p with
  | .expr e =>
    cases e with
    | ref info d => exact .inr ⟨info, d, rfl⟩
    | _ => exact .inl ⟨⟨is, nofun⟩, rfl⟩
  | .stmt _ => exact .inl ⟨⟨is, nofun⟩, rfl⟩

/-- An occurrence of the variable counts exactly if a reference to it reaches out of the part. -/
theorem Part.occurs_iff (p : Part) :
    Occurs canon c p.sites ↔ Reaches canon (Region.ListsPrivate canon c) c p := by
  induction p using siteInduction with
  | step p inside argument =>
    have parts : (∃ q ∈ p.parts, Occurs canon c q.sites) ↔
        ∃ q ∈ p.parts, Reaches canon (Region.ListsPrivate canon c) c q :=
      exists_congr fun q => and_congr_right (inside q)
    cases is : p.region? with
    | none =>
      rw [sites_of_other is, occurs_append, occurs_flatMap, parts]
      obtain ⟨plain, nothing⟩ | ⟨info, d, rfl⟩ := isPlain_or_ref is
      · rw [nothing, reaches_plain_iff plain]
        simp [Occurs]
      · rw [reaches_ref_iff]
        simp [Occurs, Part.ownSites, Part.parts, Expr.parts, Expr.operands, Site.Counts]
    | some r =>
      rw [sites_of_region is, occurs_append, occurs_flatMap, occurs_within, occurs_flatMap, parts,
        reaches_region_iff is]
      have clauses : (∃ k ∈ r.clauses, Occurs canon c k.sites) ↔
          ∃ k ∈ r.clauses, k.Reaches canon (Region.ListsPrivate canon c) c := by
        refine exists_congr fun k => and_congr_right fun clause => ?_
        rw [Clause.sites, occurs_append, occurs_itemSites, occurs_flatMap]
        simp only [Option.mem_toList]
        exact or_congr_right (exists_congr fun e => and_congr_right (argument r is k clause e))
      rw [clauses]

end

/-- The variables that the body of a region refers to are those of references that reach the region
past nested regions with the variable in a `private` clause. -/
theorem exists_mem_referencedVariables {decls : DeclTable} {body : Stmt} {c : DeclId} :
    (∃ o ∈ referencedVariables decls body, o.1 = c) ↔
      Reaches decls.canonical (Region.ListsPrivate decls.canonical c) c (.stmt body) := by
  have collected : (∃ o ∈ referencedVariables decls body, o.1 = c) ↔
      ∃ o ∈ body.counted decls.canonical [], o.1 = c := by
    rw [← List.mem_map, ← List.mem_map, referencedVariables, mem_map_firstOccurrences]
    simp
  rw [collected, Stmt.counted_eq, ← Part.occurs_iff]
  simp only [Occurs, Site.occurrence, List.mem_map, List.mem_filter, decide_eq_true_eq]
  constructor
  · rintro ⟨_, ⟨s, ⟨mem, counts⟩, rfl⟩, is⟩
    exact ⟨s, mem, is, counts⟩
  · rintro ⟨s, mem, is, counts⟩
    exact ⟨_, ⟨s, ⟨mem, counts⟩, rfl⟩, is⟩

end Directives
