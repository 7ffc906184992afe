import Mathlib.Data.List.Basic
import Directives.Tree.Counted
import Directives.Proofs.SourceOrder
/-!
The places where variables occur. Every occurrence in the body of a region stands inside the bodies of some
nested regions, and it counts unless one of those lists its variable in a `private` clause. The collector
passes the hidden variables inwards, while the regions around an occurrence are read off the whole body
here; both come to the same occurrences, in the same order.
-/

namespace Directives

/-- An occurrence, and the nested regions in whose bodies it stands, the outermost first. -/
structure Site where
  decl : DeclId
  location : Location
  around : List Region := []

namespace Site

/-- The site as seen from around the region in whose body it stands. -/
def within (r : Region) (s : Site) : Site := { s with around := r :: s.around }

/-- None of the regions around lists the variable in a `private` clause. -/
def Counts (canon : DeclId → DeclId) (s : Site) : Prop :=
  ∀ r ∈ s.around, ∀ k ∈ r.clauses, k.kind.tag = .priv → ∀ i ∈ k.items, canon i.decl ≠ canon s.decl

instance (canon : DeclId → DeclId) (s : Site) : Decidable (s.Counts canon) :=
  inferInstanceAs (Decidable (∀ r ∈ s.around, ∀ k ∈ r.clauses, k.kind.tag = .priv →
    ∀ i ∈ k.items, canon i.decl ≠ canon s.decl))

/-- The variable that the occurrence stands for, and where. -/
def occurrence (canon : DeclId → DeclId) (s : Site) : Occurrence := (canon s.decl, s.location)

end Site

/-- The argument of a clause that is evaluated where its region stands. -/
def ClauseKind.evaluated? : ClauseKind → Option Expr
  | .cond e | .numThreads e | .final e => some e
  | _ => none

/-- The items of a clause occur where its region stands, unless the clause is `private`. -/
def Clause.itemSites (k : Clause) : List Site :=
  if k.kind.tag = .priv then [] else k.items.map fun i => { decl := i.decl, location := i.location }

namespace Part

/-- The occurrence that a part is. -/
def ownSites : Part → List Site
  | .expr (.ref info d) => [{ decl := d, location := info.location }]
  | _ => []

theorem sizeOf_lt_of_evaluated {p : Part} {r : Region} {k : Clause} {e : Expr}
    (is : p.region? = some r) (clause : k ∈ r.clauses) (evaluated : k.kind.evaluated? = some e) :
    sizeOf (Part.expr e) < sizeOf p := by
  match p with
  | .stmt (.region _ ⟨_, _, _, clauses, _, _, _⟩) =>
    cases is
    have inside := List.sizeOf_lt_of_mem clause
    obtain ⟨kind, _, _⟩ := k
    have argument : sizeOf e < sizeOf kind := by
      cases kind <;> cases evaluated <;>
        simp only [ClauseKind.cond.sizeOf_spec, ClauseKind.numThreads.sizeOf_spec,
          ClauseKind.final.sizeOf_spec] <;>
        omega
    simp only [expr.sizeOf_spec, stmt.sizeOf_spec, Stmt.region.sizeOf_spec, Region.mk.sizeOf_spec,
      Clause.mk.sizeOf_spec] at inside ⊢
    omega

/-- What holds of a part whenever it holds of its parts, and of the arguments that are evaluated where it
stands, holds of all parts. -/
theorem siteInduction {motive : Part → Prop}
    (step : ∀ p, (∀ q ∈ p.parts, motive q) →
      (∀ r, p.region? = some r → ∀ k ∈ r.clauses, ∀ e, k.kind.evaluated? = some e → motive (.expr e)) →
      motive p) (p : Part) : motive p :=
  step p (fun q _ => siteInduction step q)
    fun _ is _ clause e evaluated =>
      have := sizeOf_lt_of_evaluated is clause evaluated
      siteInduction step (.expr e)
termination_by sizeOf p
decreasing_by
  · exact sizeOf_lt_of_mem_parts ‹_›
  · assumption

/-- The occurrences in a part, in source order. Those in clauses of a nested region stand where the region
stands, and those in its body within the region. -/
def sites (p : Part) : List Site :=
  match is : p.region? with
  | none => p.ownSites ++ p.parts.attach.flatMap fun ⟨q, _⟩ => q.sites
  | some r =>
    (r.clauses.attach.flatMap fun ⟨k, _⟩ =>
      k.itemSites ++ k.kind.evaluated?.toList.attach.flatMap fun ⟨e, _⟩ => (Part.expr e).sites) ++
      (p.parts.attach.flatMap fun ⟨q, _⟩ => q.sites).map (.within r)
termination_by sizeOf p
decreasing_by
  · exact sizeOf_lt_of_mem_parts ‹_›
  · exact sizeOf_lt_of_evaluated is ‹_› (Option.mem_toList.mp ‹_›)
  · exact sizeOf_lt_of_mem_parts ‹_›

end Part

/-- The occurrences in a clause. -/
def Clause.sites (k : Clause) : List Site :=
  k.itemSites ++ k.kind.evaluated?.toList.flatMap fun e => (Part.expr e).sites

namespace Part

theorem sites_of_other {p : Part} (is : p.region? = none) :
    p.sites = p.ownSites ++ p.parts.flatMap sites := by
  rw [sites]
  split
  · simp
  · rename_i is'
    rw [is] at is'
    cases is'

theorem sites_of_region {p : Part} {r : Region} (is : p.region? = some r) :
    p.sites = r.clauses.flatMap Clause.sites ++ (p.parts.flatMap sites).map (.within r) := by
  rw [sites]
  split
  · rename_i is'
    rw [is] at is'
    cases is'
  · rename_i r' is'
    cases is.symm.trans is'
    simp only [List.flatMap_subtype, List.unattach_attach]
    rfl

/-- The counted references in a part. -/
def counted (canon : DeclId → DeclId) (hidden : List DeclId) : Part → List Occurrence
  | .expr e => e.counted canon hidden
  | .stmt s => s.counted canon hidden

end Part

section
variable {canon : DeclId → DeclId} {hidden : List DeclId}

theorem countedInExprs_eq_flatMap (l : List Expr) :
    countedInExprs canon hidden l = l.flatMap (·.counted canon hidden) := by
  induction l with
  | nil => rfl
  | cons e rest ih => rw [countedInExprs, ih, List.flatMap_cons]

theorem countedInExpr?_eq_flatMap (e : Option Expr) :
    countedInExpr? canon hidden e = e.toList.flatMap (·.counted canon hidden) := by
  cases e <;> simp [countedInExpr?]

theorem countedInStmts_eq_flatMap (l : List Stmt) :
    countedInStmts canon hidden l = l.flatMap (·.counted canon hidden) := by
  induction l with
  | nil => rfl
  | cons s rest ih => rw [countedInStmts, ih, List.flatMap_cons]

theorem countedInStmt?_eq_flatMap (s : Option Stmt) :
    countedInStmt? canon hidden s = s.toList.flatMap (·.counted canon hidden) := by
  cases s <;> simp [countedInStmt?]

theorem countedInInits_eq_flatMap (l : List DeclInit) :
    countedInInits canon hidden l = (l.filterMap (·.init)).flatMap (·.counted canon hidden) := by
  induction l with
  | nil => rfl
  | cons i rest ih =>
    obtain ⟨d, init⟩ := i
    cases init <;> simp [countedInInits, countedInExpr?, ih]

theorem countedInArgument_eq_flatMap (k : ClauseKind) :
    countedInArgument canon hidden k = k.evaluated?.toList.flatMap (·.counted canon hidden) := by
  cases k <;> simp [countedInArgument, ClauseKind.evaluated?]

theorem countedInClauses_eq_flatMap (l : List Clause) :
    countedInClauses canon hidden l = l.flatMap fun k =>
      countItems canon hidden k.kind.tag k.items ++
        k.kind.evaluated?.toList.flatMap (·.counted canon hidden) := by
  induction l with
  | nil => rfl
  | cons k rest ih =>
    obtain ⟨kind, items, location⟩ := k
    rw [countedInClauses, ih, countedInArgument_eq_flatMap, List.flatMap_cons]

/-! ## Counting at the sites -/

/-- The occurrences that count where the variables are hidden. -/
def countedSites (canon : DeclId → DeclId) (hidden : List DeclId) (l : List Site) : List Occurrence :=
  (l.filter fun s => canon s.decl ∉ hidden ∧ s.Counts canon).map (·.occurrence canon)

@[simp] theorem countedSites_nil : countedSites canon hidden [] = [] := rfl

@[simp] theorem countedSites_append (l m : List Site) :
    countedSites canon hidden (l ++ m) = countedSites canon hidden l ++ countedSites canon hidden m := by
  simp [countedSites]

@[simp] theorem countedSites_flatMap {α : Type} (l : List α) (f : α → List Site) :
    countedSites canon hidden (l.flatMap f) = l.flatMap fun a => countedSites canon hidden (f a) := by
  simp [countedSites, List.filter_flatMap, List.map_flatMap]

theorem countedSites_single (d : DeclId) (location : Location) :
    countedSites canon hidden [{ decl := d, location }] = countOccurrence canon hidden (d, location) := by
  have counts : Site.Counts canon { decl := d, location } := nofun
  by_cases hide : canon d ∈ hidden
  · simp [countedSites, countOccurrence, hide]
  · simp [countedSites, countOccurrence, hide, counts, Site.occurrence]

theorem countedSites_itemSites (k : Clause) :
    countedSites canon hidden k.itemSites = countItems canon hidden k.kind.tag k.items := by
  unfold Clause.itemSites countItems
  split
  · rfl
  · rw [List.map_eq_flatMap, countedSites_flatMap]
    simp only [countedSites_single]

theorem mem_privateItems_iff {clauses : List Clause} {c : DeclId} :
    c ∈ privateItems canon clauses ↔
      ∃ k ∈ clauses, k.kind.tag = .priv ∧ ∃ i ∈ k.items, canon i.decl = c := by
  unfold privateItems
  rw [List.mem_flatMap]
  constructor
  · rintro ⟨k, clause, listed⟩
    split at listed
    · rename_i priv
      exact ⟨k, clause, priv, List.mem_map.mp listed⟩
    · cases listed
  · rintro ⟨k, clause, priv, listed⟩
    rw [← List.mem_map] at listed
    exact ⟨k, clause, by rwa [if_pos priv]⟩

theorem Site.counts_within {r : Region} {s : Site} :
    (s.within r).Counts canon ↔ canon s.decl ∉ privateItems canon r.clauses ∧ s.Counts canon := by
  simp only [Counts, within, List.forall_mem_cons, mem_privateItems_iff, not_exists, not_and]

theorem countedSites_within (r : Region) (l : List Site) :
    countedSites canon hidden (l.map (.within r)) =
      countedSites canon (hidden ++ privateItems canon r.clauses) l := by
  have same (s : Site) : (canon (s.within r).decl ∉ hidden ∧ (s.within r).Counts canon) ↔
      canon s.decl ∉ hidden ++ privateItems canon r.clauses ∧ s.Counts canon := by
    rw [Site.counts_within, List.mem_append, not_or, and_assoc]
    rfl
  simp only [countedSites, List.filter_map, List.map_map, Function.comp_def, same]
  rfl

theorem Part.counted_of_other {p : Part} (is : p.region? = none) :
    p.counted canon hidden = countedSites canon hidden p.ownSites ++
      p.parts.flatMap (·.counted canon hidden) := by
  match p with
  | .expr e =>
    cases e <;> simp [counted, ownSites, parts, Expr.parts, Expr.operands, Expr.counted,
      countedSites_single, countedInExprs_eq_flatMap, List.flatMap_map]
  | .stmt s =>
    cases s with
    | region => cases is
    | _ =>
      simp [counted, ownSites, parts, Stmt.parts, Stmt.counted, countedInInits_eq_flatMap,
        countedInExpr?_eq_flatMap, countedInStmts_eq_flatMap, countedInStmt?_eq_flatMap, List.flatMap_map]

theorem Part.counted_of_region {p : Part} {r : Region} (is : p.region? = some r) :
    p.counted canon hidden = countedInClauses canon hidden r.clauses ++
      p.parts.flatMap (·.counted canon (hidden ++ privateItems canon r.clauses)) := by
  match p with
  | .stmt (.region _ ⟨_, _, _, _, _, _, _⟩) =>
    cases is
    simp [counted, parts, Stmt.parts, Stmt.counted, countedInStmt?_eq_flatMap, List.flatMap_map]

/-- What the collector counts are the occurrences that are not hidden from outside and count by the
regions around them. -/
theorem Part.counted_eq (p : Part) (hidden : List DeclId) :
    p.counted canon hidden = countedSites canon hidden p.sites := by
  induction p using siteInduction generalizing hidden with
  | step p inside argument =>
    have parts (hidden : List DeclId) : ∀ q ∈ p.parts,
        q.counted canon hidden = countedSites canon hidden q.sites := fun q part => inside q part hidden
    cases is : p.region? with
    | none =>
      rw [counted_of_other is, sites_of_other is, countedSites_append, countedSites_flatMap,
        List.flatMap_congr (parts hidden)]
    | some r =>
      have clauses : ∀ k ∈ r.clauses, countItems canon hidden k.kind.tag k.items ++
          k.kind.evaluated?.toList.flatMap (·.counted canon hidden) =
            countedSites canon hidden k.sites := by
        intro k clause
        have evaluated : ∀ e ∈ k.kind.evaluated?.toList,
            e.counted canon hidden = countedSites canon hidden (Part.expr e).sites :=
          fun e mem => argument r is k clause e (Option.mem_toList.mp mem) hidden
        rw [Clause.sites, countedSites_append, countedSites_itemSites, countedSites_flatMap,
          List.flatMap_congr evaluated]
      rw [counted_of_region is, sites_of_region is, countedSites_append, countedSites_flatMap,
        countedSites_within, countedSites_flatMap, countedInClauses_eq_flatMap,
        List.flatMap_congr (parts _), List.flatMap_congr clauses]

theorem Stmt.counted_eq (s : Stmt) :
    s.counted canon [] = ((Part.stmt s).sites.filter (·.Counts canon)).map (·.occurrence canon) := by
  have same : s.counted canon [] = countedSites canon [] (Part.stmt s).sites :=
    (Part.stmt s).counted_eq []
  simpa [countedSites] using same

end

end Directives
