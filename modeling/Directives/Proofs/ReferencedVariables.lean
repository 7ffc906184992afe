import Directives.Proofs.Declarations
import Directives.Proofs.ReferenceSites
/-!
The variables that the body of a region refers to. They are collected from the occurrences that count, each
where it first occurs; and what is collected is the variable that something stands for, so that nothing
leads further from there.
-/

namespace Directives

/-! ## First occurrences -/

theorem nodup_eraseDups (l : List DeclId) : l.eraseDups.Nodup := by
  match l with
  | [] => exact .nil
  | v :: rest =>
    rw [List.eraseDups_cons, List.nodup_cons, List.mem_eraseDups]
    exact ⟨by simp, nodup_eraseDups _⟩
termination_by l.length
decreasing_by exact Nat.lt_succ_of_le (List.length_filter_le _ _)

theorem eraseDups_filter_cons {seen : List DeclId} {v : DeclId} (new : v ∉ seen) (l : List DeclId) :
    ((v :: l).filter (· ∉ seen)).eraseDups = v :: (l.filter (· ∉ v :: seen)).eraseDups := by
  have both (w : DeclId) : decide (w ∉ v :: seen) = (!w == v && decide (w ∉ seen)) := by
    rw [Bool.eq_iff_iff]
    simp
  rw [List.filter_cons_of_pos (by simpa using new), List.eraseDups_cons, List.filter_filter]
  simp only [both]

/-- The variables are those of the list without repetitions, in the order in which they first occur. -/
theorem map_firstOccurrences (seen : List DeclId) (l : List Occurrence) :
    (firstOccurrences seen l).map (·.1) = ((l.map (·.1)).filter (· ∉ seen)).eraseDups := by
  induction l generalizing seen with
  | nil => rfl
  | cons a rest ih =>
    rw [firstOccurrences, List.map_cons]
    by_cases known : a.1 ∈ seen
    · rw [if_pos (List.contains_iff_mem.mpr known), List.filter_cons_of_neg (by simpa using known), ih]
    · rw [if_neg (by simpa using known), List.map_cons, eraseDups_filter_cons known, ih]

theorem mem_of_mem_firstOccurrences {seen : List DeclId} {l : List Occurrence} {o : Occurrence}
    (h : o ∈ firstOccurrences seen l) : o ∈ l := by
  induction l generalizing seen with
  | nil => exact h
  | cons a rest ih =>
    rw [firstOccurrences] at h
    split at h
    · exact List.mem_cons_of_mem _ (ih h)
    · rcases List.mem_cons.mp h with rfl | h
      · exact List.mem_cons_self
      · exact List.mem_cons_of_mem _ (ih h)

theorem mem_map_firstOccurrences {seen : List DeclId} {l : List Occurrence} {v : DeclId} :
    v ∈ (firstOccurrences seen l).map (·.1) ↔ v ∈ l.map (·.1) ∧ v ∉ seen := by
  rw [map_firstOccurrences, List.mem_eraseDups, List.mem_filter, decide_eq_true_eq]

theorem unseen_of_mem_firstOccurrences {seen : List DeclId} {l : List Occurrence} {o : Occurrence}
    (h : o ∈ firstOccurrences seen l) : o.1 ∉ seen :=
  (mem_map_firstOccurrences.mp (List.mem_map_of_mem h)).2

/-- The first occurrence of a variable is listed, and no other one. -/
theorem mem_firstOccurrences_iff {seen : List DeclId} {l : List Occurrence} {v : DeclId}
    {location : Location} (unseen : v ∉ seen) :
    (v, location) ∈ firstOccurrences seen l ↔ l.find? (·.1 = v) = some (v, location) := by
  induction l generalizing seen with
  | nil => simp [firstOccurrences]
  | cons a rest ih =>
    rw [firstOccurrences]
    by_cases same : a.1 = v
    · rw [List.find?_cons_of_pos (by simpa using same), if_neg (by simpa [same] using unseen),
        List.mem_cons]
      have once : (v, location) ∉ firstOccurrences (a.1 :: seen) rest := fun again =>
        unseen_of_mem_firstOccurrences again (same ▸ List.mem_cons_self)
      simp [once, eq_comm]
    · rw [List.find?_cons_of_neg (by simpa using same)]
      split
      · exact ih unseen
      · rw [List.mem_cons, ih (by simp [unseen, Ne.symm same]), or_iff_right]
        rintro rfl
        exact same rfl

/-! ## What is collected -/

theorem canonical_of_mem_referencedVariables {decls : DeclTable} {body : Stmt} {o : Occurrence}
    (h : o ∈ referencedVariables decls body) : decls.canonical o.1 = o.1 := by
  have counted := mem_of_mem_firstOccurrences h
  rw [Stmt.counted_eq] at counted
  obtain ⟨s, -, rfl⟩ := List.mem_map.mp counted
  exact decls.canonical_canonical s.decl

theorem nodup_referencedVariables (decls : DeclTable) (body : Stmt) :
    ((referencedVariables decls body).map (·.1)).Nodup := by
  rw [referencedVariables, map_firstOccurrences]
  exact nodup_eraseDups _

/-- The references that are collected from a body are those of the occurrences that count: of each variable
that some of them stand for the first one, in source order. -/
theorem referencedVariables_collects (decls : DeclTable) (body : Stmt) :
    let counted := ((Part.stmt body).sites.filter (·.Counts decls.canonical)).map
      (·.occurrence decls.canonical)
    (referencedVariables decls body).map (·.1) = (counted.map (·.1)).eraseDups ∧
      ((referencedVariables decls body).map (·.1)).Nodup ∧
      ∀ v location, (v, location) ∈ referencedVariables decls body ↔
        counted.find? (·.1 = v) = some (v, location) := by
  intro counted
  have collected : referencedVariables decls body = firstOccurrences [] counted := by
    rw [referencedVariables, Stmt.counted_eq]
  refine ⟨?_, nodup_referencedVariables decls body, ?_⟩
  · rw [collected, map_firstOccurrences]
    simp
  · intro v location
    rw [collected]
    exact mem_firstOccurrences_iff List.not_mem_nil

/-- The task has a copy of the variable, so that the reference behind it is the first that counts. -/
example :
    let use (line : Nat) : Stmt := .expr ⟨line, 1⟩ (.ref { ty := .int32, location := ⟨line, 5⟩ } ⟨0⟩)
    let task : Region :=
      { kind := .task, body := some (use 3), location := ⟨2, 1⟩
        clauses :=
          [{ kind := .priv, items := [{ decl := ⟨0⟩, location := ⟨2, 14⟩ }], location := ⟨2, 6⟩ }] }
    referencedVariables ⟨[]⟩ (.block ⟨1, 1⟩ [.region ⟨2, 1⟩ task, use 4]) = [(⟨0⟩, ⟨4, 5⟩)] := by
  rfl

end Directives
