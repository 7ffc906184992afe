import Directives.Proofs.CurrentFrame
import Directives.Proofs.FrameAnswer
/-!
Inference records every inferred attribute twice: as an implicit entry of the current frame, and in
the implicit clauses of the region. What holds the two together is kept from one inferred variable
to the next: the clauses list exactly the implicit entries, and none twice.
-/

namespace Directives

/-- What a map holds besides what it holds at a key stays when something is put there. -/
theorem SortedMap.exists_rest {κ α : Type} [Ranked κ] (m : SortedMap κ α) (k : κ) :
    ∃ rest, m.entries.Perm ((m.get? k).toList.map (k, ·) ++ rest) ∧
      ∀ v, (m.insert k v).entries.Perm ((k, v) :: rest) := by
  obtain ⟨l, ascending⟩ := m
  simp only [SortedMap.insert, SortedMap.get?]
  induction ascending with
  | nil => exact ⟨[], .refl _, fun _ => .refl _⟩
  | @cons e rest first tail ih =>
    simp only [place]
    split
    · rename_i before
      have absent : (e :: rest).find? (fun e => rank e.1 == rank k) = none := by
        rw [List.find?_eq_none]
        intro x hx
        rcases List.mem_cons.mp hx with rfl | hx
        · simpa using Nat.ne_of_gt before
        · simpa using Nat.ne_of_gt (Nat.lt_trans before (first x hx))
      rw [absent]
      exact ⟨e :: rest, .refl _, fun _ => .refl _⟩
    · split
      · rename_i same
        obtain rfl : e.1 = k := Ranked.rank_injective _ _ same.symm
        rw [List.find?_cons_of_pos (by simp)]
        exact ⟨rest, .refl _, fun _ => .refl _⟩
      · rename_i other
        rw [List.find?_cons_of_neg (by simpa using Ne.symm other)]
        obtain ⟨others, before, after⟩ := ih
        refine ⟨e :: others, ?_, fun v => ?_⟩
        · exact (before.cons e).trans List.perm_middle.symm
        · exact ((after v).cons e).trans (.swap _ _ _)

/-- Adding a member to the list at a key adds it to the members of all lists. -/
theorem SortedMap.perm_flatMap_insert {κ α : Type} [Ranked κ] (m : SortedMap κ (List α)) (k : κ)
    (v : α) :
    ((m.insert k ((m.get? k).getD [] ++ [v])).entries.flatMap (·.2)).Perm
      (v :: m.entries.flatMap (·.2)) := by
  obtain ⟨rest, before, after⟩ := m.exists_rest k
  have added := (after ((m.get? k).getD [] ++ [v])).flatMap_right (·.2)
  have members := before.flatMap_right (·.2)
  refine added.trans (.trans ?_ (members.symm.cons v))
  cases m.get? k with
  | none => exact .refl _
  | some held =>
    simp only [Option.getD_some, Option.toList_some, List.map_cons, List.map_nil,
      List.cons_append, List.nil_append, List.flatMap_cons, List.append_assoc]
    exact List.perm_middle

/-- The lists of implicit clauses: one for each attribute that a clause can give implicitly. -/
inductive ImplicitList where
  | firstprivate
  | priv
  | shared
  | map (type : MapType)

namespace ImplicitList

/-- The variables that the clauses list. -/
def vars (c : ImplicitClauses) : ImplicitList → List DeclId
  | .firstprivate => c.firstprivate
  | .priv => c.priv
  | .shared => c.shared
  | .map type => c.mapped type

/-- The attribute that the variables of the list have. -/
def Gives : ImplicitList → Sharing → Modifier → Prop
  | .firstprivate, kind, _ => kind = .firstprivate
  | .priv, kind, _ => kind = .priv
  | .shared, kind, _ => kind = .shared
  | .map type, kind, modifier => kind = .mapped ∧ modifier = .map type

end ImplicitList

namespace ImplicitClauses

/-- The variables of all lists. -/
def listed (c : ImplicitClauses) : List DeclId :=
  c.firstprivate ++ c.priv ++ c.shared ++ c.map.entries.flatMap (·.2)

variable {c : ImplicitClauses} {var : DeclId} {kind : Sharing} {modifier : Modifier}

theorem exists_mem_vars {v : DeclId} (h : v ∈ c.listed) : ∃ l : ImplicitList, v ∈ l.vars c := by
  simp only [listed, List.mem_append, List.mem_flatMap] at h
  obtain ((first | priv) | shared) | ⟨⟨type, vars⟩, entry, inside⟩ := h
  · exact ⟨.firstprivate, first⟩
  · exact ⟨.priv, priv⟩
  · exact ⟨.shared, shared⟩
  · refine ⟨.map type, ?_⟩
    rw [ImplicitList.vars, mapped, SortedMap.get?_eq_some_iff.mpr entry]
    exact inside

theorem perm_listed_add (var : DeclId) {l : ImplicitList} (gives : l.Gives kind modifier) :
    (c.add var kind modifier).listed.Perm (var :: c.listed) := by
  cases l with
  | firstprivate =>
    cases gives
    have after : (c.add var .firstprivate modifier).listed =
        c.firstprivate ++ var :: (c.priv ++ c.shared ++ c.map.entries.flatMap (·.2)) := by
      simp [add, listed]
    have before : c.listed =
        c.firstprivate ++ (c.priv ++ c.shared ++ c.map.entries.flatMap (·.2)) := by
      simp [listed]
    rw [after, before]
    exact List.perm_middle
  | priv =>
    cases gives
    have after : (c.add var .priv modifier).listed =
        (c.firstprivate ++ c.priv) ++ var :: (c.shared ++ c.map.entries.flatMap (·.2)) := by
      simp [add, listed]
    have before : c.listed =
        (c.firstprivate ++ c.priv) ++ (c.shared ++ c.map.entries.flatMap (·.2)) := by
      simp [listed]
    rw [after, before]
    exact List.perm_middle
  | shared =>
    cases gives
    have after : (c.add var .shared modifier).listed =
        (c.firstprivate ++ c.priv ++ c.shared) ++ var :: c.map.entries.flatMap (·.2) := by
      simp [add, listed]
    rw [after]
    exact List.perm_middle
  | map type =>
    obtain ⟨rfl, rfl⟩ := gives
    exact ((c.map.perm_flatMap_insert type var).append_left _).trans List.perm_middle

theorem mem_vars_add {l l' : ImplicitList} (gives : l.Gives kind modifier) {v : DeclId} :
    v ∈ l'.vars (c.add var kind modifier) ↔
      v ∈ l'.vars c ∨ (v = var ∧ l'.Gives kind modifier) := by
  cases l with
  | firstprivate | priv | shared =>
    cases gives
    cases l' <;> simp [add, ImplicitList.vars, ImplicitList.Gives, mapped]
  | map type =>
    obtain ⟨rfl, rfl⟩ := gives
    cases l' with
    | firstprivate | priv | shared => simp [add, ImplicitList.vars, ImplicitList.Gives]
    | map type' =>
      by_cases same : type = type'
      · subst same
        simp [add, ImplicitList.vars, ImplicitList.Gives, mapped]
      · simp [add, ImplicitList.vars, ImplicitList.Gives, mapped, SortedMap.get?_insert_of_ne _ _ same,
          same]

end ImplicitClauses

section
variable {o : Options} {decls : DeclTable} {stack : FrameStack} {f : Frame} {outer : List Frame}
  {directive : DirectiveKind} {var : DeclId} {d : VarDecl} {kind : Sharing} {modifier : Modifier}

theorem gives_of_inferMapping {category : Category} {behavior : MapBehavior}
    (h : inferMapping category behavior = .attr kind modifier) :
    ∃ l : ImplicitList, l.Gives kind modifier := by
  unfold inferMapping at h
  cases behavior <;> cases category <;> cases h <;>
    first
    | exact ⟨.firstprivate, rfl⟩
    | exact ⟨.map _, rfl, rfl⟩

theorem gives_of_inferred {a : Attribute} {current : Nat}
    (h : a.inferred current = .attr kind modifier) : ∃ l : ImplicitList, l.Gives kind modifier := by
  unfold Attribute.inferred at h
  split at h
  · split at h
    · rename_i hk
      cases h
      exact ⟨.shared, hk⟩
    · rename_i hk
      cases h
      exact ⟨.priv, hk⟩
    · rename_i hk
      cases h
      exact ⟨.firstprivate, hk⟩
    · cases h
  · cases h

/-- An attribute is inferred only for a variable about which the frame says nothing yet, and whose
nature leaves it open. -/
theorem infer_eq_attr (inside : stack.Inside f outer) (canonical : decls.canonical var = var)
    (hd : decls.get? var = some d) (h : infer o decls stack f directive var d = .attr kind modifier) :
    d.threadprivate = false ∧ f.entryOf? var = none ∧ f.isRejected var = false ∧
      f.LeavesOpen o var d ∧ ∃ l : ImplicitList, l.Gives kind modifier := by
  unfold infer at h
  split at h
  · cases h
  · rename_i untouched
    simp only [SortedMap.contains, Bool.or_eq_true, not_or, Bool.not_eq_true,
      Option.isSome_eq_false_iff, Option.isNone_iff_eq_none] at untouched
    obtain ⟨⟨notThreadprivate, noEntry⟩, notRejected⟩ := untouched
    have hcurrent : stack.depth - 1 = outer.length := by rw [inside.depth]; rfl
    rw [resolve_of_canonical canonical hd notThreadprivate, inside.visible, hcurrent] at h
    have leavesOpen : f.LeavesOpen o var d := by
      refine Classical.byContradiction fun fixed => ?_
      obtain ⟨a, answer, origin, here⟩ :=
        Frame.answer_of_not_leavesOpen (i := outer.length) fixed noEntry
      simp [resolveDeclared, answer, Resolution.attr?, origin, here] at h
    refine ⟨notThreadprivate, noEntry, notRejected, leavesOpen, ?_⟩
    dsimp only at h
    split at h
    · cases h
    · cases h
    · cases h
    · cases h
    · split at h
      · cases h
      · split at h
        · split at h
          · cases h
          · exact gives_of_inferMapping h
        · split at h
          · cases h
          · split at h
            · exact gives_of_inferred h
            · cases h

/-- What the inference of one variable leaves of the current frame and of the clauses: it keeps
them, or rejects the variable, or enters it in both. -/
inductive InferenceStep (o : Options) (decls : DeclTable) (stack : FrameStack)
    (directive : DirectiveKind) (var : DeclId) (f : Frame) (c : ImplicitClauses) :
    Frame → ImplicitClauses → Prop where
  | kept : InferenceStep o decls stack directive var f c f c
  | rejected : InferenceStep o decls stack directive var f c (f.reject var) c
  | entered {d kind modifier copy location} (declared : decls.get? var = some d)
      (inferred : infer o decls stack f directive var d = .attr kind modifier) :
      InferenceStep o decls stack directive var f c
        (f.insertImplicit var { kind, modifier, copy, location }).1 (c.add var kind modifier)

theorem inferOccurrence_works {s : Scope} {c : ImplicitClauses} (h : s.stack.Inside f outer)
    (occ : Occurrence) :
    ∃ f', s.stack.Works f outer (inferOccurrence o decls directive (s, c) occ).1.stack f' ∧
      InferenceStep o decls s.stack directive occ.1 f c f'
        (inferOccurrence o decls directive (s, c) occ).2 := by
  have here := FrameStack.Works.refl h
  unfold inferOccurrence
  rw [h.current?]
  cases hd : decls.get? occ.1 with
  | none => exact ⟨f, here, .kept⟩
  | some d =>
    dsimp only
    cases hinfer : infer o decls s.stack f directive occ.1 d with
    | nothing => exact ⟨f, here, .kept⟩
    | unresolved context =>
      exact ⟨_, here.modifyCurrent _ (f.continues_reject _), .rejected⟩
    | reductionInTask => exact ⟨_, here.modifyCurrent _ (f.continues_reject _), .rejected⟩
    | attr kind modifier =>
      have copied := Scope.copyFor_works h kind
      exact ⟨_, copied.modifyCurrent _ (f.continues_insertImplicit _ _), .entered hd hinfer⟩

theorem foldl_inferOccurrence_works {s : Scope} {c : ImplicitClauses} (h : s.stack.Inside f outer)
    (occs : List Occurrence) :
    ∃ f', s.stack.Works f outer
      (occs.foldl (inferOccurrence o decls directive) (s, c)).1.stack f' := by
  induction occs generalizing s f c with
  | nil => exact ⟨f, .refl h⟩
  | cons occ rest ih =>
    obtain ⟨f₁, works₁, -⟩ := inferOccurrence_works h occ
    obtain ⟨f₂, works₂⟩ := ih works₁.inside
    exact ⟨f₂, works₁.trans works₂⟩

theorem inferClauses_works {s : Scope} (h : s.stack.Inside f outer) (r : Region) :
    ∃ f', s.stack.Works f outer (inferClauses o decls r s).1.stack f' := by
  unfold inferClauses
  split
  · exact ⟨f, .refl h⟩
  · exact foldl_inferOccurrence_works h _

end

/-- The clauses list the implicit entries of the frame, each once. Of these variables, all among
`vars`, nothing but the entry says what they are. -/
structure RecordsImplicit (o : Options) (decls : DeclTable) (vars : List DeclId) (f : Frame)
    (c : ImplicitClauses) : Prop where
  mem_iff : ∀ (l : ImplicitList) v, v ∈ l.vars c ↔
    ∃ e, f.entryOf? v = some e ∧ e.implicit = true ∧ l.Gives e.kind e.modifier
  entered : ∀ v ∈ c.listed, ∃ e, f.entryOf? v = some e
  nodup : c.listed.Nodup
  leavesOpen : ∀ v e, f.entryOf? v = some e → e.implicit = true → v ∈ vars ∧
    ∃ d, decls.get? v = some d ∧ d.threadprivate = false ∧ f.LeavesOpen o v d

namespace RecordsImplicit

variable {o : Options} {decls : DeclTable} {vars : List DeclId} {stack : FrameStack}
  {outer : List Frame} {f f' : Frame} {c c' : ImplicitClauses} {directive : DirectiveKind}
  {var : DeclId}

/-- Before inference there is nothing to list. -/
theorem of_allExplicit (explicit : f.AllExplicit) : RecordsImplicit o decls vars f {} where
  mem_iff l v := by
    have nothing : l.vars {} = [] := by cases l <;> rfl
    rw [nothing]
    refine ⟨fun h => absurd h List.not_mem_nil, ?_⟩
    rintro ⟨e, he, implicit, -⟩
    rw [explicit v e he] at implicit
    cases implicit
  entered v hv := absurd hv List.not_mem_nil
  nodup := .nil
  leavesOpen v e he implicit := by
    rw [explicit v e he] at implicit
    cases implicit

theorem step (records : RecordsImplicit o decls vars f c) (inside : stack.Inside f outer)
    (mem : var ∈ vars) (canonical : decls.canonical var = var)
    (h : InferenceStep o decls stack directive var f c f' c') :
    RecordsImplicit o decls vars f' c' := by
  cases h with
  | kept => exact records
  | rejected =>
    have entry (v : DeclId) : (f.reject var).entryOf? v = f.entryOf? v := by
      rw [Frame.entryOf?, Frame.entries_reject, Frame.entryOf?]
    have marks : (f.reject var).counters = f.counters ∧ (f.reject var).locals = f.locals := by
      unfold Frame.reject
      split <;> exact ⟨rfl, rfl⟩
    exact {
      mem_iff l v := by rw [records.mem_iff]; simp only [entry]
      entered v hv := by rw [entry]; exact records.entered v hv
      nodup := records.nodup
      leavesOpen v e he implicit := by
        rw [entry] at he
        obtain ⟨hv, d, hd, notThreadprivate, leavesOpen⟩ := records.leavesOpen v e he implicit
        exact ⟨hv, d, hd, notThreadprivate, leavesOpen.congr marks.1 marks.2⟩ }
  | @entered d kind modifier copy location declared inferred =>
    obtain ⟨notThreadprivate, noEntry, notRejected, leavesOpen, l₀, gives⟩ :=
      infer_eq_attr inside canonical declared inferred
    have fresh : f.entries.contains var = false := by
      rw [SortedMap.contains, show f.entries.get? var = none from noEntry]
      rfl
    have recorded : (f.insertImplicit var { kind, modifier, copy, location }).1 =
        f.setEntry var { kind, modifier, copy, location, implicit := true } := by
      rw [Frame.insertImplicit, fresh, notRejected]
      rfl
    have unlisted : var ∉ c.listed := by
      intro hv
      obtain ⟨e, he⟩ := records.entered var hv
      rw [noEntry] at he
      cases he
    have perm := ImplicitClauses.perm_listed_add (c := c) var gives
    rw [recorded]
    exact {
      mem_iff l v := by
        rw [ImplicitClauses.mem_vars_add gives, records.mem_iff]
        by_cases same : var = v
        · subst same
          simp [noEntry]
        · simp [Frame.entryOf?_setEntry_of_ne same, Ne.symm same]
      entered v hv := by
        by_cases same : var = v
        · subst same
          exact ⟨_, Frame.entryOf?_setEntry_self⟩
        · rw [Frame.entryOf?_setEntry_of_ne same]
          rcases List.mem_cons.mp (perm.mem_iff.mp hv) with rfl | hv
          · exact absurd rfl same
          · exact records.entered v hv
      nodup := perm.nodup_iff.mpr (List.nodup_cons.mpr ⟨unlisted, records.nodup⟩)
      leavesOpen v e he implicit := by
        by_cases same : var = v
        · subst same
          exact ⟨mem, d, declared, notThreadprivate, leavesOpen.congr rfl rfl⟩
        · rw [Frame.entryOf?_setEntry_of_ne same] at he
          obtain ⟨hv, d', hd', notThreadprivate', leavesOpen'⟩ :=
            records.leavesOpen v e he implicit
          exact ⟨hv, d', hd', notThreadprivate', leavesOpen'.congr rfl rfl⟩ }

theorem foldl {s : Scope} (records : RecordsImplicit o decls vars f c)
    (inside : s.stack.Inside f outer) {occs : List Occurrence}
    (known : ∀ occ ∈ occs, occ.1 ∈ vars ∧ decls.canonical occ.1 = occ.1) :
    ∃ f', (occs.foldl (inferOccurrence o decls directive) (s, c)).1.stack.Inside f' outer ∧
      RecordsImplicit o decls vars f' (occs.foldl (inferOccurrence o decls directive) (s, c)).2 := by
  induction occs generalizing s f c with
  | nil => exact ⟨f, inside, records⟩
  | cons occ rest ih =>
    obtain ⟨mem, canonical⟩ := known occ List.mem_cons_self
    obtain ⟨f₁, works₁, step⟩ := inferOccurrence_works (o := o) (c := c) inside occ
    exact ih (records.step inside mem canonical step) works₁.inside
      fun occ' hocc' => known occ' (List.mem_cons_of_mem _ hocc')

end RecordsImplicit

end Directives
