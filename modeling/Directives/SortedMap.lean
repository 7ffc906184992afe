/-!
Finite maps that list their entries in ascending order of the keys. Each map is determined by
what it holds, because the order leaves no choice.
-/

namespace Directives

/-- Keys with a position in a fixed order; distinct keys have distinct positions. -/
class Ranked (κ : Type) where
  rank : κ → Nat
  rank_injective : ∀ a b, rank a = rank b → a = b

export Ranked (rank)

/-- A finite map whose entries stand in ascending order of their keys. -/
structure SortedMap (κ α : Type) [Ranked κ] where
  entries : List (κ × α)
  ascending : entries.Pairwise fun a b => rank a.1 < rank b.1

namespace SortedMap

variable {κ α : Type} [Ranked κ]

/-- The map without entries. -/
def empty : SortedMap κ α := ⟨[], .nil⟩

instance : Inhabited (SortedMap κ α) := ⟨empty⟩

instance [DecidableEq κ] [DecidableEq α] : DecidableEq (SortedMap κ α) := fun a b =>
  if h : a.entries = b.entries then
    isTrue (by cases a; cases b; cases h; rfl)
  else
    isFalse fun e => h (e ▸ rfl)

/-- Puts an entry at its place, over an entry of the same key. -/
def place (k : κ) (v : α) : List (κ × α) → List (κ × α)
  | [] => [(k, v)]
  | e :: rest =>
    if rank k < rank e.1 then (k, v) :: e :: rest
    else if rank k = rank e.1 then (k, v) :: rest
    else e :: place k v rest

theorem mem_place {k : κ} {v : α} {e : κ × α} {l : List (κ × α)} (h : e ∈ place k v l) :
    e = (k, v) ∨ e ∈ l := by
  induction l with
  | nil => simpa [place] using h
  | cons a rest ih =>
    rw [place] at h
    split at h
    · simpa using h
    · split at h
      · rcases List.mem_cons.1 h with h | h
        · exact .inl h
        · exact .inr (List.mem_cons_of_mem _ h)
      · rcases List.mem_cons.1 h with h | h
        · exact .inr (h ▸ List.mem_cons_self)
        · exact (ih h).imp id (List.mem_cons_of_mem _)

theorem place_ascending (k : κ) (v : α) {l : List (κ × α)}
    (h : l.Pairwise fun a b => rank a.1 < rank b.1) :
    (place k v l).Pairwise fun a b => rank a.1 < rank b.1 := by
  induction h with
  | nil => exact List.pairwise_singleton _ _
  | @cons a rest first tail ih =>
    rw [place]
    split
    · rename_i before
      refine .cons ?_ (.cons first tail)
      intro b hb
      rcases List.mem_cons.1 hb with rfl | hb
      · exact before
      · exact Nat.lt_trans before (first b hb)
    · split
      · rename_i same
        exact .cons (fun b hb => same ▸ first b hb) tail
      · rename_i notBefore notSame
        refine .cons (fun b hb => ?_) ih
        rcases mem_place hb with rfl | hb
        · exact Nat.lt_of_le_of_ne (Nat.le_of_not_lt notBefore) (Ne.symm notSame)
        · exact first b hb

/-- The map with `v` at `k`, whatever was there. -/
def insert (m : SortedMap κ α) (k : κ) (v : α) : SortedMap κ α :=
  ⟨place k v m.entries, place_ascending k v m.ascending⟩

/-- The map without an entry at `k`. -/
def erase (m : SortedMap κ α) (k : κ) : SortedMap κ α :=
  ⟨m.entries.filter fun e => rank e.1 != rank k, m.ascending.sublist List.filter_sublist⟩

/-- What the map holds at `k`. -/
def get? (m : SortedMap κ α) (k : κ) : Option α :=
  (m.entries.find? fun e => rank e.1 == rank k).map (·.2)

/-- The map has an entry at `k`. -/
def contains (m : SortedMap κ α) (k : κ) : Bool :=
  (m.get? k).isSome

/-- The keys, ascending. -/
def keys (m : SortedMap κ α) : List κ :=
  m.entries.map (·.1)

/-- The map with the given entries; of two entries with one key the later counts. -/
def ofList (l : List (κ × α)) : SortedMap κ α :=
  l.foldl (fun m e => m.insert e.1 e.2) empty

theorem find?_place_self (k : κ) (v : α) (l : List (κ × α)) :
    (place k v l).find? (fun e => rank e.1 == rank k) = some (k, v) := by
  induction l with
  | nil => simp [place]
  | cons a rest ih =>
    rw [place]
    split
    · simp
    · split
      · simp
      · rename_i notSame
        rw [List.find?_cons_of_neg (by simpa using Ne.symm notSame), ih]

theorem find?_place_of_ne {k k' : κ} (v : α) (l : List (κ × α)) (h : rank k ≠ rank k') :
    (place k v l).find? (fun e => rank e.1 == rank k') = l.find? fun e => rank e.1 == rank k' := by
  induction l with
  | nil => simp [place, h]
  | cons a rest ih =>
    rw [place]
    split
    · rw [List.find?_cons_of_neg (by simpa using h)]
    · split
      · rename_i same
        rw [List.find?_cons_of_neg (by simpa using h),
          List.find?_cons_of_neg (by simpa [← same] using h)]
      · by_cases hit : rank a.1 = rank k'
        · rw [List.find?_cons_of_pos (by simpa using hit),
            List.find?_cons_of_pos (by simpa using hit)]
        · rw [List.find?_cons_of_neg (by simpa using hit),
            List.find?_cons_of_neg (by simpa using hit), ih]

@[simp]
theorem get?_empty (k : κ) : (empty : SortedMap κ α).get? k = none := rfl

@[simp]
theorem get?_insert_self (m : SortedMap κ α) (k : κ) (v : α) : (m.insert k v).get? k = some v := by
  simp [get?, insert, find?_place_self]

theorem get?_insert_of_ne (m : SortedMap κ α) {k k' : κ} (v : α) (h : k ≠ k') :
    (m.insert k v).get? k' = m.get? k' := by
  have hr : rank k ≠ rank k' := fun e => h (Ranked.rank_injective k k' e)
  simp [get?, insert, find?_place_of_ne v m.entries hr]

@[simp]
theorem get?_erase_self (m : SortedMap κ α) (k : κ) : (m.erase k).get? k = none := by
  simp [get?, erase, List.find?_eq_none]

theorem get?_erase_of_ne (m : SortedMap κ α) {k k' : κ} (h : k ≠ k') :
    (m.erase k).get? k' = m.get? k' := by
  have hr : rank k ≠ rank k' := fun e => h (Ranked.rank_injective k k' e)
  have same : ∀ e : κ × α, decide ((rank e.1 != rank k) = true ∧ (rank e.1 == rank k') = true) =
      (rank e.1 == rank k') := by
    intro e
    by_cases he : rank e.1 = rank k' <;> simp [he, Ne.symm hr]
  simp only [get?, erase, List.find?_filter, same]

theorem find?_of_mem {k : κ} {v : α} {l : List (κ × α)}
    (ascending : l.Pairwise fun a b => rank a.1 < rank b.1) (mem : (k, v) ∈ l) :
    l.find? (fun e => rank e.1 == rank k) = some (k, v) := by
  induction ascending with
  | nil => cases mem
  | cons first _ ih =>
    obtain rfl | later := List.mem_cons.mp mem
    · exact List.find?_cons_of_pos (beq_self_eq_true _)
    · rw [List.find?_cons_of_neg (by simpa using Nat.ne_of_lt (first _ later)), ih later]

theorem get?_eq_some_iff {m : SortedMap κ α} {k : κ} {v : α} :
    m.get? k = some v ↔ (k, v) ∈ m.entries := by
  constructor
  · intro held
    obtain ⟨e, found, rfl⟩ := Option.map_eq_some_iff.mp held
    have key : e.1 = k := Ranked.rank_injective _ _ (by simpa using List.find?_some found)
    exact key ▸ List.mem_of_find?_eq_some found
  · intro mem
    rw [get?, find?_of_mem m.ascending mem, Option.map_some]

theorem eq_of_entries {m m' : SortedMap κ α} (same : m.entries = m'.entries) : m = m' := by
  cases m
  cases m'
  cases same
  rfl

theorem place_of_lt {k : κ} {l : List (κ × α)} (v : α) (h : ∀ e ∈ l, rank e.1 < rank k) :
    place k v l = l ++ [(k, v)] := by
  induction l with
  | nil => rfl
  | cons a rest ih =>
    obtain ⟨first, others⟩ := List.forall_mem_cons.1 h
    rw [place, if_neg (Nat.lt_asymm first), if_neg (Nat.ne_of_gt first), ih others]
    rfl

/-- A map is made again from its entries. -/
theorem ofList_entries (m : SortedMap κ α) : ofList m.entries = m := by
  have further (l : List (κ × α)) (m : SortedMap κ α)
      (ascending : (m.entries ++ l).Pairwise fun a b => rank a.1 < rank b.1) :
      (l.foldl (fun m e => m.insert e.1 e.2) m).entries = m.entries ++ l := by
    induction l generalizing m with
    | nil => rw [List.foldl_nil, List.append_nil]
    | cons e rest ih =>
      have before : ∀ a ∈ m.entries, rank a.1 < rank e.1 := fun a ha =>
        (List.pairwise_append.1 ascending).2.2 a ha e List.mem_cons_self
      have placed : (m.insert e.1 e.2).entries = m.entries ++ [e] := place_of_lt e.2 before
      rw [List.append_cons, ← placed] at ascending
      rw [List.foldl_cons, ih _ ascending, placed, ← List.append_cons]
  exact eq_of_entries (further m.entries empty m.ascending)

end SortedMap

/-- A finite set, listed in ascending order. -/
abbrev SortedSet (κ : Type) [Ranked κ] := SortedMap κ Unit

end Directives
