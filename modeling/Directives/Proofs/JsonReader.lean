import Directives.Proofs.JsonText
import Directives.Json.Reader
/-!
Values that mean a thing: they are read as it, and hold nothing that cannot be read as text. What is
written means what it was written for: numbers in the range of their field, labels of vocabularies,
lists, and things that may be absent.
-/

namespace Directives

/-- A vocabulary lists all of its members, and no two have the same label. -/
class LawfulVocabulary (α : Type) [Vocabulary α] : Prop where
  complete : ∀ a : α, a ∈ Vocabulary.members
  distinct : (Vocabulary.members.map (label (α := α))).Nodup

/-- A label stands for the member that has it. -/
theorem Vocabulary.find?_label {α : Type} [Vocabulary α] [LawfulVocabulary α] (a : α) :
    Vocabulary.find? α (label a) = some a := by
  have first (l : List α) (listed : a ∈ l) (distinct : (l.map label).Nodup) :
      l.find? (fun b => label b == label a) = some a := by
    induction l with
    | nil => cases listed
    | cons b rest ih =>
      rw [List.map_cons, List.nodup_cons] at distinct
      rcases List.mem_cons.mp listed with rfl | listed
      · exact List.find?_cons_of_pos (beq_self_eq_true _)
      · have other : label b ≠ label a := fun same => distinct.1 (same ▸ List.mem_map_of_mem listed)
        rw [List.find?_cons_of_neg (by simpa using other)]
        exact ih listed distinct.2
  exact first _ (LawfulVocabulary.complete a) LawfulVocabulary.distinct

/-- The integer has 128 bits. -/
def Wide.fits (v : Int) : Bool := Wide.least ≤ v && v ≤ Wide.greatest

namespace Json

/-- The value is read as the thing, and nothing in it is unreadable. -/
structure Means {α : Type} (read : Reader α) (j : Json) (a : α) : Prop where
  read : read j = some a
  readable : j.Readable

section
variable {α β γ δ ε : Type} {x : Option α} {y : Option β} {z : Option γ} {u : Option δ}
  {a : α} {b : β} {c : γ} {d : δ}

/-! What is made of several things that are there. -/

theorem bind_of_some {f : α → Option β} (hx : x = some a) (rest : f a = some b) :
    x >>= f = some b :=
  Option.bind_eq_some_iff.mpr ⟨a, hx, rest⟩

theorem some_of_one {f : α → ε} (hx : x = some a) : (x.bind fun a => some (f a)) = some (f a) := by
  rw [hx]
  rfl

theorem some_of_two {f : α → β → ε} (hx : x = some a) (hy : y = some b) :
    (x.bind fun a => y.bind fun b => some (f a b)) = some (f a b) := by
  rw [hx, hy]
  rfl

theorem some_of_three {f : α → β → γ → ε} (hx : x = some a) (hy : y = some b) (hz : z = some c) :
    (x.bind fun a => y.bind fun b => z.bind fun c => some (f a b c)) = some (f a b c) := by
  rw [hx, hy, hz]
  rfl

theorem some_of_four {f : α → β → γ → δ → ε} (hx : x = some a) (hy : y = some b) (hz : z = some c)
    (hu : u = some d) :
    (x.bind fun a => y.bind fun b => z.bind fun c => u.bind fun d => some (f a b c d)) =
      some (f a b c d) := by
  rw [hx, hy, hz, hu]
  rfl

end

/-! ## Plain values -/

variable {α : Type} {read : Reader α} {write : α → Json}

theorem means_bool (b : Bool) : Means .bool (.bool b) b := ⟨rfl, trivial⟩

theorem means_string (s : String) : Means .string (.str s) s := ⟨rfl, trivial⟩

theorem means_word {bits n : Nat} (inRange : n < capacity bits) :
    Means (.word bits) (ofNat n) n where
  read := by
    have bounds : (0 : Int) ≤ n ∧ (n : Int) < (capacity bits : Int) := by omega
    rw [ofNat, Reader.word, if_pos bounds]
    rfl
  readable := trivial

theorem means_wide {v : Int} (fits : Wide.fits v) : Means .wide (.int v) v where
  read := by
    rw [Wide.fits, Bool.and_eq_true, decide_eq_true_eq, decide_eq_true_eq] at fits
    exact Wide.check_eq_some.mpr ⟨rfl, fits⟩
  readable := trivial

theorem means_member [Vocabulary α] [LawfulVocabulary α] (a : α) :
    Means .member (ofMember a) a where
  read := Vocabulary.find?_label a
  readable := trivial

theorem means_nil : Means (.list read) (.arr []) [] := ⟨rfl, trivial⟩

theorem means_cons {a : α} {l : List α} {j : Json} {items : List Json} (first : Means read j a)
    (others : Means (.list read) (.arr items) l) :
    Means (.list read) (.arr (j :: items)) (a :: l) where
  read := by
    have rest : items.mapM read = some l := others.read
    change (j :: items).mapM read = _
    rw [List.mapM_cons, first.read, rest]
    rfl
  readable := ⟨first.readable, others.readable⟩

theorem means_list {fits : α → Bool} {l : List α}
    (each : ∀ a, fits a = true → Means read (write a) a) (all : l.all fits = true) :
    Means (.list read) (ofList write l) l := by
  induction l with
  | nil => exact means_nil
  | cons a rest ih =>
    rw [List.all_cons, Bool.and_eq_true] at all
    exact means_cons (each a all.1) (ih all.2)

theorem means_none : Means (.option read) .null none := ⟨rfl, trivial⟩

/-- Nothing that is there is written as what stands for nothing. -/
theorem means_some {a : α} {j : Json} (absent : read .null = none) (h : Means read j a) :
    Means (.option read) j (some a) where
  read := by
    rw [Reader.option]
    · rw [h.read, Option.map_some]
    · rintro rfl
      cases absent.symm.trans h.read
  readable := h.readable

theorem means_option {o : Option α} (absent : read .null = none)
    (each : ∀ a, Means read (write a) a) : Means (.option read) (ofOption write o) o := by
  cases o with
  | none => exact means_none
  | some a => exact means_some absent (each a)

theorem means_option_of_all {fits : α → Bool} {o : Option α} (absent : read .null = none)
    (each : ∀ a, fits a = true → Means read (write a) a) (all : o.all fits = true) :
    Means (.option read) (ofOption write o) o := by
  cases o with
  | none => exact means_none
  | some a => exact means_some absent (each a all)

theorem means_word_option {bits : Nat} {o : Option Nat} (fits : o.all (· < capacity bits) = true) :
    Means (.option (.word bits)) (ofOption ofNat o) o :=
  means_option_of_all rfl (fun _ fits => means_word (of_decide_eq_true fits)) fits

theorem means_wide_option {o : Option Int} (fits : o.all Wide.fits = true) :
    Means (.option .wide) (ofOption .int o) o :=
  means_option_of_all rfl (fun _ => means_wide) fits

/-! ## Records -/

namespace Record

variable {members : List (String × Json)} {index : Nat} {name : String} {j : Json} {a : α}

/-- Where no two members have the same name, the name of the member in a place leads to it. -/
theorem find_named (distinct : (members.map Prod.fst).Nodup)
    (placed : members[index]? = some (name, j)) :
    (named members).find index name = some (some j) := by
  have only : (members.filter fun m => m.1 = name) = [(name, j)] := by
    induction members generalizing index with
    | nil => cases placed
    | cons m rest ih =>
      rw [List.map_cons, List.nodup_cons] at distinct
      cases index with
      | zero =>
        obtain rfl : m = (name, j) := Option.some.inj placed
        rw [List.filter_cons_of_pos (by simp), List.filter_eq_nil_iff.mpr]
        intro m listed same
        rw [decide_eq_true_eq] at same
        exact distinct.1 (List.mem_map.mpr ⟨m, listed, same⟩)
      | succ index =>
        have placed : rest[index]? = some (name, j) := placed
        have other : m.1 ≠ name := fun same =>
          distinct.1 (List.mem_map.mpr ⟨_, List.mem_of_getElem? placed, same.symm⟩)
        rw [List.filter_cons_of_neg (by simpa using other)]
        exact ih distinct.2 placed
  rw [find, only]

/-! A field is read from the member in its place. -/

theorem required_eq (distinct : (members.map Prod.fst).Nodup)
    (placed : members[index]? = some (name, j)) (h : Means read j a) :
    (named members).required index name read = some a := by
  rw [required, find_named distinct placed]
  exact h.read

theorem optional_eq {a : Option α} (distinct : (members.map Prod.fst).Nodup)
    (placed : members[index]? = some (name, j)) (h : Means (.option read) j a) :
    (named members).optional index name read = some a := by
  rw [optional, find_named distinct placed]
  exact h.read

theorem defaulted_eq {d : α} (distinct : (members.map Prod.fst).Nodup)
    (placed : members[index]? = some (name, j)) (h : Means read j a) :
    (named members).defaulted index name read d = some a := by
  rw [defaulted, find_named distinct placed]
  exact h.read

end Record

end Json

end Directives
