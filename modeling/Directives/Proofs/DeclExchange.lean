import Directives.Exchange.Decl
import Directives.Proofs.JsonReader
/-!
Types and declarations are read as they were written, where their numbers are in the range of their
fields.
-/

namespace Directives

open Json

instance : LawfulVocabulary StorageClass where
  complete a := by cases a <;> simp [Vocabulary.members]
  distinct := by simp [Vocabulary.members, label]

instance : LawfulVocabulary DeclScope where
  complete a := by cases a <;> simp [Vocabulary.members]
  distinct := by simp [Vocabulary.members, label]

namespace Location

/-- Line and column have 32 bits. -/
def fits (l : Location) : Bool := l.line < capacity 32 && l.column < capacity 32

theorem means {l : Location} (fits : l.fits) : Means ofJson? l.toJson l := by
  rw [Location.fits, Bool.and_eq_true, decide_eq_true_eq, decide_eq_true_eq] at fits
  have line := means_word fits.1
  have column := means_word fits.2
  constructor
  · have names : ["line", "column"].Nodup := by decide
    refine bind_of_some rfl ?_
    refine bind_of_some (Record.required_eq names rfl line) ?_
    refine bind_of_some (Record.required_eq names rfl column) ?_
    rfl
  · exact ⟨line.readable, column.readable, trivial⟩

end Location

namespace DeclId

/-- The identity of a declaration has 32 bits. -/
def fits (id : DeclId) : Bool := id.index < capacity 32

theorem means {id : DeclId} (fits : id.fits) : Means ofJson? id.toJson id := by
  have index := means_word (of_decide_eq_true fits)
  exact ⟨congrArg (Option.map DeclId.mk) index.read, index.readable⟩

end DeclId

namespace IntType

theorem means (t : IntType) : Means ofJson? t.toJson t := by
  have bits := means_word t.word
  constructor
  · have names : ["bits", "signed"].Nodup := by decide
    refine bind_of_some rfl ?_
    refine bind_of_some (Record.required_eq names rfl bits) ?_
    refine bind_of_some (Record.required_eq names rfl (means_bool _)) ?_
    exact dif_pos t.word
  · exact ⟨bits.readable, trivial, trivial⟩

end IntType

namespace Ty

/-- The numbers of the type are in the range of their fields. -/
def fits : Ty → Bool
  | .float _ bits => bits < capacity 16
  | .pointer _ t => t.fits
  | .array _ t length => t.fits && length.all (· < capacity 64)
  | .int _ _ | .bool _ | .record _ _ _ | .iterator _ _ | .void _ => true

section
variable {inner : Reader Ty} {c : Bool} {j : Json}

/-! The forms of types, for whatever the values inside them are read as. -/

theorem readForm_int {t : IntType} (type : IntType.ofJson? j = some t) :
    readForm inner c (tagged "Int" j) = some (.int c t) :=
  some_of_one (f := Ty.int c) type

theorem readForm_float {bits : Nat} (width : Reader.word 16 j = some bits) :
    readForm inner c (tagged "Float" (.obj [("bits", j)])) = some (.float c bits) :=
  some_of_one (f := Ty.float c) width

theorem readForm_pointer {t : Ty} (pointee : inner j = some t) :
    readForm inner c (tagged "Pointer" j) = some (.pointer c t) :=
  some_of_one (f := Ty.pointer c) pointee

theorem readForm_array {t : Ty} {j' : Json} {length : Option Nat} (element : inner j = some t)
    (size : Reader.option (.word 64) j' = some length) :
    readForm inner c (tagged "Array" (.obj [("element", j), ("len", j')])) =
      some (.array c t length) :=
  some_of_two (f := Ty.array c) element size

end

theorem means_qualified {n : Nat} {c : Bool} {form : Json} {t : Ty}
    (h : Means (readForm (readWithin n) c) form t) :
    Means (readWithin (n + 1)) (qualified c form) t :=
  ⟨h.read, h.readable, trivial, trivial⟩

theorem means_within (t : Ty) {n : Nat} (fits : t.fits) (low : t.toJson.height < n) :
    Means (readWithin n) t.toJson t := by
  obtain ⟨n, rfl⟩ : ∃ m, n = m + 1 := ⟨n - 1, by omega⟩
  match t with
  | .int c t =>
    have type := t.means
    exact means_qualified ⟨readForm_int type.read, type.readable, trivial⟩
  | .float c bits =>
    have width := means_word (of_decide_eq_true fits)
    exact means_qualified ⟨readForm_float width.read, ⟨width.readable, trivial⟩, trivial⟩
  | .pointer c t =>
    simp only [toJson, qualified, tagged, height, membersHeight] at low
    have pointee : Means (readWithin n) t.toJson t := t.means_within fits (by omega)
    exact means_qualified ⟨readForm_pointer pointee.read, pointee.readable, trivial⟩
  | .array c t length =>
    rw [Ty.fits, Bool.and_eq_true] at fits
    simp only [toJson, qualified, tagged, height, membersHeight] at low
    have element : Means (readWithin n) t.toJson t := t.means_within fits.1 (by omega)
    have size := means_word_option fits.2
    exact means_qualified ⟨readForm_array element.read size.read,
      ⟨element.readable, size.readable, trivial⟩, trivial⟩
  | .record c name m => exact means_qualified ⟨rfl, ⟨trivial, trivial, trivial⟩, trivial⟩
  | .iterator c r => exact means_qualified ⟨rfl, ⟨trivial, trivial⟩, trivial⟩
  | .bool c => exact means_qualified ⟨rfl, trivial⟩
  | .void c => exact means_qualified ⟨rfl, trivial⟩

theorem means {t : Ty} (fits : t.fits) : Means ofJson? t.toJson t :=
  have within := t.means_within fits (Nat.lt_succ_self _)
  ⟨within.read, within.readable⟩

end Ty

namespace VarDecl

/-- The numbers of the declaration are in the range of their fields. -/
def fits (d : VarDecl) : Bool :=
  d.id.fits && d.ty.fits && d.captureOf.all (·.fits) && d.location.fits

theorem means {d : VarDecl} (fits : d.fits) : Means ofJson? d.toJson d := by
  simp only [VarDecl.fits, Bool.and_eq_true] at fits
  obtain ⟨⟨⟨id, ty⟩, captured⟩, location⟩ := fits
  have id := DeclId.means id
  have ty := Ty.means ty
  have storage := means_member d.storage
  have scope := means_member d.scope
  have captured : Means (.option DeclId.ofJson?) (ofOption DeclId.toJson d.captureOf) d.captureOf :=
    means_option_of_all rfl (fun _ => DeclId.means) captured
  have location := Location.means location
  constructor
  · have names :
        ["id", "name", "ty", "storage", "scope", "capture_of", "threadprivate", "declare_target",
         "synthesized", "location"].Nodup := by decide
    refine bind_of_some rfl ?_
    refine bind_of_some (Record.required_eq names rfl id) ?_
    refine bind_of_some (Record.required_eq names rfl (means_string _)) ?_
    refine bind_of_some (Record.required_eq names rfl ty) ?_
    refine bind_of_some (Record.required_eq names rfl storage) ?_
    refine bind_of_some (Record.required_eq names rfl scope) ?_
    refine bind_of_some (Record.optional_eq names rfl captured) ?_
    refine bind_of_some (Record.required_eq names rfl (means_bool _)) ?_
    refine bind_of_some (Record.required_eq names rfl (means_bool _)) ?_
    refine bind_of_some (Record.required_eq names rfl (means_bool _)) ?_
    refine bind_of_some (Record.required_eq names rfl location) ?_
    rfl
  · exact ⟨id.readable, trivial, ty.readable, storage.readable, scope.readable, captured.readable,
      trivial, trivial, trivial, location.readable, trivial⟩

end VarDecl

namespace DeclTable

/-- The numbers of the declarations are in the range of their fields. -/
def fits (t : DeclTable) : Bool := t.decls.all (·.fits)

theorem means {t : DeclTable} (fits : t.fits) : Means ofJson? t.toJson t := by
  have decls : Means (.list VarDecl.ofJson?) (ofList VarDecl.toJson t.decls) t.decls :=
    means_list (fun _ => VarDecl.means) fits
  exact ⟨some_of_one (f := DeclTable.mk) decls.read, decls.readable, trivial⟩

end DeclTable

end Directives
