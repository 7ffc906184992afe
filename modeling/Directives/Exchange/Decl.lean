import Directives.Json.Reader
import Directives.DeclTable
/-!
Types and declarations as JSON values.
-/

namespace Directives

open Json

namespace Location

def toJson (l : Location) : Json := .obj [("line", ofNat l.line), ("column", ofNat l.column)]

def ofJson? : Reader Location := fun j => do
  let r ← record? 2 j
  return {
    line := ← r.required 0 "line" (.word 32)
    column := ← r.required 1 "column" (.word 32) }

end Location

namespace DeclId

def toJson (id : DeclId) : Json := ofNat id.index

def ofJson? : Reader DeclId := fun j => (Reader.word 32 j).map DeclId.mk

end DeclId

namespace IntType

def toJson (t : IntType) : Json := .obj [("bits", ofNat t.bits), ("signed", .bool t.signed)]

def ofJson? : Reader IntType := fun j => do
  let r ← record? 2 j
  let bits ← r.required 0 "bits" (.word 16)
  let signed ← r.required 1 "signed" .bool
  if word : bits < capacity 16 then some ⟨bits, signed, word⟩ else none

end IntType

namespace Ty

/-- A type with its form and its qualifier. -/
def qualified (const : Bool) (form : Json) : Json := .obj [("kind", form), ("is_const", .bool const)]

def toJson : Ty → Json
  | .int c t => qualified c (tagged "Int" t.toJson)
  | .bool c => qualified c (.str "Bool")
  | .float c bits => qualified c (tagged "Float" (.obj [("bits", ofNat bits)]))
  | .pointer c t => qualified c (tagged "Pointer" t.toJson)
  | .array c t length =>
    qualified c (tagged "Array" (.obj [("element", t.toJson), ("len", ofOption ofNat length)]))
  | .record c name m =>
    qualified c (tagged "Record" (.obj [("name", .str name), ("has_mutable_fields", .bool m)]))
  | .iterator c r => qualified c (tagged "Iterator" (.obj [("random_access", .bool r)]))
  | .void c => qualified c (.str "Void")

/-- Reads the form of a type, given how to read the types inside it. -/
def readForm (inner : Reader Ty) (const : Bool) : Reader Ty := fun j => do
  match ← alternative? j with
  | ("Bool", contents) => if isBare contents then some (.bool const) else none
  | ("Void", contents) => if isBare contents then some (.void const) else none
  | ("Int", some j) => return .int const (← IntType.ofJson? j)
  | ("Float", some j) => return .float const (← (← record? 1 j).required 0 "bits" (.word 16))
  | ("Pointer", some j) => return .pointer const (← inner j)
  | ("Array", some j) =>
    let r ← record? 2 j
    return .array const (← r.required 0 "element" inner) (← r.optional 1 "len" (.word 64))
  | ("Record", some j) =>
    let r ← record? 2 j
    return .record const (← r.required 0 "name" .string)
      (← r.required 1 "has_mutable_fields" .bool)
  | ("Iterator", some j) =>
    return .iterator const (← (← record? 1 j).required 0 "random_access" .bool)
  | _ => none

/-- Reads a type that has at most `n` types around each other. -/
def readWithin : Nat → Reader Ty
  | 0, _ => none
  | n + 1, j => do
    let r ← record? 2 j
    let const ← r.required 1 "is_const" .bool
    r.required 0 "kind" (readForm (readWithin n) const)

def ofJson? : Reader Ty := fun j => readWithin (j.height + 1) j

end Ty

namespace VarDecl

def toJson (d : VarDecl) : Json :=
  .obj [
    ("id", d.id.toJson),
    ("name", .str d.name),
    ("ty", d.ty.toJson),
    ("storage", ofMember d.storage),
    ("scope", ofMember d.scope),
    ("capture_of", ofOption DeclId.toJson d.captureOf),
    ("threadprivate", .bool d.threadprivate),
    ("declare_target", .bool d.declareTarget),
    ("synthesized", .bool d.synthesized),
    ("location", d.location.toJson)]

def ofJson? : Reader VarDecl := fun j => do
  let r ← record? 10 j
  return {
    id := ← r.required 0 "id" DeclId.ofJson?
    name := ← r.required 1 "name" .string
    ty := ← r.required 2 "ty" Ty.ofJson?
    storage := ← r.required 3 "storage" .member
    scope := ← r.required 4 "scope" .member
    captureOf := ← r.optional 5 "capture_of" DeclId.ofJson?
    threadprivate := ← r.required 6 "threadprivate" .bool
    declareTarget := ← r.required 7 "declare_target" .bool
    synthesized := ← r.required 8 "synthesized" .bool
    location := ← r.required 9 "location" Location.ofJson? }

end VarDecl

namespace DeclTable

def toJson (t : DeclTable) : Json := .obj [("decls", ofList VarDecl.toJson t.decls)]

def ofJson? : Reader DeclTable := fun j => do
  let r ← record? 1 j
  return { decls := ← r.required 0 "decls" (.list VarDecl.ofJson?) }

end DeclTable

end Directives
