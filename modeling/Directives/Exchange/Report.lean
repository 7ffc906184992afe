import Directives.Exchange.Frame
import Directives.Exchange.Loop
import Directives.Analysis.Report
/-!
Reports as JSON values.
-/

namespace Directives

open Json

namespace Verdict

def toJson : Verdict → Json
  | .legal => .str "Legal"
  | .illegal failure hint rule conflicting =>
    tagged "Illegal"
      (.obj [
        ("failure", ofMember failure),
        ("hint", ofOption ofMember hint),
        ("rule", .str rule),
        ("conflicting", ofOption ofNat conflicting)])

def ofJson? : Reader Verdict := fun j => do
  match ← alternative? j with
  | ("Legal", contents) => if isBare contents then some .legal else none
  | ("Illegal", some j) =>
    let r ← record? 4 j
    return .illegal (← r.required 0 "failure" .member) (← r.optional 1 "hint" .member)
      (← r.required 2 "rule" .string) (← r.optional 3 "conflicting" (.word 64))
  | _ => none

end Verdict

namespace Attribute

def toJson (a : Attribute) : Json :=
  .obj [
    ("kind", ofMember a.kind),
    ("modifier", a.modifier.toJson),
    ("frame", ofOption ofNat a.frame),
    ("location", ofOption Location.toJson a.location),
    ("origin", ofMember a.origin)]

def ofJson? : Reader Attribute := fun j => do
  let r ← record? 5 j
  return {
    kind := ← r.required 0 "kind" .member
    modifier := ← r.required 1 "modifier" Modifier.ofJson?
    frame := ← r.optional 2 "frame" (.word 64)
    location := ← r.optional 3 "location" Location.ofJson?
    origin := ← r.required 4 "origin" .member }

end Attribute

def Resolution.toJson : Resolution → Json
  | .resolved a => tagged "Resolved" a.toJson
  | .unresolved => .str "Unresolved"
  | .rejected => .str "Rejected"

namespace VariableAttribute

def toJson (a : VariableAttribute) : Json := .obj [("var", a.var.toJson), ("attr", a.attr.toJson)]

def ofJson? : Reader VariableAttribute := fun j => do
  let r ← record? 2 j
  return {
    var := ← r.required 0 "var" DeclId.ofJson?
    attr := ← r.required 1 "attr" Attribute.ofJson? }

end VariableAttribute

namespace ImplicitClauses

def toJson (c : ImplicitClauses) : Json :=
  .obj [
    ("firstprivate", ofList DeclId.toJson c.firstprivate),
    ("private", ofList DeclId.toJson c.priv),
    ("shared", ofList DeclId.toJson c.shared),
    ("map", .obj (c.map.entries.map fun (type, ids) => (label type, ofList DeclId.toJson ids)))]

/-- The variables of each map type. -/
def readMap : Reader (SortedMap MapType (List DeclId))
  | .obj members => do
    let entries ← members.mapM fun (name, j) => do
      return (← Vocabulary.find? MapType name, ← Reader.list DeclId.ofJson? j)
    return .ofList entries
  | _ => none

def ofJson? : Reader ImplicitClauses := fun j => do
  let r ← record? 4 j
  return {
    firstprivate := ← r.required 0 "firstprivate" (.list DeclId.ofJson?)
    priv := ← r.required 1 "private" (.list DeclId.ofJson?)
    shared := ← r.required 2 "shared" (.list DeclId.ofJson?)
    map := ← r.required 3 "map" readMap }

end ImplicitClauses

namespace RegionReport

def toJson (r : RegionReport) : Json :=
  .obj [
    ("id", ofNat r.id),
    ("kind", ofMember r.kind),
    ("name", ofOption .str r.name),
    ("location", r.location.toJson),
    ("parent", ofOption ofNat r.parent),
    ("depth", ofNat r.depth),
    ("nesting", r.verdict.toJson),
    ("status", ofMember r.status),
    ("attributes", ofList VariableAttribute.toJson r.attributes),
    ("unresolved", ofList DeclId.toJson r.unresolved),
    ("rejected", ofList DeclId.toJson r.rejected),
    ("implicit", r.implicit.toJson),
    ("loop_nest", ofOption LoopNest.toJson r.nest),
    ("cancel_present", .bool r.cancelPresent)]

def ofJson? : Reader RegionReport := fun j => do
  let r ← record? 14 j
  return {
    id := ← r.required 0 "id" (.word 64)
    kind := ← r.required 1 "kind" .member
    name := ← r.optional 2 "name" .string
    location := ← r.required 3 "location" Location.ofJson?
    parent := ← r.optional 4 "parent" (.word 64)
    depth := ← r.required 5 "depth" (.word 64)
    verdict := ← r.required 6 "nesting" Verdict.ofJson?
    status := ← r.required 7 "status" .member
    attributes := ← r.required 8 "attributes" (.list VariableAttribute.ofJson?)
    unresolved := ← r.required 9 "unresolved" (.list DeclId.ofJson?)
    rejected := ← r.required 10 "rejected" (.list DeclId.ofJson?)
    implicit := ← r.required 11 "implicit" ImplicitClauses.ofJson?
    nest := ← r.optional 12 "loop_nest" LoopNest.ofJson?
    cancelPresent := ← r.required 13 "cancel_present" .bool }

end RegionReport

namespace Report

def toJson (r : Report) : Json :=
  .obj [("regions", ofList RegionReport.toJson r.regions), ("decls", r.decls.toJson)]

def ofJson? : Reader Report := fun j => do
  let r ← record? 2 j
  return {
    regions := ← r.required 0 "regions" (.list RegionReport.ofJson?)
    decls := ← r.required 1 "decls" DeclTable.ofJson? }

end Report

end Directives
