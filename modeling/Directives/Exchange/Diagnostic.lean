import Directives.Exchange.Decl
import Directives.Diagnostic
/-!
Diagnostics as JSON values.
-/

namespace Directives

open Json

namespace DiagnosticKind

def toJson : DiagnosticKind → Json
  | .attributeConflict reason => tagged "AttributeConflict" (ofMember reason)
  | .unresolvedUnderNoDefault context => tagged "UnresolvedUnderNoDefault" (ofMember context)
  | .illegalNesting failure => tagged "IllegalNesting" (ofMember failure)
  | .duplicateNamedRegion => .str "DuplicateNamedRegion"
  | .nonCanonicalLoop part => tagged "NonCanonicalLoop" (ofMember part)
  | .incompatibleLoopDirection => .str "IncompatibleLoopDirection"
  | .nonRectangularUnsupported => .str "NonRectangularUnsupported"

def ofJson? : Reader DiagnosticKind := fun j => do
  match ← alternative? j with
  | ("AttributeConflict", some j) => return .attributeConflict (← Reader.member j)
  | ("UnresolvedUnderNoDefault", some j) => return .unresolvedUnderNoDefault (← Reader.member j)
  | ("IllegalNesting", some j) => return .illegalNesting (← Reader.member j)
  | ("NonCanonicalLoop", some j) => return .nonCanonicalLoop (← Reader.member j)
  | (name, contents) => if isBare contents then plain? name else none
where
  /-- The kinds that have no detail. -/
  plain? : String → Option DiagnosticKind
    | "DuplicateNamedRegion" => some .duplicateNamedRegion
    | "IncompatibleLoopDirection" => some .incompatibleLoopDirection
    | "NonRectangularUnsupported" => some .nonRectangularUnsupported
    | _ => none

end DiagnosticKind

namespace DiagnosticArg

def toJson : DiagnosticArg → Json
  | .var id => tagged "Variable" id.toJson
  | .directive kind => tagged "Directive" (ofMember kind)
  | .clause tag => tagged "Clause" (ofMember tag)
  | .sharing kind => tagged "Attribute" (ofMember kind)
  | .location l => tagged "Location" l.toJson
  | .name s => tagged "Name" (.str s)
  | .integer v => tagged "Integer" (.int v)

def ofJson? : Reader DiagnosticArg := fun j => do
  match ← alternative? j with
  | ("Variable", some j) => return .var (← DeclId.ofJson? j)
  | ("Directive", some j) => return .directive (← Reader.member j)
  | ("Clause", some j) => return .clause (← Reader.member j)
  | ("Attribute", some j) => return .sharing (← Reader.member j)
  | ("Location", some j) => return .location (← Location.ofJson? j)
  | ("Name", some j) => return .name (← Reader.string j)
  | ("Integer", some j) => return .integer (← Reader.wide j)
  | _ => none

end DiagnosticArg

namespace Diagnostic

def toJson (d : Diagnostic) : Json :=
  .obj [
    ("location", d.location.toJson),
    ("kind", d.kind.toJson),
    ("args", ofList DiagnosticArg.toJson d.args)]

def ofJson? : Reader Diagnostic := fun j => do
  let r ← record? 3 j
  return {
    location := ← r.required 0 "location" Location.ofJson?
    kind := ← r.required 1 "kind" DiagnosticKind.ofJson?
    args := ← r.required 2 "args" (.list DiagnosticArg.ofJson?) }

end Diagnostic

end Directives
