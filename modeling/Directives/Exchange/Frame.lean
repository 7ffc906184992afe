import Directives.Exchange.Decl
import Directives.Frame
/-!
Entries and frames as JSON values. Maps are objects whose members are named by the decimal identity
of the variable.
-/

namespace Directives

open Json

namespace Modifier

def toJson : Modifier → Json
  | .none => .str "None"
  | .reduction op => tagged "Reduction" (ofMember op)
  | .linearStep step => tagged "LinearStep" (ofOption .int step)
  | .map type => tagged "Map" (ofMember type)
  | .conditional => .str "Conditional"

def ofJson? : Reader Modifier := fun j => do
  match ← alternative? j with
  | ("None", contents) => if isBare contents then some .none else Option.none
  | ("Conditional", contents) => if isBare contents then some .conditional else Option.none
  | ("Reduction", some j) => return .reduction (← Reader.member j)
  | ("LinearStep", some j) => return .linearStep (← Reader.option .wide j)
  | ("Map", some j) => return .map (← Reader.member j)
  | _ => Option.none

end Modifier

def CopyId.toJson (id : CopyId) : Json := ofNat id.index

namespace Entry

def toJson (e : Entry) : Json :=
  .obj [
    ("kind", ofMember e.kind),
    ("modifier", e.modifier.toJson),
    ("private_copy", ofOption CopyId.toJson e.copy),
    ("applies_to_pointee", .bool e.ofPointee),
    ("merged_firstprivate", .bool e.alsoFirstprivate),
    ("location", e.location.toJson),
    ("implicit", .bool e.implicit)]

end Entry

def Insertion.toJson : Insertion → Json
  | .inserted => .str "Inserted"
  | .merged => .str "Merged"
  | .duplicate => .str "Duplicate"
  | .conflict old => tagged "Conflict" old.toJson

def MapDefaults.toJson (m : MapDefaults) : Json :=
  .obj [
    ("scalar", ofMember m.scalar),
    ("pointer", ofMember m.pointer),
    ("aggregate", ofMember m.aggregate)]

def FrameFlags.toJson (f : FrameFlags) : Json :=
  .obj [
    ("ordered", .bool f.ordered),
    ("nowait", .bool f.nowait),
    ("untied", .bool f.untied),
    ("cancel_present", .bool f.cancelPresent),
    ("order_concurrent", .bool f.orderConcurrent)]

/-- What a map holds for each variable. -/
def ofVariables {α : Type} (write : α → Json) (m : SortedMap DeclId α) : Json :=
  .obj (m.entries.map fun (id, a) => (toString id.index, write a))

namespace Frame

def toJson (f : Frame) : Json :=
  .obj [
    ("kind", ofMember f.kind),
    ("name", ofOption .str f.name),
    ("location", f.location.toJson),
    ("default_sharing", ofMember f.defaultMode),
    ("defaultmap", f.mapDefaults.toJson),
    ("flags", f.flags.toJson),
    ("associated_loops", ofNat f.associatedLoops),
    ("ordered_param", ofOption ofNat f.orderedDepth),
    ("dependent", .bool f.dependent),
    ("entries", ofVariables Entry.toJson f.entries),
    ("rejected", ofList DeclId.toJson f.rejected.keys),
    ("locals", ofList DeclId.toJson f.locals.keys),
    ("loop_control", ofVariables ofMember f.counters)]

end Frame

end Directives
