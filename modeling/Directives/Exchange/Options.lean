import Directives.Json.Parser
import Directives.Json.Reader
import Directives.Options
/-!
Options as JSON values. Everything that is left out has its default.
-/

namespace Directives.Options

open Json

def toJson (o : Options) : Json :=
  .obj [
    ("version", ofMember o.version),
    ("permissive_not_equal", ofOption .bool o.permissiveNotEqual),
    ("iteration_width", ofNat o.iterationWidth),
    ("defer_dependent", .bool o.deferDependent)]

def ofJson? : Reader Options := fun j => do
  let r ← record? 4 j
  let standard : Options := {}
  return {
    version := ← r.defaulted 0 "version" .member standard.version
    permissiveNotEqual :=
      ← r.defaulted 1 "permissive_not_equal" (.option .bool) standard.permissiveNotEqual
    iterationWidth := ← r.defaulted 2 "iteration_width" (.word 16) standard.iterationWidth
    deferDependent := ← r.defaulted 3 "defer_dependent" .bool standard.deferDependent }

/-- The valid options that a text holds. -/
def ofText (s : String) : Except Error Options :=
  match (parse? textDepth s).bind ofJson? with
  | none => .error .unreadable
  | some o => o.validate.map fun () => o

end Directives.Options
