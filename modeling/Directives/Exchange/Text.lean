import Directives.Json.Parser
import Directives.Exchange.Report
/-!
Programs and reports as text. A program is written on one line, a report over several lines; either
is read however it is laid out.
-/

namespace Directives

namespace Program

def toText (p : Program) : String := p.toJson.compactText

/-- The program that a text holds. -/
def ofText (s : String) : Except Error Program :=
  match (Json.parse? Json.textDepth s).bind ofJson? with
  | none => .error .unreadable
  | some p => .ok p

end Program

namespace Report

def toText (r : Report) : String := r.toJson.prettyText

/-- The report that a text holds. -/
def ofText (s : String) : Except Error Report :=
  match (Json.parse? Json.textDepth s).bind ofJson? with
  | none => .error .unreadable
  | some r => .ok r

end Report

end Directives
