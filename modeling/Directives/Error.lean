import Directives.Vocabulary
/-!
Misuse of the analysis by its caller. Problems of the analysed program are no errors; they are
reported as diagnostics.
-/

namespace Directives

/-- Why an operation of the analysis could not be carried out. -/
inductive Error where
  /-- A region was left, but none is open. -/
  | emptyStack
  /-- A region was entered or left while frames are hidden. -/
  | stackSuppressed (hidden : Nat)
  /-- The walk ended with regions still open. -/
  | unbalancedStack (remaining : Nat)
  /-- An identity outside the declaration table. -/
  | unknownDeclaration (index : Nat)
  /-- Options that contradict themselves. -/
  | invalidOptions (reason : String)
  /-- Text that does not hold the value that was asked for. -/
  | unreadable
  /-- The levels of a nest find no room in memory. Nothing is returned then, the analysis dies. -/
  | noRoom
  deriving DecidableEq, Repr, Inhabited

namespace Error

/-- The error as it is shown. -/
def message : Error → String
  | .emptyStack => "Region stack is empty"
  | .stackSuppressed hidden =>
    "Cannot push or pop a region while " ++ toString hidden ++ " frame(s) are suppressed"
  | .unbalancedStack remaining =>
    "Region stack not balanced: " ++ toString remaining ++ " frame(s) left"
  | .unknownDeclaration index => "Unknown declaration #" ++ toString index
  | .invalidOptions reason => "Invalid analysis options: " ++ reason
  | .unreadable => "Serialization error"
  | .noRoom => "capacity overflow"

/-- Regions were not entered and left in pairs. -/
def isStackMisuse : Error → Bool
  | .emptyStack | .stackSuppressed _ | .unbalancedStack _ => true
  | _ => false

end Error

end Directives
