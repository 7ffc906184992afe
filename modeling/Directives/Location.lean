/-!
Positions in the analysed source file.
-/

namespace Directives

/-- A position: line and column, both counted from one. The position `0:0` stands for nowhere. -/
structure Location where
  line : Nat := 0
  column : Nat := 0
  deriving DecidableEq, Repr, Inhabited

/-- A position reads `line:column`. -/
def Location.text (l : Location) : String :=
  toString l.line ++ ":" ++ toString l.column

end Directives
