import Directives.Vocabulary
/-!
Operators of expressions.
-/

namespace Directives

/-- Operators with two operands. -/
inductive BinaryOp where
  | add | sub | mul | div | rem
  | lt | le | gt | ge | eq | ne
  | and | or
  deriving DecidableEq, Repr, Inhabited

instance : Vocabulary BinaryOp where
  members := [.add, .sub, .mul, .div, .rem, .lt, .le, .gt, .ge, .eq, .ne, .and, .or]
  label
    | .add => "Add" | .sub => "Sub" | .mul => "Mul" | .div => "Div" | .rem => "Rem"
    | .lt => "Lt" | .le => "Le" | .gt => "Gt" | .ge => "Ge" | .eq => "Eq" | .ne => "Ne"
    | .and => "And" | .or => "Or"

namespace BinaryOp

/-- The comparison with its operands exchanged: `a < b` says `b > a`. -/
def flipped : BinaryOp → BinaryOp
  | .lt => .gt
  | .le => .ge
  | .gt => .lt
  | .ge => .le
  | op => op

def isRelational : BinaryOp → Bool
  | .lt | .le | .gt | .ge | .eq | .ne => true
  | _ => false

def isLogical : BinaryOp → Bool
  | .and | .or => true
  | _ => false

/-- The order comparison that ascends or descends, and excludes equality or not. -/
def comparison : (ascending strict : Bool) → BinaryOp
  | true, true => .lt
  | true, false => .le
  | false, true => .gt
  | false, false => .ge

end BinaryOp

/-- Operators with one operand. -/
inductive UnaryOp where
  | preInc | postInc | preDec | postDec
  | neg | not | deref | addrOf
  deriving DecidableEq, Repr, Inhabited

instance : Vocabulary UnaryOp where
  members := [.preInc, .postInc, .preDec, .postDec, .neg, .not, .deref, .addrOf]
  label
    | .preInc => "PreInc" | .postInc => "PostInc" | .preDec => "PreDec" | .postDec => "PostDec"
    | .neg => "Neg" | .not => "Not" | .deref => "Deref" | .addrOf => "AddrOf"

namespace UnaryOp

/-- The operator changes its operand by one. -/
def isStep : UnaryOp → Bool
  | .preInc | .postInc | .preDec | .postDec => true
  | _ => false

def isDecrement : UnaryOp → Bool
  | .preDec | .postDec => true
  | _ => false

end UnaryOp

end Directives
