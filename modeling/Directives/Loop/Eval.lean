import Directives.Wide
import Directives.Tree.References
/-!
Values of integer expressions, and the degree of an expression in a variable. Conversions,
parentheses and constructor calls with one argument have the value of what they wrap.
-/

namespace Directives

/-- Values of variables. -/
abbrev Bindings := DeclId → Option Int

namespace Bindings

/-- No variable has a value. -/
def none : Bindings := fun _ => Option.none

/-- The first pair of a variable gives its value. -/
def ofList (l : List (DeclId × Int)) : Bindings :=
  fun d => (l.find? fun p => p.1 = d).map (·.2)

end Bindings

/-- The value of a truth. -/
def ofTruth (b : Bool) : Int := if b then 1 else 0

/-- The value of an operation on two values. Both operands of a logical operation are needed. -/
def BinaryOp.apply : BinaryOp → Int → Int → Option Int
  | .add, a, b => Wide.add a b
  | .sub, a, b => Wide.sub a b
  | .mul, a, b => Wide.mul a b
  | .div, a, b => Wide.div a b
  | .rem, a, b => Wide.rem a b
  | .lt, a, b => some (ofTruth (a < b))
  | .le, a, b => some (ofTruth (a ≤ b))
  | .gt, a, b => some (ofTruth (b < a))
  | .ge, a, b => some (ofTruth (b ≤ a))
  | .eq, a, b => some (ofTruth (a = b))
  | .ne, a, b => some (ofTruth (a ≠ b))
  | .and, a, b => some (ofTruth (a ≠ 0 && b ≠ 0))
  | .or, a, b => some (ofTruth (a ≠ 0 || b ≠ 0))

/-- The value of an operation on one value; stepping, dereferencing and taking an address have
none. -/
def UnaryOp.apply : UnaryOp → Int → Option Int
  | .neg, a => Wide.neg a
  | .not, a => some (ofTruth (a = 0))
  | _, _ => none

/-- What literals stand for and what operations come to. -/
structure Arithmetic where
  literal : Int → Option Int
  unary : UnaryOp → Int → Option Int
  binary : BinaryOp → Int → Int → Option Int

/-- Arithmetic of 128 bits. What is outside the range has no value, a literal no more than a
result. -/
def Arithmetic.wide : Arithmetic := ⟨Wide.check, UnaryOp.apply, BinaryOp.apply⟩

namespace Expr

/-- The value of an expression in an arithmetic. Of a choice only the chosen alternative needs a
value. -/
def evalIn (m : Arithmetic) (env : Bindings) : Expr → Option Int
  | .intLit _ v => m.literal v
  | .boolLit _ b => some (ofTruth b)
  | .ref _ d => env d
  | .cast _ e => e.evalIn m env
  | .paren _ e => e.evalIn m env
  | .construct _ [e] => e.evalIn m env
  | .unary _ op e => do m.unary op (← e.evalIn m env)
  | .binary _ op a b => do
    let v ← a.evalIn m env
    let w ← b.evalIn m env
    m.binary op v w
  | .conditional _ c a b => do
    if (← c.evalIn m env) ≠ 0 then a.evalIn m env else b.evalIn m env
  | _ => none

/-- The value of an expression in 128 bits. -/
def eval (env : Bindings) (e : Expr) : Option Int := e.evalIn .wide env

/-- The value of an expression without variables. -/
def constant? (e : Expr) : Option Int := e.eval Bindings.none

/-- A bound on the degree of an expression as a polynomial in `d`, where its form shows one. -/
def degree? (d : DeclId) : Expr → Option Nat
  | .ref _ v => some (if v = d then 1 else 0)
  | .cast i e => if (Expr.cast i e).references d then e.degree? d else some 0
  | .paren i e => if (Expr.paren i e).references d then e.degree? d else some 0
  | .construct i [e] => if (Expr.construct i [e]).references d then e.degree? d else some 0
  | .unary i .neg e => if (Expr.unary i .neg e).references d then e.degree? d else some 0
  | .binary i op a b =>
    if (Expr.binary i op a b).references d then
      match op with
      | .add | .sub => do return max (← a.degree? d) (← b.degree? d)
      | .mul => do return (← a.degree? d) + (← b.degree? d)
      | _ => none
    else some 0
  | e => if e.references d then none else some 0

/-- The expression shows by its form that it is `a * d + c`, where `a` and `c` do not refer to
`d`. -/
def isAffineIn (e : Expr) (d : DeclId) : Bool :=
  (e.degree? d).any (· ≤ 1)

end Expr

end Directives
