import Directives.Tree
import Directives.Wide
/-!
Construction of expressions, what stands behind implicit wrappers, and replacement of variables.
-/

namespace Directives.Expr

/-- Type, position and dependence of an expression. -/
def info : Expr → ExprInfo
  | .intLit i _ | .boolLit i _ | .ref i _ | .binary i _ _ _ | .unary i _ _ | .assign i _ _
  | .compound i _ _ _ | .conditional i _ _ _ | .cast i _ | .paren i _ | .construct i _
  | .subscript i _ _ | .call i _ _ | .closure i _ => i

def ty (e : Expr) : Ty := e.info.ty

def location (e : Expr) : Location := e.info.location

/-- An integer literal. -/
def ofInt (value : Int) (ty : Ty) (location : Location) : Expr :=
  .intLit { ty, location } value

/-- A reference to a variable. -/
def ofDecl (decl : DeclId) (ty : Ty) (location : Location) : Expr :=
  .ref { ty, location } decl

/-- A comparison or a logical operation is `bool`; any other has the type of its left operand. -/
def mkBinary (op : BinaryOp) (lhs rhs : Expr) : Expr :=
  .binary
    { ty := if op.isRelational || op.isLogical then .bool false else lhs.ty
      location := lhs.location }
    op lhs rhs

def mkUnary (op : UnaryOp) (operand : Expr) : Expr :=
  .unary
    { ty := if op = .not then .bool false else operand.ty, location := operand.location }
    op operand

def mkAssign (lhs rhs : Expr) : Expr :=
  .assign { ty := lhs.ty, location := lhs.location } lhs rhs

def mkCompound (op : BinaryOp) (lhs rhs : Expr) : Expr :=
  .compound { ty := lhs.ty, location := lhs.location } op lhs rhs

/-- A choice has the type of its first alternative. -/
def mkConditional (cond thenExpr elseExpr : Expr) : Expr :=
  .conditional { ty := thenExpr.ty, location := cond.location } cond thenExpr elseExpr

/-- The expression converted to a type, where it has another one. -/
def castTo (e : Expr) (ty : Ty) : Expr :=
  if e.ty = ty then e else .cast { ty, location := e.location } e

/-- An operation on two operands, both converted to the type in which it is carried out. -/
def arith (op : BinaryOp) (lhs rhs : Expr) (ty : Ty) : Expr :=
  .binary { ty, location := lhs.location } op (lhs.castTo ty) (rhs.castTo ty)

/-- What stands behind conversions, parentheses and constructor calls with one argument. -/
def unwrapped : Expr → Expr
  | .cast _ e => e.unwrapped
  | .paren _ e => e.unwrapped
  | .construct _ [e] => e.unwrapped
  | e => e

/-- The variable that a wrapped reference names. -/
def decl? (e : Expr) : Option DeclId :=
  match e.unwrapped with
  | .ref _ d => some d
  | _ => none

/-- The value of a literal behind wrappers and negations. Overflow is not checked: the least value
negated is itself. -/
def literal? : Expr → Option Int
  | .intLit _ v => some v
  | .unary _ .neg e => e.literal?.map fun v => Wide.wrap (-v)
  | .cast _ e => e.literal?
  | .paren _ e => e.literal?
  | .construct _ [e] => e.literal?
  | _ => none

/-- Direct operands. The body of a closure is a statement and no operand. -/
def operands : Expr → List Expr
  | .intLit _ _ | .boolLit _ _ | .ref _ _ | .closure _ _ => []
  | .binary _ _ a b | .assign _ a b | .compound _ _ a b | .subscript _ a b => [a, b]
  | .unary _ _ a | .cast _ a | .paren _ a => [a]
  | .conditional _ c a b => [c, a, b]
  | .construct _ args | .call _ _ args => args

mutual

/-- The expression, or an operand at any depth, is dependent. -/
def isDependent : Expr → Bool
  | .intLit i _ | .boolLit i _ | .ref i _ | .closure i _ => i.dependent
  | .binary i _ a b | .assign i a b | .compound i _ a b | .subscript i a b =>
    i.dependent || a.isDependent || b.isDependent
  | .unary i _ a | .cast i a | .paren i a => i.dependent || a.isDependent
  | .conditional i c a b => i.dependent || c.isDependent || a.isDependent || b.isDependent
  | .construct i args | .call i _ args => i.dependent || anyDependent args

/-- One of the expressions is dependent. -/
def anyDependent : List Expr → Bool
  | [] => false
  | e :: rest => e.isDependent || anyDependent rest

end

mutual

/-- The expression with `r` in place of every reference to `d`, converted to the type of the
reference. Bodies of closures are left as they are. -/
def substitute (e : Expr) (d : DeclId) (r : Expr) : Expr :=
  match e with
  | .ref i v => if v = d then r.castTo i.ty else .ref i v
  | .binary i op a b => .binary i op (a.substitute d r) (b.substitute d r)
  | .unary i op a => .unary i op (a.substitute d r)
  | .assign i a b => .assign i (a.substitute d r) (b.substitute d r)
  | .compound i op a b => .compound i op (a.substitute d r) (b.substitute d r)
  | .conditional i c a b =>
    .conditional i (c.substitute d r) (a.substitute d r) (b.substitute d r)
  | .cast i a => .cast i (a.substitute d r)
  | .paren i a => .paren i (a.substitute d r)
  | .construct i args => .construct i (substituteAll args d r)
  | .call i callee args => .call i callee (substituteAll args d r)
  | .subscript i a b => .subscript i (a.substitute d r) (b.substitute d r)
  | .intLit i v => .intLit i v
  | .boolLit i v => .boolLit i v
  | .closure i body => .closure i body

/-- Replacement in each of the expressions. -/
def substituteAll (l : List Expr) (d : DeclId) (r : Expr) : List Expr :=
  match l with
  | [] => []
  | e :: rest => e.substitute d r :: substituteAll rest d r

end

end Directives.Expr
