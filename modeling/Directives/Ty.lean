import Directives.Wide
import Directives.Vocabulary
import Directives.SortedMap
/-!
Types, as far as data sharing and loops depend on them: width and sign of integers, `const`,
mutable members, and whether a value can count a loop.
-/

namespace Directives

/-- An integer type: its width in bits, which takes 16 bits itself, and whether it has negative values.
Widths of 8 to 64 bits are what programs have. -/
structure IntType where
  bits : Nat
  signed : Bool
  word : bits < capacity 16 := by decide
  deriving DecidableEq, Repr

namespace IntType

def i8 : IntType := { bits := 8, signed := true }

def i32 : IntType := { bits := 32, signed := true }

def i64 : IntType := { bits := 64, signed := true }

def u32 : IntType := { bits := 32, signed := false }

def u64 : IntType := { bits := 64, signed := false }

instance : Inhabited IntType := ⟨i32⟩

/-- The last of the bits. Overflow is not checked: without bits, or with more than 126 of them, this and
the limits of the type wrap. -/
def lastBit (t : IntType) : Int := Wide.shift (t.bits + 127)

/-- Least value of the type. -/
def least (t : IntType) : Int :=
  if t.signed then Wide.wrap (-t.lastBit) else 0

/-- Greatest value of the type. -/
def greatest (t : IntType) : Int :=
  Wide.wrap ((if t.signed then t.lastBit else Wide.shift t.bits) - 1)

/-- The value is one of the type. -/
def contains (t : IntType) (v : Int) : Bool :=
  decide (t.least ≤ v) && decide (v ≤ t.greatest)

/-- The signed type one bit wider: it holds the difference of any two values of `t`. -/
def widened (t : IntType) : IntType :=
  ⟨(t.bits + 1) % capacity 16, true, Nat.mod_lt _ (by decide)⟩

/-- The type reads `i32` or `u32`. -/
def text (t : IntType) : String :=
  (if t.signed then "i" else "u") ++ toString t.bits

end IntType

/-- What a variable is to the `defaultmap` clause and to implicit mapping. -/
inductive Category where
  | scalar
  | pointer
  | aggregate
  deriving DecidableEq, Repr, Inhabited

instance : Vocabulary Category where
  members := [.scalar, .pointer, .aggregate]
  label
    | .scalar => "Scalar"
    | .pointer => "Pointer"
    | .aggregate => "Aggregate"

/-- A type; each form says first whether it is `const`. -/
inductive Ty where
  | int (const : Bool) (type : IntType)
  | bool (const : Bool)
  | float (const : Bool) (bits : Nat)
  | pointer (const : Bool) (pointee : Ty)
  | array (const : Bool) (element : Ty) (length : Option Nat)
  | record (const : Bool) (name : String) (mutableFields : Bool)
  | iterator (const : Bool) (randomAccess : Bool)
  | void (const : Bool)
  deriving DecidableEq, Repr, Inhabited

namespace Ty

/-- The unqualified integer type. -/
def ofInt (t : IntType) : Ty := .int false t

def int32 : Ty := .ofInt .i32

def int64 : Ty := .ofInt .i64

def uint32 : Ty := .ofInt .u32

def uint64 : Ty := .ofInt .u64

/-- Unqualified pointer to `t`. -/
def pointerTo (t : Ty) : Ty := .pointer false t

/-- Unqualified array of `t`. -/
def arrayOf (t : Ty) (length : Option Nat) : Ty := .array false t length

def isConst : Ty → Bool
  | .int c _ | .bool c | .float c _ | .pointer c _ | .array c _ _ | .record c _ _ | .iterator c _
  | .void c => c

/-- The type with `const`. -/
def asConst : Ty → Ty
  | .int _ t => .int true t
  | .bool _ => .bool true
  | .float _ b => .float true b
  | .pointer _ t => .pointer true t
  | .array _ t n => .array true t n
  | .record _ n m => .record true n m
  | .iterator _ r => .iterator true r
  | .void _ => .void true

def intType? : Ty → Option IntType
  | .int _ t => some t
  | _ => none

def isInteger (t : Ty) : Bool := t.intType?.isSome

def isPointer : Ty → Bool
  | .pointer _ _ => true
  | _ => false

def isIterator : Ty → Bool
  | .iterator _ _ => true
  | _ => false

/-- The distance between two values is computed in one step. -/
def hasRandomAccess : Ty → Bool
  | .int _ _ | .pointer _ _ => true
  | .iterator _ randomAccess => randomAccess
  | _ => false

/-- The integer type in which a loop counter of this type is counted: its own for an integer, the
signed difference type for pointers and iterators. Other types count no loop. -/
def counterType? : Ty → Option IntType
  | .int _ t => some t
  | .pointer _ _ | .iterator _ _ => some .i64
  | _ => none

/-- A loop counter may have this type. -/
def isCounter (t : Ty) : Bool := t.counterType?.isSome

/-- A record, or an array of records, with a `mutable` member. -/
def hasMutableFields : Ty → Bool
  | .record _ _ m => m
  | .array _ t _ => t.hasMutableFields
  | _ => false

/-- No part of a value of this type can be written. -/
def isReadOnly (t : Ty) : Bool :=
  t.isConst && !t.hasMutableFields

def category : Ty → Category
  | .int _ _ | .bool _ | .float _ _ => .scalar
  | .pointer _ _ => .pointer
  | _ => .aggregate

/-- The type as a message shows it. -/
def text : Ty → String
  | .int c t => qualified c t.text
  | .bool c => qualified c "bool"
  | .float c bits => qualified c ("f" ++ toString bits)
  | .pointer c t => qualified c ("*" ++ t.text)
  | .array c t (some n) => qualified c ("[" ++ t.text ++ "; " ++ toString n ++ "]")
  | .array c t none => qualified c ("[" ++ t.text ++ "]")
  | .record c name _ => qualified c name
  | .iterator c true => qualified c "random_access_iterator"
  | .iterator c false => qualified c "forward_iterator"
  | .void c => qualified c "void"
where
  qualified (const : Bool) (s : String) : String :=
    if const then "const " ++ s else s

end Ty

end Directives
