import Directives.Json
import Directives.Vocabulary
import Directives.Wide
/-!
Reading things out of JSON values. A record is an object with named members, or an array that lists
the fields in order; an alternative is an object with one member that names it, or just its name
where it has no contents.
-/

namespace Directives.Json

/-- An alternative with its contents. -/
def tagged (name : String) (contents : Json) : Json := .obj [(name, contents)]

/-- A value that may be absent. -/
def ofOption {α : Type} (write : α → Json) : Option α → Json
  | none => .null
  | some a => write a

/-- The values of a list. -/
def ofList {α : Type} (write : α → Json) (l : List α) : Json := .arr (l.map write)

/-- A natural number. -/
def ofNat (n : Nat) : Json := .int n

/-- A member of a vocabulary, by its label. -/
def ofMember {α : Type} [Vocabulary α] (a : α) : Json := .str (label a)

/-- Ways to read a thing out of a value. -/
abbrev Reader (α : Type) := Json → Option α

namespace Reader

def bool : Reader Bool
  | .bool b => some b
  | _ => none

def string : Reader String
  | .str s => some s
  | _ => none

/-- A natural number of at most `bits` bits. -/
def word (bits : Nat) : Reader Nat
  | .int v => if 0 ≤ v ∧ v < (capacity bits : Int) then some v.toNat else none
  | _ => none

/-- An integer of 128 bits. -/
def wide : Reader Int
  | .int v => Wide.check v
  | .negZero => some 0
  | _ => none

def list {α : Type} (read : Reader α) : Reader (List α)
  | .arr items => items.mapM read
  | _ => none

/-- The items of an array of a fixed length. -/
def tuple (length : Nat) : Reader (List Json)
  | .arr items => if items.length = length then some items else none
  | _ => none

/-- Two things in an array. -/
def pair {α β : Type} (first : Reader α) (second : Reader β) : Reader (α × β) := fun j => do
  match ← tuple 2 j with
  | [a, b] => return (← first a, ← second b)
  | _ => none

/-- A value that may be absent, written `null` when it is. -/
def option {α : Type} (read : Reader α) : Reader (Option α)
  | .null => some none
  | j => (read j).map some

/-- A member of a vocabulary. -/
def member {α : Type} [Vocabulary α] : Reader α
  | .str s => Vocabulary.find? α s
  | .obj [(s, .null)] => Vocabulary.find? α s
  | _ => none

end Reader

/-- The name of an alternative, and its contents, which are `null` where there are none. -/
def alternative? : Json → Option (String × Option Json)
  | .str s => some (s, none)
  | .obj [(s, j)] => some (s, some j)
  | _ => none

/-- An alternative has no contents. -/
def isBare : Option Json → Bool
  | none | some .null => true
  | _ => false

/-- The fields of a record as they are written. -/
inductive Record where
  | named (members : List (String × Json))
  | listed (items : List Json)

/-- The fields of a record that has at most `arity` of them. -/
def record? (arity : Nat) : Json → Option Record
  | .obj members => some (.named members)
  | .arr items => if items.length ≤ arity then some (.listed items) else none
  | _ => none

namespace Record

/-- The field called `name`, which is at `index` in a list. A name that is repeated is refused. -/
def find (r : Record) (index : Nat) (name : String) : Option (Option Json) :=
  match r with
  | .named members =>
    match members.filter fun m => m.1 = name with
    | [] => some none
    | [(_, j)] => some (some j)
    | _ => none
  | .listed items => some items[index]?

/-- A field that has to be there. -/
def required {α : Type} (r : Record) (index : Nat) (name : String) (read : Reader α) : Option α :=
  (r.find index name).join.bind read

/-- A field that stands for `none` where its name is left out. -/
def optional {α : Type} (r : Record) (index : Nat) (name : String) (read : Reader α) :
    Option (Option α) := do
  match ← r.find index name, r with
  | some j, _ => Reader.option read j
  | none, .named _ => some none
  | none, .listed _ => none

/-- A field with a value of its own where it is left out. -/
def defaulted {α : Type} (r : Record) (index : Nat) (name : String) (read : Reader α) (d : α) :
    Option α := do
  match ← r.find index name with
  | some j => read j
  | none => some d

end Record

end Directives.Json
