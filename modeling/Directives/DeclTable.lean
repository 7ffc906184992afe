import Directives.Location
import Directives.Ty
import Directives.Error
/-!
Declarations of variables. A table finds a declaration by its position. A capture placeholder
stands for an earlier declaration, and `DeclTable.canonical` leads back to the variable itself.
-/

namespace Directives

/-- The identity of a declaration: its position in the table. -/
structure DeclId where
  index : Nat
  deriving DecidableEq, Repr, Inhabited

/-- An identity reads `#3`. -/
def DeclId.text (id : DeclId) : String := "#" ++ toString id.index

instance : Ranked DeclId where
  rank := DeclId.index
  rank_injective := fun ⟨_⟩ ⟨_⟩ h => congrArg DeclId.mk h

/-- A finite set of variables. -/
abbrev DeclSet := SortedSet DeclId

/-- Storage class as the declaration spells it. -/
inductive StorageClass where
  | automatic
  | static
  | external
  | threadLocal
  deriving DecidableEq, Repr, Inhabited

instance : Vocabulary StorageClass where
  members := [.automatic, .static, .external, .threadLocal]
  label
    | .automatic => "Automatic"
    | .static => "Static"
    | .external => "Extern"
    | .threadLocal => "ThreadLocal"

/-- Kind of the scope that holds a declaration. -/
inductive DeclScope where
  | file
  | namespaceLevel
  | function
  | block
  | member
  deriving DecidableEq, Repr, Inhabited

instance : Vocabulary DeclScope where
  members := [.file, .namespaceLevel, .function, .block, .member]
  label
    | .file => "File"
    | .namespaceLevel => "Namespace"
    | .function => "Function"
    | .block => "Block"
    | .member => "Member"

/-- A declared variable. `captureOf` is set on a placeholder and names the declaration it stands
for; `synthesized` marks variables that the analysis itself added. -/
structure VarDecl where
  id : DeclId
  name : String
  ty : Ty
  storage : StorageClass
  scope : DeclScope
  captureOf : Option DeclId := none
  threadprivate : Bool := false
  declareTarget : Bool := false
  synthesized : Bool := false
  location : Location
  deriving DecidableEq, Repr, Inhabited

namespace VarDecl

def isFileScope (d : VarDecl) : Bool :=
  d.scope = .file || d.scope = .namespaceLevel

/-- The variable lives as long as the program. -/
def hasStaticStorage (d : VarDecl) : Bool :=
  d.isFileScope || d.storage != .automatic

/-- The variable is a data member of the object at hand. -/
def isDataMember (d : VarDecl) : Bool := d.scope = .member

/-- The variable lives as long as the block that declares it. -/
def isAutomatic (d : VarDecl) : Bool :=
  !d.hasStaticStorage && !d.isDataMember

end VarDecl

/-- Declarations in the order in which they were made. -/
structure DeclTable where
  decls : List VarDecl := []
  deriving DecidableEq, Repr, Inhabited

namespace DeclTable

def size (t : DeclTable) : Nat := t.decls.length

def isEmpty (t : DeclTable) : Bool := t.decls.isEmpty

/-- The declaration at the position that `id` names. -/
def get? (t : DeclTable) (id : DeclId) : Option VarDecl := t.decls[id.index]?

/-- The declaration at `id`, which has to be in the table. -/
def decl (t : DeclTable) (id : DeclId) : Except Error VarDecl :=
  match t.get? id with
  | some d => .ok d
  | none => .error (.unknownDeclaration id.index)

/-- The identity that the next declaration gets. -/
def nextId (t : DeclTable) : DeclId := ⟨t.size⟩

/-- Adds a declaration under the next identity. -/
def push (t : DeclTable) (d : VarDecl) : DeclId × DeclTable :=
  (t.nextId, ⟨t.decls ++ [{ d with id := t.nextId }]⟩)

/-- Declares a variable. -/
def declare (t : DeclTable) (name : String) (ty : Ty) (storage : StorageClass) (scope : DeclScope)
    (location : Location) : DeclId × DeclTable :=
  t.push { id := t.nextId, name, ty, storage, scope, location }

/-- Adds a placeholder that stands for `of` and is declared as it is. -/
def capture (t : DeclTable) (of : DeclId) : Except Error (DeclId × DeclTable) := do
  let d ← t.decl of
  return t.push { d with captureOf := some of, synthesized := true }

/-- Adds an automatic variable of the analysis. -/
def synthesize (t : DeclTable) (name : String) (ty : Ty) (location : Location) :
    DeclId × DeclTable :=
  t.push { id := t.nextId, name, ty, storage := .automatic, scope := .block, location,
           synthesized := true }

/-- Changes the declaration at `id`, if there is one. -/
def modify (t : DeclTable) (id : DeclId) (f : VarDecl → VarDecl) : DeclTable :=
  ⟨t.decls.modify id.index f⟩

/-- The earlier declaration that `id` stands for. A placeholder that names itself or a later
declaration stands for nothing. -/
def captured? (t : DeclTable) (id : DeclId) : Option DeclId := do
  let d ← t.get? id
  let earlier ← d.captureOf
  if earlier.index < id.index then some earlier else none

/-- Follows at most `steps` placeholders. -/
def follow (t : DeclTable) : (steps : Nat) → DeclId → DeclId
  | 0, id => id
  | steps + 1, id =>
    match t.captured? id with
    | some earlier => t.follow steps earlier
    | none => id

/-- The variable that `id` stands for. Each placeholder leads to an earlier position, so no more
steps are possible than there are positions before `id`. -/
def canonical (t : DeclTable) (id : DeclId) : DeclId :=
  t.follow id.index id

/-- The stored identity of the first declaration with this name. -/
def find? (t : DeclTable) (name : String) : Option DeclId :=
  (t.decls.find? fun d => d.name == name).map (·.id)

end DeclTable

end Directives
