import Directives.Location
import Directives.Ty
import Directives.ClauseTag
import Directives.DeclTable
/-!
Data-sharing attributes: the kinds, and the entries that a region keeps for its variables.
-/

namespace Directives

/-- How a variable that a region refers to relates to the variable of the same name outside. -/
inductive Sharing where
  | shared
  | priv
  | firstprivate
  | lastprivate
  | reduction
  | linear
  | threadprivate
  | mapped
  deriving DecidableEq, Repr, Inhabited

instance : Vocabulary Sharing where
  members := [.shared, .priv, .firstprivate, .lastprivate, .reduction, .linear, .threadprivate,
    .mapped]
  label
    | .shared => "Shared"
    | .priv => "Private"
    | .firstprivate => "Firstprivate"
    | .lastprivate => "Lastprivate"
    | .reduction => "Reduction"
    | .linear => "Linear"
    | .threadprivate => "Threadprivate"
    | .mapped => "Mapped"

namespace Sharing

/-- The attribute as a message shows it. -/
def spelling : Sharing → String
  | .shared => "shared"
  | .priv => "private"
  | .firstprivate => "firstprivate"
  | .lastprivate => "lastprivate"
  | .reduction => "reduction"
  | .linear => "linear"
  | .threadprivate => "threadprivate"
  | .mapped => "mapped"

/-- The region works on a copy of its own. -/
def isPrivatizing : Sharing → Bool
  | .priv | .firstprivate | .lastprivate | .reduction | .linear => true
  | _ => false

/-- A counter of an associated loop, whose attribute is fixed as `fixed`, may be listed with the
attribute `listed`. -/
def counterAccepts (fixed listed : Sharing) : Bool :=
  match fixed, listed with
  | _, .priv | _, .lastprivate => true
  | .linear, .linear => true
  | _, _ => false

end Sharing

/-- What a clause says beyond the attribute. -/
inductive Modifier where
  | none
  | reduction (op : ReductionOp)
  | linearStep (step : Option Int)
  | map (type : MapType)
  | conditional
  deriving DecidableEq, Repr, Inhabited

/-- The number of a private copy. -/
structure CopyId where
  index : Nat
  deriving DecidableEq, Repr, Inhabited

/-- What a region records for one variable. `alsoFirstprivate` marks a lastprivate variable that
is firstprivate as well; `implicit` marks an entry that no clause asked for. -/
structure Entry where
  kind : Sharing
  modifier : Modifier := .none
  copy : Option CopyId := Option.none
  ofPointee : Bool := false
  alsoFirstprivate : Bool := false
  location : Location
  implicit : Bool := false
  deriving DecidableEq, Repr, Inhabited

/-- What became of an entry that a clause asked for. -/
inductive Insertion where
  | inserted
  | merged
  | duplicate
  | conflict (old : Entry)
  deriving DecidableEq, Repr, Inhabited

/-- The behavior that `defaultmap` clauses selected for each category. -/
structure MapDefaults where
  scalar : MapBehavior := .default
  pointer : MapBehavior := .default
  aggregate : MapBehavior := .default
  deriving DecidableEq, Repr, Inhabited

namespace MapDefaults

def get (m : MapDefaults) : Category → MapBehavior
  | .scalar => m.scalar
  | .pointer => m.pointer
  | .aggregate => m.aggregate

/-- Selects a behavior for one category, or for all of them. -/
def set (m : MapDefaults) (behavior : MapBehavior) : Option Category → MapDefaults
  | some .scalar => { m with scalar := behavior }
  | some .pointer => { m with pointer := behavior }
  | some .aggregate => { m with aggregate := behavior }
  | Option.none => ⟨behavior, behavior, behavior⟩

end MapDefaults

end Directives
