import Directives.Vocabulary
import Directives.SortedMap
/-!
Words of clauses: tags, modes, reduction operators, map types.
-/

namespace Directives

/-- The mode that a `default` clause selects. -/
inductive DefaultMode where
  | unspecified
  | none
  | shared
  | priv
  | firstprivate
  deriving DecidableEq, Repr, Inhabited

instance : Vocabulary DefaultMode where
  members := [.unspecified, .none, .shared, .priv, .firstprivate]
  label
    | .unspecified => "Unspecified"
    | .none => "None"
    | .shared => "Shared"
    | .priv => "Private"
    | .firstprivate => "Firstprivate"

/-- Operators that combine the copies of a reduction. -/
inductive ReductionOp where
  | add | sub | mul
  | bitAnd | bitOr | bitXor
  | logicalAnd | logicalOr
  | min | max
  deriving DecidableEq, Repr, Inhabited

instance : Vocabulary ReductionOp where
  members := [.add, .sub, .mul, .bitAnd, .bitOr, .bitXor, .logicalAnd, .logicalOr, .min, .max]
  label
    | .add => "Add" | .sub => "Sub" | .mul => "Mul"
    | .bitAnd => "BitAnd" | .bitOr => "BitOr" | .bitXor => "BitXor"
    | .logicalAnd => "LogicalAnd" | .logicalOr => "LogicalOr"
    | .min => "Min" | .max => "Max"

/-- How a variable is copied between host and device. -/
inductive MapType where
  | to | fromDevice | tofrom | alloc | release | delete | present
  deriving DecidableEq, Repr, Inhabited

instance : Vocabulary MapType where
  members := [.to, .fromDevice, .tofrom, .alloc, .release, .delete, .present]
  label
    | .to => "To" | .fromDevice => "From" | .tofrom => "Tofrom" | .alloc => "Alloc"
    | .release => "Release" | .delete => "Delete" | .present => "Present"

instance : Ranked MapType where
  rank
    | .to => 0 | .fromDevice => 1 | .tofrom => 2 | .alloc => 3
    | .release => 4 | .delete => 5 | .present => 6
  rank_injective a b h := by cases a <;> cases b <;> first | rfl | exact absurd h (by decide)

/-- What a `defaultmap` clause selects for the variables of a category. -/
inductive MapBehavior where
  | default | alloc | to | fromDevice | tofrom | firstprivate | none | present
  deriving DecidableEq, Repr, Inhabited

instance : Vocabulary MapBehavior where
  members := [.default, .alloc, .to, .fromDevice, .tofrom, .firstprivate, .none, .present]
  label
    | .default => "Default" | .alloc => "Alloc" | .to => "To" | .fromDevice => "From"
    | .tofrom => "Tofrom" | .firstprivate => "Firstprivate" | .none => "None"
    | .present => "Present"

/-- The map type of a behavior that names one. -/
def MapBehavior.mapType? : MapBehavior → Option MapType
  | .alloc => some .alloc
  | .to => some .to
  | .fromDevice => some .fromDevice
  | .tofrom => some .tofrom
  | .present => some .present
  | _ => Option.none

/-- Orders that an `order` clause can ask for. -/
inductive OrderKind where
  | concurrent
  deriving DecidableEq, Repr, Inhabited

instance : Vocabulary OrderKind where
  members := [.concurrent]
  label
    | .concurrent => "Concurrent"

/-- The name of a clause without its arguments. -/
inductive ClauseTag where
  | priv | firstprivate | lastprivate | shared
  | reduction | taskReduction | inReduction
  | linear | copyin | copyprivate
  | map | isDevicePtr
  | default | defaultmap
  | collapse | ordered | order
  | nowait | untied | simd | threads | mergeable
  | cond | numThreads | final
  deriving DecidableEq, Repr, Inhabited

instance : Vocabulary ClauseTag where
  members := [.priv, .firstprivate, .lastprivate, .shared, .reduction, .taskReduction,
    .inReduction, .linear, .copyin, .copyprivate, .map, .isDevicePtr, .default, .defaultmap,
    .collapse, .ordered, .order, .nowait, .untied, .simd, .threads, .mergeable, .cond,
    .numThreads, .final]
  label
    | .priv => "Private"
    | .firstprivate => "Firstprivate"
    | .lastprivate => "Lastprivate"
    | .shared => "Shared"
    | .reduction => "Reduction"
    | .taskReduction => "TaskReduction"
    | .inReduction => "InReduction"
    | .linear => "Linear"
    | .copyin => "Copyin"
    | .copyprivate => "Copyprivate"
    | .map => "Map"
    | .isDevicePtr => "IsDevicePtr"
    | .default => "Default"
    | .defaultmap => "Defaultmap"
    | .collapse => "Collapse"
    | .ordered => "Ordered"
    | .order => "Order"
    | .nowait => "Nowait"
    | .untied => "Untied"
    | .simd => "Simd"
    | .threads => "Threads"
    | .mergeable => "Mergeable"
    | .cond => "If"
    | .numThreads => "NumThreads"
    | .final => "Final"

/-- The word of the clause. -/
def ClauseTag.spelling : ClauseTag → String
  | .priv => "private"
  | .firstprivate => "firstprivate"
  | .lastprivate => "lastprivate"
  | .shared => "shared"
  | .reduction => "reduction"
  | .taskReduction => "task_reduction"
  | .inReduction => "in_reduction"
  | .linear => "linear"
  | .copyin => "copyin"
  | .copyprivate => "copyprivate"
  | .map => "map"
  | .isDevicePtr => "is_device_ptr"
  | .default => "default"
  | .defaultmap => "defaultmap"
  | .collapse => "collapse"
  | .ordered => "ordered"
  | .order => "order"
  | .nowait => "nowait"
  | .untied => "untied"
  | .simd => "simd"
  | .threads => "threads"
  | .mergeable => "mergeable"
  | .cond => "if"
  | .numThreads => "num_threads"
  | .final => "final"

end Directives
