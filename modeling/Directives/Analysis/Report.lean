import Directives.Nesting
import Directives.Inference
import Directives.Loop.Nest
/-!
The report of an analysis: what was learned about each region, in the order in which the regions
begin.
-/

namespace Directives

/-- How far a region was analysed. -/
inductive RegionStatus where
  | analyzed
  /-- It stands where it may not; nothing else was looked at. -/
  | invalidNesting
  /-- It stands in a generic context; nothing was looked at. -/
  | deferred
  deriving DecidableEq, Repr, Inhabited

instance : Vocabulary RegionStatus where
  members := [.analyzed, .invalidNesting, .deferred]
  label
    | .analyzed => "Analyzed"
    | .invalidNesting => "InvalidNesting"
    | .deferred => "Deferred"

/-- The attribute of a variable in a region. -/
structure VariableAttribute where
  var : DeclId
  attr : Attribute
  deriving DecidableEq, Repr, Inhabited

/-- What was learned about a region. Every variable that it lists, refers to or counts its loops
with is in one of the lists `attributes`, `unresolved` and `rejected`. -/
structure RegionReport where
  id : Nat
  kind : DirectiveKind
  name : Option String
  location : Location
  parent : Option Nat
  depth : Nat
  verdict : Verdict
  status : RegionStatus
  attributes : List VariableAttribute := []
  unresolved : List DeclId := []
  rejected : List DeclId := []
  implicit : ImplicitClauses := {}
  nest : Option LoopNest := none
  cancelPresent : Bool := false

namespace RegionReport

/-- The attribute of a variable in the region. -/
def attribute? (r : RegionReport) (var : DeclId) : Option Attribute :=
  (r.attributes.find? fun a => a.var = var).map (·.attr)

/-- The kind of attribute that a variable has in the region. -/
def kindOf? (r : RegionReport) (var : DeclId) : Option Sharing :=
  (r.attribute? var).map (·.kind)

end RegionReport

/-- The regions of a program, and its declarations with those that the analysis added. -/
structure Report where
  regions : List RegionReport
  decls : DeclTable

namespace Report

/-- The region with a number. -/
def region? (r : Report) (id : Nat) : Option RegionReport := r.regions[id]?

/-- The regions of a kind. -/
def regionsOf (r : Report) (kind : DirectiveKind) : List RegionReport :=
  r.regions.filter fun region => region.kind = kind

end Report

end Directives
