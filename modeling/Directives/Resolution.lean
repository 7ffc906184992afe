import Directives.Options
import Directives.Frame
/-!
Resolution: the attribute of a variable among open regions. Every frame either settles the
question, passes it on to the frame around it, or, being a task, inherits from what is around it.
The innermost frame that does not pass the question on decides.
-/

namespace Directives

/-- Where an attribute comes from. -/
inductive Origin where
  /-- A clause lists the variable. -/
  | explicit
  /-- The region behaves as if a clause listed it. -/
  | implicit
  /-- The nature of the variable fixes it. -/
  | predetermined
  /-- A `default` clause, or the default of the directive. -/
  | default
  /-- A task takes it over from its surroundings. -/
  | inherited
  deriving DecidableEq, Repr, Inhabited

instance : Vocabulary Origin where
  members := [.explicit, .implicit, .predetermined, .default, .inherited]
  label
    | .explicit => "Explicit"
    | .implicit => "Implicit"
    | .predetermined => "Predetermined"
    | .default => "Default"
    | .inherited => "Inherited"

/-- A resolved attribute: the frame that determined it, by its position counted from the outermost,
and the clause, directive or declaration that did. -/
structure Attribute where
  kind : Sharing
  modifier : Modifier := .none
  frame : Option Nat
  location : Option Location
  origin : Origin
  deriving DecidableEq, Repr, Inhabited

/-- The attribute of an entry. -/
def Entry.toAttribute (e : Entry) (frame : Nat) : Attribute :=
  { kind := e.kind, modifier := e.modifier, frame := some frame, location := some e.location,
    origin := if e.implicit then .implicit else .explicit }

/-- What resolving a variable comes to. -/
inductive Resolution where
  | resolved (attr : Attribute)
  /-- No attribute applies. -/
  | unresolved
  /-- The variable was listed in a way that is invalid. -/
  | rejected
  deriving DecidableEq, Repr, Inhabited

namespace Resolution

def attr? : Resolution → Option Attribute
  | .resolved a => some a
  | _ => none

def kind? (r : Resolution) : Option Sharing := r.attr?.map (·.kind)

end Resolution

/-- What one frame says about a variable. -/
inductive Answer where
  | settled (r : Resolution)
  /-- The frame is a task and takes over what the frames around it say. -/
  | inherits
  | silent
  deriving DecidableEq, Repr, Inhabited

/-- What a frame says by its `default` clause or by the default of its directive. Under
`default(private)` and `default(firstprivate)` a variable of file scope has no attribute. -/
def Frame.defaultAnswer (f : Frame) (index : Nat) (d : VarDecl) : Answer :=
  match f.defaultMode with
  | .shared => byDefault .shared
  | .none => .settled .unresolved
  | .priv => if d.isFileScope then .settled .unresolved else byDefault .priv
  | .firstprivate => if d.isFileScope then .settled .unresolved else byDefault .firstprivate
  | .unspecified =>
    if f.kind.sharesByDefault then byDefault .shared
    else if f.kind.isTask then .inherits
    else .silent
where
  byDefault (kind : Sharing) : Answer :=
    .settled (.resolved
      { kind, frame := some index, location := some f.location, origin := .default })

/-- What a frame says about the variable `var` with declaration `d`. Loop counters come before
local variables, these before read-only variables where the options share them, then entries,
rejections, and defaults. -/
def Frame.answer (o : Options) (var : DeclId) (d : VarDecl) (index : Nat) (f : Frame) : Answer :=
  match f.counter? var with
  | some kind => entryIf (Sharing.counterAccepts kind) kind
  | none =>
    if f.isLocal var then fixed .priv
    else if o.sharesConst && d.ty.isReadOnly then
      entryIf (fun k => k = .firstprivate || k = .shared) .shared
    else
      match f.entryOf? var with
      | some e => .settled (.resolved (e.toAttribute index))
      | none =>
        if f.isRejected var then .settled .rejected
        else f.defaultAnswer index d
where
  /-- The nature of the variable fixes its attribute. -/
  fixed (kind : Sharing) : Answer :=
    .settled (.resolved
      { kind, frame := some index, location := some d.location, origin := .predetermined })
  /-- An entry of an admitted kind counts; otherwise the attribute is fixed. -/
  entryIf (admits : Sharing → Bool) (kind : Sharing) : Answer :=
    match f.entryOf? var with
    | some e => if admits e.kind then .settled (.resolved (e.toAttribute index)) else fixed kind
    | none => fixed kind

/-- Outside all regions, variables with static storage and data members are shared. -/
def VarDecl.outside (d : VarDecl) : Resolution :=
  if d.hasStaticStorage || d.isDataMember then
    .resolved { kind := .shared, frame := none, location := some d.location, origin := .predetermined }
  else .unresolved

/-- What a task takes over. -/
inductive Promotion where
  | shared
  | firstprivate
  | rejected
  deriving DecidableEq, Repr, Inhabited

/-- What a task inherits from the frames around it, innermost first: the variable is shared when
every frame that speaks shares it, out to the closest frame of a parallel, teams or task region, or
past all frames; otherwise the task gets a copy that starts with the value outside. -/
def promotion (o : Options) (var : DeclId) (d : VarDecl) : List Frame → Promotion
  | [] => if d.hasStaticStorage || d.isDataMember then .shared else .firstprivate
  | f :: outer =>
    match f.answer o var d outer.length with
    | .silent | .inherits => promotion o var d outer
    | .settled .rejected => .rejected
    | .settled .unresolved => .firstprivate
    | .settled (.resolved a) =>
      if a.kind = .shared then
        if f.kind.isTaskBoundary then .shared else promotion o var d outer
      else .firstprivate

/-- The attribute that a task at position `index` inherits. -/
def Promotion.resolution (task : Frame) (index : Nat) : Promotion → Resolution
  | .shared => inherited .shared
  | .firstprivate => inherited .firstprivate
  | .rejected => .rejected
where
  inherited (kind : Sharing) : Resolution :=
    .resolved { kind, frame := some index, location := some task.location, origin := .inherited }

/-- The resolution of a declared variable among frames, innermost first. -/
def resolveDeclared (o : Options) (var : DeclId) (d : VarDecl) : List Frame → Resolution
  | [] => d.outside
  | f :: outer =>
    match f.answer o var d outer.length with
    | .settled r => r
    | .inherits => (promotion o var d outer).resolution f outer.length
    | .silent => resolveDeclared o var d outer

/-- The resolution of a variable among frames, innermost first. Placeholders stand for the
variable they capture, and threadprivate variables are threadprivate everywhere. -/
def resolve (o : Options) (decls : DeclTable) (frames : List Frame) (id : DeclId) : Resolution :=
  let var := decls.canonical id
  match decls.get? var with
  | none => .unresolved
  | some d =>
    if d.threadprivate then
      .resolved
        { kind := .threadprivate
          frame := if frames.isEmpty then none else some (frames.length - 1)
          location := some d.location
          origin := .predetermined }
    else resolveDeclared o var d frames

end Directives
