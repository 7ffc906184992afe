import Directives.DirectiveKind
import Directives.Sharing
/-!
Frames: what is known of a region while it is open. No variable is both rejected and entered,
because an entry lifts a rejection and a rejection spares an entry.
-/

namespace Directives

/-- Marks of an open region. -/
structure FrameFlags where
  ordered : Bool := false
  nowait : Bool := false
  untied : Bool := false
  cancelPresent : Bool := false
  orderConcurrent : Bool := false
  deriving DecidableEq, Repr, Inhabited

/-- An open region. -/
structure Frame where
  kind : DirectiveKind
  name : Option String := none
  location : Location := {}
  defaultMode : DefaultMode := .unspecified
  mapDefaults : MapDefaults := {}
  flags : FrameFlags := {}
  associatedLoops : Nat := 0
  orderedDepth : Option Nat := none
  dependent : Bool := false
  entries : SortedMap DeclId Entry := .empty
  rejected : DeclSet := .empty
  locals : DeclSet := .empty
  counters : SortedMap DeclId Sharing := .empty
  deriving DecidableEq, Inhabited

namespace Frame

def entryOf? (f : Frame) (var : DeclId) : Option Entry := f.entries.get? var

def isRejected (f : Frame) (var : DeclId) : Bool := f.rejected.contains var

def isLocal (f : Frame) (var : DeclId) : Bool := f.locals.contains var

/-- The fixed attribute of a counter of the region's loops. -/
def counter? (f : Frame) (var : DeclId) : Option Sharing := f.counters.get? var

/-- Records an entry, over whatever stood there. -/
def setEntry (f : Frame) (var : DeclId) (e : Entry) : Frame :=
  { f with entries := f.entries.insert var e }

/-- Records the entry that a clause asks for. An implicit entry gives way. A variable listed as
firstprivate and as lastprivate is both, with the copy of the first. A variable may be listed as
shared again. Any other second listing conflicts with the first, which stays. -/
def insertExplicit (f : Frame) (var : DeclId) (e : Entry) : Frame × Insertion :=
  match f.entryOf? var with
  | none => ({ f.setEntry var e with rejected := f.rejected.erase var }, .inserted)
  | some old =>
    if old.implicit then (f.setEntry var e, .inserted)
    else
      match old.kind, e.kind with
      | .firstprivate, .lastprivate =>
        (f.setEntry var { e with alsoFirstprivate := true, copy := old.copy.or e.copy }, .merged)
      | .lastprivate, .firstprivate =>
        if old.alsoFirstprivate then (f, .conflict old)
        else (f.setEntry var { old with alsoFirstprivate := true }, .merged)
      | .shared, .shared => (f, .duplicate)
      | _, _ => (f, .conflict old)

/-- Records an entry that no clause asked for, where the variable has neither entry nor
rejection. Says whether it did. -/
def insertImplicit (f : Frame) (var : DeclId) (e : Entry) : Frame × Bool :=
  if f.entries.contains var || f.isRejected var then (f, false)
  else (f.setEntry var { e with implicit := true }, true)

/-- Marks a variable whose listing was invalid, unless it has an entry. -/
def reject (f : Frame) (var : DeclId) : Frame :=
  if f.entries.contains var then f else { f with rejected := f.rejected.insert var () }

/-- Marks a variable as declared inside the region. -/
def declareLocal (f : Frame) (var : DeclId) : Frame :=
  { f with locals := f.locals.insert var () }

/-- Marks a variable as a counter of the region's loops, which is more than a local one. -/
def registerCounter (f : Frame) (var : DeclId) (kind : Sharing) : Frame :=
  { f with locals := f.locals.erase var, counters := f.counters.insert var kind }

/-- The variable is a reduction item of the region. -/
def isReductionItem (f : Frame) (var : DeclId) : Bool :=
  (f.entryOf? var).any fun e => e.kind = .reduction

end Frame

end Directives
