import Directives.Error
import Directives.Frame
/-!
The stack of open regions, innermost first. Some of the innermost frames can be hidden, to ask
what the regions around them say; regions are entered and left only while nothing is hidden.
-/

namespace Directives

/-- The open regions, innermost first; how many of them are hidden; the next private copy. -/
structure FrameStack where
  frames : List Frame := []
  hidden : Nat := 0
  nextCopy : Nat := 0
  deriving DecidableEq, Inhabited

namespace FrameStack

/-- The frames that are not hidden, innermost first. -/
def visible (s : FrameStack) : List Frame := s.frames.drop s.hidden

/-- Number of visible frames. -/
def depth (s : FrameStack) : Nat := s.visible.length

/-- Number of frames, hidden ones included. -/
def total (s : FrameStack) : Nat := s.frames.length

/-- The innermost visible frame. -/
def current? (s : FrameStack) : Option Frame := s.visible.head?

/-- The frame around the current one. -/
def parent? (s : FrameStack) : Option Frame := s.visible.tail.head?

/-- The visible frame at a position counted from the outermost. -/
def frame? (s : FrameStack) (index : Nat) : Option Frame := s.visible.reverse[index]?

/-- Enters a region. -/
def push (s : FrameStack) (f : Frame) : Except Error FrameStack :=
  if s.hidden = 0 then .ok { s with frames := f :: s.frames }
  else .error (.stackSuppressed s.hidden)

/-- Leaves the innermost region. -/
def pop (s : FrameStack) : Except Error (Frame × FrameStack) :=
  if s.hidden = 0 then
    match s.frames with
    | [] => .error .emptyStack
    | f :: rest => .ok (f, { s with frames := rest })
  else .error (.stackSuppressed s.hidden)

/-- Changes the current frame, if there is one. -/
def modifyCurrent (s : FrameStack) (change : Frame → Frame) : FrameStack :=
  { s with frames := s.frames.modify s.hidden change }

/-- Changes the visible frame at a position counted from the outermost. -/
def modifyFrame (s : FrameStack) (index : Nat) (change : Frame → Frame) : FrameStack :=
  if index < s.depth then
    { s with frames := s.frames.modify (s.total - 1 - index) change }
  else s

/-- The innermost visible frame with a property, with its position counted from the outermost. -/
def innermost? (s : FrameStack) (p : Frame → Bool) : Option (Nat × Frame) :=
  search s.visible
where
  search : List Frame → Option (Nat × Frame)
    | [] => none
    | f :: outer => if p f then some (outer.length, f) else search outer

/-- Notes a cancellation in the current frame; a section passes it on to its sections construct. -/
def markCancel (s : FrameStack) : FrameStack :=
  match s.visible with
  | [] => s
  | [_] => s.modifyCurrent mark
  | f :: _ :: _ =>
    if f.kind = .sectionBlock then
      { s with frames := (s.frames.modify s.hidden mark).modify (s.hidden + 1) mark }
    else s.modifyCurrent mark
where
  mark (f : Frame) : Frame := { f with flags := { f.flags with cancelPresent := true } }

/-- Takes the next private copy. -/
def allocateCopy (s : FrameStack) : CopyId × FrameStack :=
  (⟨s.nextCopy⟩, { s with nextCopy := s.nextCopy + 1 })

/-- Hides the innermost visible frame. -/
def suppress (s : FrameStack) : FrameStack := { s with hidden := s.hidden + 1 }

/-- Shows again the frame hidden last. -/
def reveal (s : FrameStack) : FrameStack := { s with hidden := s.hidden - 1 }

/-- Says what the current frame holds for a variable. -/
def currentEntryOf? (s : FrameStack) (var : DeclId) : Option Entry :=
  s.current?.bind (·.entryOf? var)

end FrameStack

end Directives
