import Directives.FrameStack
import Directives.Tree
/-!
The frames that are open while regions inside them come and go. They are kept, but for cancellations:
one is noted in the innermost frame, and in the frame around it where the innermost one is a section.
-/

namespace Directives

/-- The frame `f'` is `f`, in which a cancellation may have been noted. -/
def Frame.Noted (f f' : Frame) : Prop := f' = f ∨ f' = FrameStack.markCancel.mark f

namespace Frame.Noted

variable {f f' f'' : Frame}

theorem refl (f : Frame) : f.Noted f := .inl rfl

theorem mark (f : Frame) : f.Noted (FrameStack.markCancel.mark f) := .inr rfl

theorem trans (h : f.Noted f') (h' : f'.Noted f'') : f.Noted f'' := by
  rcases h with rfl | rfl
  · exact h'
  · rcases h' with rfl | rfl
    · exact .mark f
    · exact .mark f

theorem kind (h : f.Noted f') : f'.kind = f.kind := by
  rcases h with rfl | rfl <;> rfl

theorem name (h : f.Noted f') : f'.name = f.name := by
  rcases h with rfl | rfl <;> rfl

end Frame.Noted

/-- What walks make of the frames that are open: they keep them, but for a cancellation that may be
noted in the innermost frame and, where that is a section, in the frame around it. -/
inductive FramesKept : List Frame → List Frame → Prop where
  | none : FramesKept [] []
  | innermost {f f' outer} (own : f.Noted f') : FramesKept (f :: outer) (f' :: outer)
  | section {f f' g g' outer} (own : f.Noted f') (inSection : f.kind = .sectionBlock)
      (around : g.Noted g') : FramesKept (f :: g :: outer) (f' :: g' :: outer)

namespace FramesKept

variable {f f' : Frame} {l l' l'' outer outer' : List Frame}

theorem refl (l : List Frame) : FramesKept l l := by
  cases l with
  | nil => exact .none
  | cons f outer => exact .innermost (.refl f)

theorem trans (h : FramesKept l l') (h' : FramesKept l' l'') : FramesKept l l'' := by
  cases h with
  | none => exact h'
  | innermost own =>
    cases h' with
    | innermost own' => exact .innermost (own.trans own')
    | «section» own' inSection around' =>
      exact .section (own.trans own') (own.kind ▸ inSection) around'
  | «section» own inSection around =>
    cases h' with
    | innermost own' => exact .section (own.trans own') inSection around
    | «section» own' _ around' => exact .section (own.trans own') inSection (around.trans around')

theorem length_eq (h : FramesKept l l') : l'.length = l.length := by
  cases h <;> rfl

theorem tail (h : FramesKept (f :: outer) (f' :: outer')) : FramesKept outer outer' := by
  cases h with
  | innermost => exact .refl _
  | «section» _ _ around => exact .innermost around

end FramesKept

namespace FrameStack

theorem hidden_markCancel (s : FrameStack) : s.markCancel.hidden = s.hidden := by
  unfold markCancel
  split
  · rfl
  · rfl
  · split <;> rfl

theorem nextCopy_markCancel (s : FrameStack) : s.markCancel.nextCopy = s.nextCopy := by
  unfold markCancel
  split
  · rfl
  · rfl
  · split <;> rfl

/-- The frames in which a cancellation was noted: in the innermost one, and in the one around it where
the innermost one is a section. -/
def noteCancel : List Frame → List Frame
  | [] => []
  | f :: outer =>
    markCancel.mark f :: if f.kind = .sectionBlock then outer.modifyHead markCancel.mark else outer

theorem frames_markCancel {s : FrameStack} (hidden : s.hidden = 0) :
    s.markCancel.frames = noteCancel s.frames := by
  have visible : s.visible = s.frames := by rw [visible, hidden, List.drop_zero]
  unfold markCancel
  rw [visible]
  cases hframes : s.frames with
  | nil => simp only [hframes, noteCancel]
  | cons f outer =>
    cases outer with
    | nil => simp [modifyCurrent, hframes, hidden, noteCancel]
    | cons g outer =>
      dsimp only
      split
      · rename_i inSection
        simp [hidden, noteCancel, inSection]
      · rename_i elsewhere
        simp [modifyCurrent, hframes, hidden, noteCancel, elsewhere]

theorem framesKept_noteCancel (frames : List Frame) : FramesKept frames (noteCancel frames) := by
  cases frames with
  | nil => exact .none
  | cons f outer =>
    rw [noteCancel]
    split
    · rename_i inSection
      cases outer with
      | nil => exact .innermost (.mark f)
      | cons g outer => exact .section (.mark f) inSection (.mark g)
    · exact .innermost (.mark f)

/-- The stack on which a region is opened: a cancellation is noted first. -/
def noting (s : FrameStack) (r : Region) : FrameStack :=
  if r.kind = .cancel then s.markCancel else s

theorem hidden_noting (s : FrameStack) (r : Region) : (s.noting r).hidden = s.hidden := by
  unfold noting
  split
  · exact s.hidden_markCancel
  · rfl

theorem nextCopy_noting (s : FrameStack) (r : Region) : (s.noting r).nextCopy = s.nextCopy := by
  unfold noting
  split
  · exact s.nextCopy_markCancel
  · rfl

theorem framesKept_noting {s : FrameStack} (hidden : s.hidden = 0) (r : Region) :
    FramesKept s.frames (s.noting r).frames := by
  unfold noting
  split
  · rw [frames_markCancel hidden]
    exact framesKept_noteCancel _
  · exact .refl _

end FrameStack

end Directives
