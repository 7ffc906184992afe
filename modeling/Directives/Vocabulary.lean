/-!
Closed vocabularies: finite kinds of things whose members are written by a label.
-/

namespace Directives

/-- A closed vocabulary lists its members, and gives each the label under which it is written. -/
class Vocabulary (α : Type) where
  members : List α
  label : α → String

export Vocabulary (label)

/-- The member written as `s`. -/
def Vocabulary.find? (α : Type) [Vocabulary α] (s : String) : Option α :=
  (Vocabulary.members (α := α)).find? fun a => Vocabulary.label a == s

end Directives
