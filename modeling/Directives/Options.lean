import Directives.Vocabulary
import Directives.Error
import Directives.Wide
/-!
Options of the analysis.
-/

namespace Directives

/-- Versions of the directive language, oldest first. -/
inductive LanguageVersion where
  | v31 | v40 | v45 | v50 | v51 | v52
  deriving DecidableEq, Repr, Inhabited

instance : Vocabulary LanguageVersion where
  members := [.v31, .v40, .v45, .v50, .v51, .v52]
  label
    | .v31 => "3.1" | .v40 => "4.0" | .v45 => "4.5" | .v50 => "5.0" | .v51 => "5.1" | .v52 => "5.2"

/-- The version has the features of 5.0. -/
def LanguageVersion.atLeast50 : LanguageVersion → Bool
  | .v50 | .v51 | .v52 => true
  | _ => false

/-- What the caller chooses. `permissiveNotEqual` decides whether a loop condition may be `!=`;
without it the version decides. `iterationWidth` is the widest integer that can count iterations.
`levelRoom` is no choice: it says how many loops of a nest the machine has room for. A level takes
some 1280 bytes, and no more than 2 ^ 63 - 1 bytes can be asked for at once. -/
structure Options where
  version : LanguageVersion := .v51
  permissiveNotEqual : Option Bool := none
  iterationWidth : Nat := 64
  deferDependent : Bool := true
  levelRoom : Nat := (capacity 63 - 1) / 1280
  deriving DecidableEq, Repr, Inhabited

namespace Options

/-- The options that differ from the default in the version only. -/
def forVersion (version : LanguageVersion) : Options := { version }

/-- Iterations are counted in 32 or in 64 bits. -/
def validate (o : Options) : Except Error Unit :=
  if o.iterationWidth = 32 ∨ o.iterationWidth = 64 then .ok ()
  else .error (.invalidOptions
    ("iteration_width must be 32 or 64, got " ++ toString o.iterationWidth))

/-- A loop condition may be `!=`. -/
def allowsNotEqual (o : Options) : Bool :=
  o.permissiveNotEqual.getD o.version.atLeast50

/-- A `const` variable without mutable members is shared, whatever the clauses say. -/
def sharesConst (o : Options) : Bool := o.version = .v31

end Options

end Directives
