/-!
Arithmetic of loop bounds. Values are integers of 128 bits: a result outside that range is
undefined rather than wrapped, so a defined result is the exact one. Only the sign of a literal is
turned without a check and wraps. Counts are natural numbers of 128 bits.
-/

namespace Directives

/-- How many values so many bits have. -/
def capacity (bits : Nat) : Nat := Nat.pow 2 bits

namespace Wide

/-- Least value. -/
def least : Int := -(capacity 127 : Int)

/-- Greatest value. -/
def greatest : Int := (capacity 127 : Int) - 1

/-- Greatest count. -/
def greatestCount : Nat := capacity 128 - 1

/-- The value itself when it is in range. -/
def check (v : Int) : Option Int :=
  if least ≤ v ∧ v ≤ greatest then some v else none

/-- The count itself when it is in range. -/
def checkCount (n : Nat) : Option Nat :=
  if n ≤ greatestCount then some n else none

/-- The value in range that is congruent to `v` modulo the capacity of the bits. -/
def wrap (v : Int) : Int := v.bmod (capacity 128)

/-- One, shifted by so many places. These are counted modulo 128. -/
def shift (places : Nat) : Int := wrap (capacity (places % 128))

def neg (a : Int) : Option Int := check (-a)

def add (a b : Int) : Option Int := check (a + b)

def sub (a b : Int) : Option Int := check (a - b)

def mul (a b : Int) : Option Int := check (a * b)

/-- The quotient rounded toward zero; there is none by zero, nor where it leaves the range. -/
def div (a b : Int) : Option Int :=
  if b = 0 then none else check (a.tdiv b)

/-- The remainder of `div`, with the sign of the dividend; defined where `div` is. -/
def rem (a b : Int) : Option Int :=
  (div a b).map fun _ => a.tmod b

def mulCount (a b : Nat) : Option Nat := checkCount (a * b)

theorem check_eq_some {v w : Int} : check v = some w ↔ w = v ∧ least ≤ v ∧ v ≤ greatest := by
  unfold check
  split
  · rename_i inRange
    exact ⟨fun h => Option.some.inj h ▸ ⟨rfl, inRange⟩, fun h => h.1 ▸ rfl⟩
  · rename_i outOfRange
    exact ⟨nofun, fun h => absurd (h.1 ▸ h.2) outOfRange⟩

end Wide

end Directives
