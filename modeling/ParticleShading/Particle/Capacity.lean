/-!
# Capacities

Sizes are counted in machine words. A sum of two sizes that no word can count is
held at the largest one.
-/

namespace ParticleShading

/-- The largest size that a machine word counts. -/
def maxSize : Nat := UInt64.size - 1

/-- The sum of two sizes, held at the largest one. -/
def saturatingAdd (a b : Nat) : Nat := min (a + b) maxSize

theorem saturatingAdd_le (a b : Nat) : saturatingAdd a b ≤ maxSize := Nat.min_le_right ..

theorem saturatingAdd_eq {a b : Nat} (h : a + b ≤ maxSize) : saturatingAdd a b = a + b :=
  Nat.min_eq_left h

end ParticleShading
