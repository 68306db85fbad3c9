import ParticleShading.Geometry.Quaternion
import ParticleShading.Particle.ChaCha

/-!
# Randomness for setups

A generator is a key and a position in its stream; every draw takes the next
words, so one seed always gives the same particles.
-/

namespace ParticleShading

structure Generator where
  key : ChaCha.Key
  position : Nat
  deriving DecidableEq

/-- A draw from a generator. -/
abbrev Draw (α : Type) := StateM Generator α

namespace Generator

def ofSeed (seed : UInt64) : Generator := ⟨ChaCha.keyOfSeed seed, 0⟩

/-- The next word of the stream. -/
def nextWord : Draw UInt32 := modifyGet fun g =>
  (ChaCha.word g.key g.position, { g with position := g.position + 1 })

/-- A full turn in radians. -/
def tau : Single := 6.2831855

/-- Uniform from zero up to one, in steps of `2 ^ -24`. -/
def unit : Draw Single := do
  return .ofNat ((← nextWord) >>> 8).toNat * ⟨0x33800000⟩

/-- Uniform from `-amplitude` up to `amplitude`. -/
def plusMinus (amplitude : Single) : Draw Single := do
  return ((← unit) * 2 - 1) * amplitude

/-- Uniform from `low` up to `high`. -/
def between (low high : Single) : Draw Single := do
  return low + (high - low) * (← unit)

/-- Uniform from zero up to `high`. -/
def upTo (high : Single) : Draw Single := do
  return high * (← unit)

/-- True with the given probability. -/
def chance (probability : Single) : Draw Bool := do
  return (← unit) < probability

/-- Every component uniform around zero. -/
def box (amplitude : Single) : Draw (Vec3 Single) := do
  let x ← plusMinus amplitude
  let y ← plusMinus amplitude
  let z ← plusMinus amplitude
  return ⟨x, y, z⟩

/-- A direction, uniform on the sphere: a height and an angle. -/
def direction : Draw (Vec3 Single) := do
  let z ← plusMinus 1
  let theta ← upTo tau
  let rest := 1 - z * z
  let r := (if rest < 0 then 0 else rest).sqrt
  return ⟨r * theta.cos, r * theta.sin, z⟩

/-- An orientation, uniform on the unit quaternions. -/
def rotation : Draw (Quaternion Single) := do
  let u1 ← unit
  let u2 ← unit
  let u3 ← unit
  let a := (1 - u1).sqrt
  let b := u1.sqrt
  let t2 := tau * u2
  let t3 := tau * u3
  return ⟨a * t2.sin, a * t2.cos, b * t3.sin, b * t3.cos⟩

end Generator

end ParticleShading
