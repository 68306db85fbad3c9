import ParticleShading.Single

/-!
# Vectors

Two, three and four scalars with their componentwise operations. The scalar is
a parameter, so one formula is read over floats and over exact numbers alike.
-/

namespace ParticleShading

structure Vec2 (α : Type) where
  x : α
  y : α
  deriving DecidableEq

structure Vec3 (α : Type) where
  x : α
  y : α
  z : α
  deriving DecidableEq

structure Vec4 (α : Type) where
  x : α
  y : α
  z : α
  w : α
  deriving DecidableEq

variable {α : Type}

namespace Vec2

def toList (v : Vec2 α) : List α := [v.x, v.y]

def zero [OfNat α 0] : Vec2 α := ⟨0, 0⟩

end Vec2

namespace Vec3

def toList (v : Vec3 α) : List α := [v.x, v.y, v.z]

/-- The vector with one scalar in every component. -/
def splat (s : α) : Vec3 α := ⟨s, s, s⟩

def zero [OfNat α 0] : Vec3 α := splat 0

def one [OfNat α 1] : Vec3 α := splat 1

def unitX [OfNat α 0] [OfNat α 1] : Vec3 α := ⟨1, 0, 0⟩

def unitY [OfNat α 0] [OfNat α 1] : Vec3 α := ⟨0, 1, 0⟩

def unitZ [OfNat α 0] [OfNat α 1] : Vec3 α := ⟨0, 0, 1⟩

instance [Add α] : Add (Vec3 α) := ⟨fun a b => ⟨a.x + b.x, a.y + b.y, a.z + b.z⟩⟩

instance [Sub α] : Sub (Vec3 α) := ⟨fun a b => ⟨a.x - b.x, a.y - b.y, a.z - b.z⟩⟩

instance [Mul α] : HMul (Vec3 α) α (Vec3 α) := ⟨fun a s => ⟨a.x * s, a.y * s, a.z * s⟩⟩

/-- The componentwise product. -/
def hadamard [Mul α] (a b : Vec3 α) : Vec3 α := ⟨a.x * b.x, a.y * b.y, a.z * b.z⟩

def dot [Add α] [Mul α] (a b : Vec3 α) : α := a.x * b.x + a.y * b.y + a.z * b.z

def lengthSquared [Add α] [Mul α] (a : Vec3 α) : α := a.dot a

def length (a : Vec3 Single) : Single := a.lengthSquared.sqrt

end Vec3

namespace Vec4

def toList (v : Vec4 α) : List α := [v.x, v.y, v.z, v.w]

def zero [OfNat α 0] : Vec4 α := ⟨0, 0, 0, 0⟩

end Vec4

end ParticleShading
