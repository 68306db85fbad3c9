import ParticleShading.Geometry.Vector

/-!
# Quaternions

Rotations as quaternions `x i + y j + z k + w`, with the Hamilton product.
-/

namespace ParticleShading

structure Quaternion (α : Type) where
  x : α
  y : α
  z : α
  w : α
  deriving DecidableEq

namespace Quaternion

variable {α : Type}

def toList (q : Quaternion α) : List α := [q.x, q.y, q.z, q.w]

/-- The rotation that moves nothing. -/
def identity [OfNat α 0] [OfNat α 1] : Quaternion α := ⟨0, 0, 0, 1⟩

/-- The square of the norm. -/
def normSquared [Add α] [Mul α] (q : Quaternion α) : α :=
  q.x * q.x + q.y * q.y + q.z * q.z + q.w * q.w

/-- The Hamilton product: rotate by `b`, then by `a`. -/
instance [Add α] [Sub α] [Mul α] : Mul (Quaternion α) :=
  ⟨fun a b =>
    ⟨a.x * b.w + a.w * b.x + a.y * b.z - a.z * b.y,
     a.y * b.w + a.w * b.y + a.z * b.x - a.x * b.z,
     a.z * b.w + a.w * b.z + a.x * b.y - a.y * b.x,
     a.w * b.w - a.x * b.x - a.y * b.y - a.z * b.z⟩⟩

/-- The rotation by `angle` radians around a unit axis. -/
def ofAxisAngle (axis : Vec3 Single) (angle : Single) : Quaternion Single :=
  let s := (angle * 0.5).sin
  let c := (angle * 0.5).cos
  ⟨axis.x * s, axis.y * s, axis.z * s, c⟩

/-- The quaternion over its norm; a quaternion of norm zero gives the identity. -/
def normalize (q : Quaternion Single) : Quaternion Single :=
  let norm := q.normSquared.sqrt
  if norm.isZero then identity
  else ⟨q.x / norm, q.y / norm, q.z / norm, q.w / norm⟩

end Quaternion

end ParticleShading
