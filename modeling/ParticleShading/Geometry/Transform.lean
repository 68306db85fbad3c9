import ParticleShading.Geometry.Quaternion

/-!
# Transforms

A matrix is four columns. `Mat4.compose` scales first, then rotates, then
moves; a transform keeps the three parts apart.
-/

namespace ParticleShading

/-- A four by four matrix, column by column. -/
structure Mat4 (α : Type) where
  col0 : Vec4 α
  col1 : Vec4 α
  col2 : Vec4 α
  col3 : Vec4 α
  deriving DecidableEq

/-- A position, an orientation and a scale along the three axes. -/
structure Transform (α : Type) where
  position : Vec3 α
  rotation : Quaternion α
  scale : Vec3 α
  deriving DecidableEq

variable {α : Type}

namespace Mat4

/-- The sixteen elements in column-major order. -/
def toList (m : Mat4 α) : List α :=
  m.col0.toList ++ m.col1.toList ++ m.col2.toList ++ m.col3.toList

def identity [OfNat α 0] [OfNat α 1] : Mat4 α :=
  ⟨⟨1, 0, 0, 0⟩, ⟨0, 1, 0, 0⟩, ⟨0, 0, 1, 0⟩, ⟨0, 0, 0, 1⟩⟩

/-- The matrix that scales, rotates by a unit quaternion and moves. -/
def compose [Add α] [Sub α] [Mul α] [OfNat α 0] [OfNat α 1]
    (position : Vec3 α) (rotation : Quaternion α) (scale : Vec3 α) : Mat4 α :=
  let x := rotation.x
  let y := rotation.y
  let z := rotation.z
  let w := rotation.w
  let x2 := x + x
  let y2 := y + y
  let z2 := z + z
  let xx := x * x2
  let xy := x * y2
  let xz := x * z2
  let yy := y * y2
  let yz := y * z2
  let zz := z * z2
  let wx := w * x2
  let wy := w * y2
  let wz := w * z2
  ⟨⟨(1 - (yy + zz)) * scale.x, (xy + wz) * scale.x, (xz - wy) * scale.x, 0⟩,
   ⟨(xy - wz) * scale.y, (1 - (xx + zz)) * scale.y, (yz + wx) * scale.y, 0⟩,
   ⟨(xz + wy) * scale.z, (yz - wx) * scale.z, (1 - (xx + yy)) * scale.z, 0⟩,
   ⟨position.x, position.y, position.z, 1⟩⟩

/-- Where the origin goes. -/
def position (m : Mat4 α) : Vec3 α := ⟨m.col3.x, m.col3.y, m.col3.z⟩

/-- The image of a point; its fourth coordinate is one. -/
def transformPoint [Add α] [Mul α] (m : Mat4 α) (p : Vec3 α) : Vec3 α :=
  ⟨m.col0.x * p.x + m.col1.x * p.y + m.col2.x * p.z + m.col3.x,
   m.col0.y * p.x + m.col1.y * p.y + m.col2.y * p.z + m.col3.y,
   m.col0.z * p.x + m.col1.z * p.y + m.col2.z * p.z + m.col3.z⟩

end Mat4

namespace Transform

def identity [OfNat α 0] [OfNat α 1] : Transform α :=
  ⟨Vec3.zero, Quaternion.identity, Vec3.one⟩

/-- No rotation and unit scale at a position. -/
def ofPosition [OfNat α 0] [OfNat α 1] (position : Vec3 α) : Transform α :=
  ⟨position, Quaternion.identity, Vec3.one⟩

def toMatrix [Add α] [Sub α] [Mul α] [OfNat α 0] [OfNat α 1] (t : Transform α) : Mat4 α :=
  Mat4.compose t.position t.rotation t.scale

end Transform

end ParticleShading
