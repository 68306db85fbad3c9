import ParticleShading.Color
import ParticleShading.Geometry.Transform

/-!
# Particle records

The initial state of one particle, as a setup fills it in.
-/

namespace ParticleShading

/-- A value at birth and a value at death. -/
structure Span (α : Type) where
  birth : α
  death : α
  deriving DecidableEq

structure ParticleRecord where
  position : Vec3 Single
  rotation : Quaternion Single
  velocity : Vec3 Single
  acceleration : Vec3 Single
  scale : Span (Vec3 Single)
  color : Span Color
  alpha : Span Single
  /-- Seconds from the spawn to the birth. -/
  delay : Single
  /-- Seconds from the spawn to the death. -/
  lifetime : Single
  deriving DecidableEq

namespace ParticleRecord

/-- Where every particle starts: white, fading out over one second. -/
def standard : ParticleRecord :=
  { position := .zero
    rotation := .identity
    velocity := .zero
    acceleration := .zero
    scale := ⟨.one, .one⟩
    color := ⟨.white, .white⟩
    alpha := ⟨1, 0⟩
    delay := 0
    lifetime := 1 }

/-- The standard record with the placement and the scale of a transform. -/
def ofOrigin (origin : Transform Single) : ParticleRecord :=
  { standard with
    position := origin.position
    rotation := origin.rotation
    scale := ⟨origin.scale, origin.scale⟩ }

/-- The record that a setup starts from. -/
def initial : Option (Transform Single) → ParticleRecord
  | none => standard
  | some origin => ofOrigin origin

/-- Placement and orientation at unit scale; the scale is animated elsewhere. -/
def instanceMatrix (r : ParticleRecord) : Mat4 Single :=
  Mat4.compose r.position r.rotation .one

def rgba (color : Color) (alpha : Single) : Vec4 Single :=
  ⟨color.red, color.green, color.blue, alpha⟩

def birthColor (r : ParticleRecord) : Vec4 Single := rgba r.color.birth r.alpha.birth

def deathColor (r : ParticleRecord) : Vec4 Single := rgba r.color.death r.alpha.death

end ParticleRecord

end ParticleShading
