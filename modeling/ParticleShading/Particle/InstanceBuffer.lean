import ParticleShading.DirtyRange
import ParticleShading.Geometry.Transform
import ParticleShading.Shader.Compile

/-!
# Instance buffers

The transforms of the drawn instances and the source of the current time.
-/

namespace ParticleShading

/-- The floats of one transform. -/
def matrixItemSize : Nat := 16

structure InstanceBuffer where
  matrices : Array (Mat4 Single)
  /-- The instances drawn. -/
  count : Nat
  time : Option Uniform
  dirty : DirtyRange

namespace InstanceBuffer

/-- Identity transforms and nothing drawn. -/
def identities (capacity : Nat) (time : Option Uniform) : InstanceBuffer :=
  ⟨Array.replicate capacity .identity, 0, time, .clean⟩

/-- A buffer that reads the time of a material. -/
def forMaterial (capacity : Nat) (material : Material) : InstanceBuffer :=
  identities capacity material.time?

def capacity (b : InstanceBuffer) : Nat := b.matrices.size

/-- Overwrites a transform; one past the end is left out. -/
def setMatrix (b : InstanceBuffer) (index : Nat) (matrix : Mat4 Single) : InstanceBuffer :=
  { b with matrices := b.matrices.setIfInBounds index matrix }

/-- Draws `count` instances, or all if there are fewer. -/
def setCount (b : InstanceBuffer) (count : Nat) : InstanceBuffer :=
  { b with count := min count b.capacity }

/-- The value of the time uniform; zero without one or if it is no scalar. -/
def currentTime (b : InstanceBuffer) (cells : Cells) : Single :=
  (b.time.bind (·.float? cells)).getD 0

def mark (b : InstanceBuffer) (offset count : Nat) : InstanceBuffer :=
  { b with dirty := b.dirty.mark offset count }

def clear (b : InstanceBuffer) : InstanceBuffer := { b with dirty := .clean }

/-- The window awaiting upload in floats, as offset and count. -/
def updateRange (b : InstanceBuffer) : Nat × Nat := b.dirty.scaled matrixItemSize

/-- All transforms, one after another. -/
def floats (b : InstanceBuffer) : List Single := b.matrices.toList.flatMap Mat4.toList

def inspectColumn (column : Vec4 Single) : String :=
  "[" ++ ", ".intercalate (column.toList.map FloatLayout.inspected.write) ++ "]"

def inspectMatrix (m : Mat4 Single) : String :=
  let columns := [m.col0, m.col1, m.col2, m.col3].map inspectColumn
  "Mat4 \x7b cols: [" ++ ", ".intercalate columns ++ "] \x7d"

def inspect (b : InstanceBuffer) (cells : Cells) : String :=
  let time := match b.time with
    | none => "None"
    | some u => "Some(" ++ u.inspect cells ++ ")"
  "InstanceBuffer \x7b matrices: [" ++ ", ".intercalate (b.matrices.toList.map inspectMatrix) ++
    "], count: " ++ toString b.count ++ ", time: " ++ time ++ ", dirty: " ++ b.dirty.inspect ++
    " \x7d"

end InstanceBuffer

end ParticleShading
