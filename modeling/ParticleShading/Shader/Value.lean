import ParticleShading.Decimal.Layout
import ParticleShading.Geometry.Vector
import ParticleShading.Color

/-!
# Typed values

The closed set of types a node input or output may have, and literal values of
those types. A color is a vector of three in the shading language, so the two
stand in for each other; a literal scalar also spreads over a vector.
-/

namespace ParticleShading

inductive ValueType where
  | float
  | vec2
  | vec3
  | vec4
  | color
  | mat3
  | mat4
  deriving DecidableEq

namespace ValueType

def all : List ValueType := [.float, .vec2, .vec3, .vec4, .color, .mat3, .mat4]

/-- The name in descriptions and messages. -/
def name : ValueType → String
  | .float => "float"
  | .vec2 => "vec2"
  | .vec3 => "vec3"
  | .vec4 => "vec4"
  | .color => "color"
  | .mat3 => "mat3"
  | .mat4 => "mat4"

def ofName? (name : String) : Option ValueType := all.find? (·.name = name)

/-- The keyword in shader text. -/
def glslName : ValueType → String
  | .color => "vec3"
  | type => type.name

/-- The name of the values of a type. -/
def constructorName : ValueType → String
  | .float => "Float"
  | .vec2 => "Vec2"
  | .vec3 => "Vec3"
  | .vec4 => "Vec4"
  | .color => "Color"
  | .mat3 => "Mat3"
  | .mat4 => "Mat4"

/-- The number of scalars. -/
def size : ValueType → Nat
  | .float => 1
  | .vec2 => 2
  | .vec3 => 3
  | .vec4 => 4
  | .color => 3
  | .mat3 => 9
  | .mat4 => 16

/-- Whether an output of type `source` may feed an input of type `input`. -/
def accepts (input source : ValueType) : Bool :=
  match input, source with
  | .vec3, .color => true
  | .color, .vec3 => true
  | input, source => input = source

end ValueType

/-- A literal: a type and as many scalars as it has, matrices by columns. -/
structure Value where
  type : ValueType
  components : Vector Single type.size
  deriving DecidableEq

namespace Value

/-- The value with one scalar in every component. -/
def splat (type : ValueType) (s : Single) : Value := ⟨type, Vector.replicate type.size s⟩

def zero (type : ValueType) : Value := splat type 0

def float (s : Single) : Value := ⟨.float, #v[s]⟩

def vec2 (v : Vec2 Single) : Value := ⟨.vec2, #v[v.x, v.y]⟩

def vec3 (v : Vec3 Single) : Value := ⟨.vec3, #v[v.x, v.y, v.z]⟩

def vec4 (v : Vec4 Single) : Value := ⟨.vec4, #v[v.x, v.y, v.z, v.w]⟩

def color (c : Color) : Value := ⟨.color, #v[c.red, c.green, c.blue]⟩

/-- The value of a type with the given components, if their number fits. -/
def ofList? (type : ValueType) (components : List Single) : Option Value :=
  if h : components.length = type.size then some ⟨type, ⟨components.toArray, by simp [h]⟩⟩
  else none

/-- A vector of two, three or four components. -/
def ofVector? : List Single → Option Value
  | [x, y] => some (vec2 ⟨x, y⟩)
  | [x, y, z] => some (vec3 ⟨x, y, z⟩)
  | [x, y, z, w] => some (vec4 ⟨x, y, z, w⟩)
  | _ => none

def toList (v : Value) : List Single := v.components.toList

/-- The scalar of a `float` value. -/
def asFloat? : Value → Option Single
  | ⟨.float, scalar⟩ => some scalar[0]
  | _ => none

/-- The literal as one of type `target`. A scalar spreads over vectors and
colors; matrices have no other form. -/
def coerce? (v : Value) (target : ValueType) : Option Value :=
  if v.type = target then some v
  else
    match v, target with
    | ⟨.color, channels⟩, .vec3 => some ⟨.vec3, channels⟩
    | ⟨.vec3, channels⟩, .color => some ⟨.color, channels⟩
    | ⟨.float, scalar⟩, .vec2 => some (splat .vec2 scalar[0])
    | ⟨.float, scalar⟩, .vec3 => some (splat .vec3 scalar[0])
    | ⟨.float, scalar⟩, .vec4 => some (splat .vec4 scalar[0])
    | ⟨.float, scalar⟩, .color => some (splat .color scalar[0])
    | _, _ => none

/-- A scalar in shader text, never read as an integer. -/
def glslFloat (x : Single) : String := FloatLayout.pointed.write x

/-- The literal in shader text: a bare scalar, or a call of its type. -/
def toGlsl (v : Value) : String :=
  let parts := v.toList.map glslFloat
  match v.type with
  | .float => String.join parts
  | type => type.glslName ++ "(" ++ ", ".intercalate parts ++ ")"

/-- The value with the name of its type, floats in full. -/
def inspect (v : Value) : String :=
  let parts := v.toList.map FloatLayout.inspected.write
  match v.type with
  | .float => "Float(" ++ String.join parts ++ ")"
  | type => type.constructorName ++ "([" ++ ", ".intercalate parts ++ "])"

theorem type_of_coerce? {v w : Value} {target : ValueType} (h : v.coerce? target = some w) :
    w.type = target := by
  unfold coerce? at h
  split at h
  · cases h; assumption
  · split at h <;> cases h <;> rfl

end Value

end ParticleShading
