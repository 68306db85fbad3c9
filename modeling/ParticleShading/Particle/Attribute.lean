import ParticleShading.Shader.Value

/-!
# Particle attributes

What the vertex shader is told of each particle: a fixed list of attributes,
each with a name and a type.
-/

namespace ParticleShading

inductive AttributeKind where
  | time
  | velocity
  | acceleration
  | color0
  | color1
  | scale0
  | scale1
  deriving DecidableEq

namespace AttributeKind

/-- In the order of the buffers. -/
def all : List AttributeKind := [.time, .velocity, .acceleration, .color0, .color1, .scale0, .scale1]

/-- The place of its buffer. -/
def position (kind : AttributeKind) : Nat := kind.ctorIdx

def name : AttributeKind → String
  | .time => "time"
  | .velocity => "velocity"
  | .acceleration => "acceleration"
  | .color0 => "color0"
  | .color1 => "color1"
  | .scale0 => "scale0"
  | .scale1 => "scale1"

def ofName? (name : String) : Option AttributeKind := all.find? (·.name = name)

def type : AttributeKind → ValueType
  | .time => .vec2
  | .velocity | .acceleration | .scale0 | .scale1 => .vec3
  | .color0 | .color1 => .vec4

/-- The number of floats of one item. -/
def itemSize (kind : AttributeKind) : Nat := kind.type.size

/-- The declarations of all attributes in a vertex shader. -/
def declarations : String :=
  String.join (all.map fun kind => "attribute " ++ kind.type.glslName ++ " " ++ kind.name ++ ";\n")

theorem itemSize_pos (kind : AttributeKind) : 0 < kind.itemSize := by cases kind <;> decide

theorem getElem?_all (kind : AttributeKind) : all[kind.position]? = some kind := by
  cases kind <;> rfl

theorem mem_all (kind : AttributeKind) : kind ∈ all := List.mem_of_getElem? (getElem?_all kind)

theorem nodup_all : all.Nodup := by decide

/-- All kinds stand in their places, each in one. -/
theorem getElem?_all_eq_some_iff {kind : AttributeKind} {place : Nat} :
    all[place]? = some kind ↔ place = kind.position := by
  constructor
  · intro here
    have inside : place < all.length := (List.getElem?_eq_some_iff.1 here).1
    exact (List.getElem?_inj inside nodup_all).1 (here.trans (getElem?_all kind).symm)
  · rintro rfl
    exact getElem?_all kind

end AttributeKind

end ParticleShading
