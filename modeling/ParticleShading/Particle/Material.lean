import ParticleShading.Particle.Attribute
import ParticleShading.Shader.Compile

/-!
# Particle materials

Nodes that animate particles from the attributes of their slots. All of them are
varying, since attributes exist per vertex only, and their age is counted by the
time uniform that also stamps new particles.
-/

namespace ParticleShading

namespace Library

/-- A node that reads attributes and the time. -/
def particleNode (name : String) (inputs : List (Input Definition)) (type : ValueType)
    (expr : String) : Definition :=
  { name, inputs, outputs := main type expr, varying := true, uniforms := [elapsedTime],
    vertex := { header := some AttributeKind.declarations } }

/-- Seconds since birth. -/
def particleAge : Definition :=
  particleNode "ParticleAge" [] .float "max(u_time - time.x, 0.0)"

/-- Zero at birth and one at death. -/
def particleProgress : Definition :=
  particleNode "ParticleProgress" [] .float
    "clamp((u_time - time.x) / max(time.y - time.x, 0.0001), 0.0, 1.0)"

/-- One between birth and death and zero outside. -/
def particleAlive : Definition :=
  particleNode "ParticleAlive" [] .float "step(time.x, u_time) * step(u_time, time.y)"

def ballisticPosition : Definition :=
  particleNode "BallisticPosition"
    [fedBy "position" .vec3 vertexPosition, fedBy "age" .float particleAge] .vec3
    "in_position + velocity * in_age + 0.5 * acceleration * in_age * in_age"

def particleScale : Definition :=
  particleNode "ParticleScale" [fedBy "progress" .float particleProgress] .vec3
    "mix(scale0, scale1, in_progress)"

def particleColor : Definition :=
  particleNode "ParticleColor" [fedBy "progress" .float particleProgress] .color
    "mix(color0.rgb, color1.rgb, in_progress)"

def particleAlpha : Definition :=
  particleNode "ParticleAlpha" [fedBy "progress" .float particleProgress] .float
    "mix(color0.a, color1.a, in_progress)"

/-- The particle nodes by name. -/
def particleDefinitions : List (String × Definition) :=
  [("particle_age", particleAge), ("particle_progress", particleProgress),
   ("particle_alive", particleAlive), ("ballistic_position", ballisticPosition),
   ("particle_scale", particleScale), ("particle_color", particleColor),
   ("particle_alpha", particleAlpha)]

end Library

/-- A whole particle master: a scaled vertex on a ballistic path, its color
interpolated, its alpha faded and zero outside the lifetime. -/
def Build.particleMaster : Build NodeId := do
  let vertex ← node Library.vertexPosition []
  let scale ← node Library.particleScale []
  let scaled ← node (Library.multiply .vec3) [("a", .node vertex), ("b", .node scale)]
  let position ← node Library.ballisticPosition [("position", .node scaled)]
  let color ← node Library.particleColor []
  let alpha ← node Library.particleAlpha []
  let alive ← node Library.particleAlive []
  let visible ← node (Library.multiply .float) [("a", .node alpha), ("b", .node alive)]
  node Library.master
    [("position", .node position), ("diffuseColor", .node color), ("alpha", .node visible)]

/-- The particle master on its own, compiled for the host material. -/
def particleMaterial : Except ShaderError CompiledShader :=
  match Build.particleMaster.on .empty with
  | (.error e, _) => .error e
  | (.ok root, g) => g.compile .standard root

end ParticleShading
