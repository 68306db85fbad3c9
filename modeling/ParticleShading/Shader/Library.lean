import ParticleShading.Shader.Node

/-!
# Node library

Ready definitions: sources, arithmetic, a rim light and the master node that
feeds the host material. Nodes that read vertex data are varying.
-/

namespace ParticleShading

/-- The uniform that counts the seconds. -/
def timeUniform : String := "u_time"

namespace Library

def required (name : String) (type : ValueType) : Input Definition := ⟨name, type, none⟩

def optional (name : String) (type : ValueType) (fallback : Value) : Input Definition :=
  ⟨name, type, some (.literal fallback)⟩

/-- An input that is fed by a fresh node when it is left open. -/
def fedBy (name : String) (type : ValueType) (definition : Definition) : Input Definition :=
  ⟨name, type, some (.node definition)⟩

def output (name : String) (type : ValueType) (expr : String) : Output := ⟨name, type, some expr⟩

def main (type : ValueType) (expr : String) : List Output := [output defaultOutput type expr]

/-- The declaration behind every node that depends on time. -/
def elapsedTime : UniformDeclaration := ⟨timeUniform, .float 0, .elapsed⟩

def time : Definition :=
  { name := "Time", uniforms := [elapsedTime], outputs := main .float timeUniform }

def vertexPosition : Definition :=
  { name := "VertexPosition", varying := true, outputs := main .vec3 "position" }

def vertexNormal : Definition :=
  { name := "VertexNormal", varying := true, outputs := main .vec3 "normal" }

def uv : Definition :=
  { name := "UV", varying := true, outputs := main .vec2 "uv" }

/-- A literal as a node of its own. -/
def constant (value : Value) : Definition :=
  { name := "Constant", outputs := main value.type value.toGlsl }

/-- Hands its input on. -/
def passThrough (name : String) (type : ValueType) : Definition :=
  { name, inputs := [required "a" type], outputs := main type "in_a" }

def binary (name : String) (operator : String) (type : ValueType) : Definition :=
  { name, inputs := [required "a" type, required "b" type],
    outputs := main type ("in_a " ++ operator ++ " in_b") }

def add : ValueType → Definition := binary "Add" "+"

def subtract : ValueType → Definition := binary "Subtract" "-"

def multiply : ValueType → Definition := binary "Multiply" "*"

def divide : ValueType → Definition := binary "Divide" "/"

def scale (type : ValueType) : Definition :=
  { name := "Scale", inputs := [required "a" type, optional "factor" .float (.float 1)],
    outputs := main type "in_a * in_factor" }

def sin : Definition :=
  { name := "Sin", inputs := [required "a" .float], outputs := main .float "sin(in_a)" }

def cos : Definition :=
  { name := "Cos", inputs := [required "a" .float], outputs := main .float "cos(in_a)" }

def sineWave : Definition :=
  { name := "SineWave"
    inputs := [fedBy "time" .float time, optional "frequency" .float (.float 1),
      optional "amplitude" .float (.float 1)]
    outputs := main .float "sin(in_time * in_frequency) * in_amplitude" }

def mix (type : ValueType) : Definition :=
  { name := "Mix"
    inputs := [required "a" type, required "b" type, optional "amount" .float (.float 0.5)]
    outputs := main type "mix(in_a, in_b, in_amount)" }

def join : Definition :=
  { name := "Join"
    inputs := [optional "x" .float (.float 0), optional "y" .float (.float 0),
      optional "z" .float (.float 0)]
    outputs := main .vec3 "vec3(in_x, in_y, in_z)" }

def split : Definition :=
  { name := "Split", inputs := [required "a" .vec3]
    outputs := [output "x" .float "in_a.x", output "y" .float "in_a.y",
      output "z" .float "in_a.z"] }

/-- A rim term, brighter where the surface turns away from the camera. -/
def fresnel : Definition :=
  { name := "Fresnel", varying := true
    inputs := [optional "bias" .float (.float 0), optional "intensity" .float (.float 1),
      optional "power" .float (.float 2)]
    outputs := [⟨defaultOutput, .float, none⟩]
    vertex :=
      { body := some (
          "vec3 worldPosition = (modelMatrix * vec4(position, 1.0)).xyz;\n" ++
          "vec3 worldNormal = normalize(mat3(modelMatrix) * normal);\n" ++
          "vec3 incident = worldPosition - cameraPosition;\n" ++
          "out_value = in_bias + in_intensity * " ++
          "pow(1.0 + dot(normalize(incident), worldNormal), in_power);") } }

/-- The root that feeds the host material. -/
def master : Definition :=
  { name := "Master"
    inputs := [fedBy "position" .vec3 vertexPosition,
      optional "diffuseColor" .color (.color .white), optional "alpha" .float (.float 1)]
    outputs := [output "position" .vec3 "in_position",
      output "diffuseColor" .color "in_diffuseColor", output "alpha" .float "in_alpha"] }

end Library

end ParticleShading
