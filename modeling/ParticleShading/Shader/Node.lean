import ParticleShading.Shader.Uniform

/-!
# Nodes

A definition is a reusable piece of a shader: typed inputs and outputs, code for
both stages, and the uniforms it needs. A node is a definition with one binding
per input. An input left open falls back to a literal, to an expression, or to a
fresh node of another definition, so definitions nest.
-/

namespace ParticleShading

inductive Stage where
  | vertex
  | fragment
  deriving DecidableEq

def Stage.name : Stage → String
  | .vertex => "vertex"
  | .fragment => "fragment"

abbrev NodeId := Handle

/-- The output that a node stands for when none is named. -/
def defaultOutput : String := "value"

/-- One output of one node. -/
structure OutputRef where
  node : NodeId
  output : String
  deriving DecidableEq

/-- What feeds an input. -/
inductive Binding where
  | literal (value : Value)
  | expr (source : String)
  | output (source : OutputRef)
  deriving DecidableEq

/-- The main output of a node. -/
def Binding.node (id : NodeId) : Binding := .output ⟨id, defaultOutput⟩

/-- What feeds an input that is left open. -/
inductive Fallback (δ : Type) where
  | literal (value : Value)
  | expr (source : String)
  /-- The main output of a fresh node. -/
  | node (definition : δ)

/-- An input, read as `in_name`; without a fallback it has to be bound. -/
structure Input (δ : Type) where
  name : String
  type : ValueType
  fallback : Option (Fallback δ)

/-- An output, assigned as `out_name`; without an expression it starts at zero. -/
structure Output where
  name : String
  type : ValueType
  expr : Option String
  deriving DecidableEq

/-- Shader text of one stage: a header at file scope and a body. -/
structure StageCode where
  header : Option String := none
  body : Option String := none
  deriving DecidableEq

structure Definition where
  name : String
  inputs : List (Input Definition) := []
  outputs : List Output := []
  vertex : StageCode := {}
  fragment : StageCode := {}
  uniforms : List UniformDeclaration := []
  /-- The outputs are computed per vertex and interpolated for the fragments. -/
  varying : Bool := false

namespace Definition

def stage (d : Definition) : Stage → StageCode
  | .vertex => d.vertex
  | .fragment => d.fragment

/-- The first input of a name. -/
def findInput? (d : Definition) (name : String) : Option (Input Definition) :=
  d.inputs.find? (·.name = name)

/-- The first output of a name. -/
def findOutput? (d : Definition) (name : String) : Option Output :=
  d.outputs.find? (·.name = name)

end Definition

/-- A definition with one binding per input, in the order of the inputs. -/
structure Node where
  definition : Definition
  bindings : List Binding

namespace Node

def name (n : Node) : String := n.definition.name

/-- The inputs with what feeds them. -/
def inputs (n : Node) : List (Input Definition × Binding) :=
  n.definition.inputs.zip n.bindings

/-- What feeds the first input of a name. -/
def binding? (n : Node) (input : String) : Option Binding :=
  (n.inputs.find? (·.1.name = input)).map (·.2)

end Node

end ParticleShading
