import ParticleShading.Shader.Program

/-!
# Compilation

Turns the nodes that a root reaches into the sources of both stages and the list
of uniforms they need. A compiled shader is a value; `Material` adds the cells
that hold its uniforms while it is in use.
-/

namespace ParticleShading

/-- A line at the end of `main` of one stage. Its placeholders name outputs of
the root. -/
structure Injection where
  stage : Stage
  template : String
  deriving DecidableEq

structure CompilerConfig where
  injections : List Injection
  /-- A comment before every block. -/
  annotate : Bool
  deriving DecidableEq

/-- The injection points of the host material. -/
def CompilerConfig.standard : CompilerConfig :=
  { injections :=
      [⟨.vertex, "csm_Position = \x7bposition\x7d;"⟩,
       ⟨.fragment, "csm_DiffuseColor = vec4(\x7bdiffuseColor\x7d, \x7balpha\x7d);"⟩]
    annotate := true }

/-- Sources and uniforms of a shader, the uniforms in the order of their names. -/
structure CompiledShader where
  vertex : Source
  fragment : Source
  uniforms : List UniformDeclaration
  nodeCount : Nat

namespace Program

/-- The uniforms of a program, merged by name. -/
def uniforms (p : Program) : Except GraphError (List UniformDeclaration) :=
  UniformDeclaration.merge [] p.declarations

/-- The injected lines of a stage with their placeholders replaced. -/
def injectedLines (p : Program) (stage : Stage) : List Injection → Except GraphError (List String)
  | [] => .ok []
  | i :: rest =>
    if i.stage = stage then do
      let line ← Text.render p.rootOutput i.template
      let lines ← p.injectedLines stage rest
      return line :: lines
    else p.injectedLines stage rest

/-- The source of one stage. -/
def source (p : Program) (config : CompilerConfig) (uniforms : List UniformDeclaration)
    (stage : Stage) : Except GraphError Source := do
  let injections ← p.injectedLines stage config.injections
  return {
    stage
    uniforms := uniforms.map fun d => ⟨d.type, d.name⟩
    varyings := p.varyings
    headers := p.headers stage
    globals := p.globals
    main := p.labeled.flatMap fun (label, node) => p.statements stage config.annotate label node
    injections }

/-- The shader of a program. -/
def compile (p : Program) (config : CompilerConfig) : Except GraphError CompiledShader := do
  let uniforms ← p.uniforms
  let vertex ← p.source config uniforms .vertex
  let fragment ← p.source config uniforms .fragment
  return ⟨vertex, fragment, uniforms, p.nodes.length⟩

end Program

/-- Compiles what a root reaches. -/
def Graph.compile (g : Graph) (config : CompilerConfig) (root : NodeId) :
    Except ShaderError CompiledShader :=
  match g.linearize root with
  | .error e => .error e
  | .ok nodes =>
    match (Program.mk nodes).compile config with
    | .ok shader => .ok shader
    | .error e => .error (.graph e)

/-- A compiled shader in use. Copies of a material share its cells. -/
structure Material where
  shader : CompiledShader
  uniforms : UniformTable

namespace Material

/-- Gives the uniforms of a shader cells of their own. -/
def allocate (shader : CompiledShader) (cells : Cells) : Material × Cells :=
  let (uniforms, cells) := UniformTable.allocate shader.uniforms cells
  (⟨shader, uniforms⟩, cells)

/-- The uniform that counts the seconds, if the shader has it. -/
def time? (m : Material) : Option Uniform := m.uniforms.find? timeUniform

/-- Applies the update rules of all uniforms. -/
def update (m : Material) (delta : Single) (cells : Cells) : Cells :=
  m.uniforms.advance delta cells

end Material

end ParticleShading
