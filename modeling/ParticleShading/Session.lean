import ParticleShading.Particle.Emitter
import ParticleShading.Particle.Material
import ParticleShading.Particle.Setup
import ParticleShading.Shader.Description

/-!
# Sessions

One registry and one graph with everything that lives around them: the cells of
all uniforms, the shaders compiled so far, uniform handles, emitters, generators
and at most one spawner. Lists only grow, so a position keeps its meaning.
-/

namespace ParticleShading

structure Session where
  registry : Registry
  /-- The stamp of the next factory. -/
  stamps : Nat
  graph : Graph
  cells : Cells
  materials : Array Material
  uniforms : Array Uniform
  emitters : Array Emitter
  generators : Array Generator
  spawner : Option Spawner

namespace Session

def start (registry : Registry) : Session :=
  ⟨registry, registry.size, .empty, .empty, #[], #[], #[], #[], none⟩

/-- A factory of its own for a definition. -/
def makeFactory (s : Session) (d : Definition) : Factory × Session :=
  (⟨s.stamps, d⟩, { s with stamps := s.stamps + 1 })

/-- Registers a factory; the answer is the one it replaces. -/
def register (s : Session) (key : String) (f : Factory) : Option Factory × Session :=
  (s.registry.find? key, { s with registry := s.registry.register key f })

/-- Runs a construction step on the graph. -/
def construct {α : Type} (s : Session) (step : Build α) : Except ShaderError α × Session :=
  let (result, graph) := step.on s.graph
  (result, { s with graph })

/-- Takes a shader into use. -/
def adopt (s : Session) (shader : CompiledShader) : Material × Session :=
  let (m, cells) := Material.allocate shader s.cells
  (m, { s with cells, materials := s.materials.push m })

/-- Compiles what a root of the graph reaches. -/
def compile (s : Session) (config : CompilerConfig) (root : NodeId) :
    Except ShaderError Material × Session :=
  match s.graph.compile config root with
  | .error e => (.error e, s)
  | .ok shader =>
    let (m, s) := s.adopt shader
    (.ok m, s)

/-- Keeps a handle. -/
def keep (s : Session) (u : Uniform) : Session := { s with uniforms := s.uniforms.push u }

/-- Makes a uniform and keeps its handle. -/
def declare (s : Session) (d : UniformDeclaration) : Uniform × Session :=
  let (u, cells) := Uniform.allocate d s.cells
  (u, keep { s with cells } u)

def setUniform (s : Session) (u : Uniform) (value : Value) : Except ShaderError Session :=
  (u.set value s.cells).map fun cells => { s with cells }

def advanceUniform (s : Session) (u : Uniform) (delta : Single) : Session :=
  { s with cells := u.advance delta s.cells }

def updateMaterial (s : Session) (m : Material) (delta : Single) : Session :=
  { s with cells := m.update delta s.cells }

def surroundings (s : Session) : Surroundings := ⟨s.cells, s.generators⟩

def withSurroundings (s : Session) (w : Surroundings) : Session :=
  { s with cells := w.cells, generators := w.generators }

/-- Draws from a generator. -/
def draw (s : Session) (generator : Nat) (call : RandomCall) : Option Drawn × Session :=
  let (drawn, w) := s.surroundings.draw generator call
  (drawn, s.withSurroundings w)

/-- The particles due for each of several steps. -/
def dueAll (e : Emitter) : List Single → List Nat × Emitter
  | [] => ([], e)
  | dt :: rest =>
    let (count, e) := e.due dt
    let (counts, e) := dueAll e rest
    (count :: counts, e)

def setEmitter (s : Session) (k : Nat) (e : Emitter) : Session :=
  { s with emitters := s.emitters.setIfInBounds k e }

/-- Spawns a batch with the session's spawner. -/
def spawn {ε : Type} (s : Session) (p : Spawner) (count : Nat)
    (origin : Option (Transform Single)) (setup : Setup Surroundings ε) :
    Except ε SpawnReport × Spawner × Session :=
  let (report, p, w) := p.trySpawn count origin setup Surroundings.cells s.surroundings
  (report, p, { s.withSurroundings w with spawner := some p })

/-- Spawns what an emitter finds due. -/
def emit {ε : Type} (s : Session) (p : Spawner) (k : Nat) (e : Emitter) (dt : Single)
    (origin : Option (Transform Single)) (setup : Setup Surroundings ε) :
    Emitter × Except ε SpawnReport × Spawner × Session :=
  let (e, report, p, w) := e.emit dt p origin setup Surroundings.cells s.surroundings
  (e, report, p, { (s.withSurroundings w).setEmitter k e with spawner := some p })

end Session

end ParticleShading
