import ParticleShading.Shader.Compile

/-!
# Meaning of graphs and of sources

An interpretation says what literals, expressions and the code of definitions
stand for. `Graph.Evaluates` evaluates a graph by recursion along its edges;
`Source.run` executes the statements of `main` one after another over a store of
globals and varyings. Reading a name that holds nothing stops the run. Neither
refers to the other.
-/

namespace ParticleShading

/-- The code of a definition is in each stage a function from the values of its inputs, in their
order, to the values of its outputs by name. -/
structure Interpretation (V : Type) where
  literal : Value → V
  expr : Stage → String → V
  outputs : Stage → Definition → List V → String → V

variable {V : Type}

/-- The value in a stage of what may feed an input. -/
inductive Graph.Evaluates (g : Graph) (I : Interpretation V) : Stage → Binding → V → Prop where
  | literal {stage : Stage} {value : Value} :
    Graph.Evaluates g I stage (.literal value) (I.literal value)
  | expr {stage : Stage} {text : String} :
    Graph.Evaluates g I stage (.expr text) (I.expr stage text)
  | computed {stage : Stage} {source : OutputRef} {node : Node} {output : Output}
      {arguments : List V} (held : g.get? source.node = some node)
      (declared : node.definition.findOutput? source.output = some output)
      (here : ¬ (node.definition.varying = true ∧ stage = .fragment))
      (length : node.inputs.length = arguments.length)
      (known : ∀ input binding argument,
        ((input, binding), argument) ∈ node.inputs.zip arguments →
          Graph.Evaluates g I stage binding argument) :
    Graph.Evaluates g I stage (.output source)
      (I.outputs stage node.definition arguments source.output)
  /-- What varies is evaluated per vertex for both stages. -/
  | varying {source : OutputRef} {node : Node} {output : Output} {value : V}
      (held : g.get? source.node = some node)
      (declared : node.definition.findOutput? source.output = some output)
      (varying : node.definition.varying = true)
      (perVertex : Graph.Evaluates g I .vertex (.output source) value) :
    Graph.Evaluates g I .fragment (.output source) value

/-- The recursion gives this value and no other. -/
def Graph.HasValue (g : Graph) (I : Interpretation V) (stage : Stage) (binding : Binding)
    (value : V) : Prop :=
  ∀ other, g.Evaluates I stage binding other ↔ other = value

/-- What the names at file scope hold while `main` runs; a name not assigned yet holds nothing. -/
abbrev Store (V : Type) := String → Option V

namespace Store

def empty : Store V := fun _ => none

def assign (store : Store V) (name : String) (value : V) : Store V :=
  fun other => if other = name then some value else store other

/-- Assigns the values of outputs to the names they have at file scope. -/
def assignAll (store : Store V) (target : String → String) (values : String → V)
    (outputs : List String) : Store V :=
  outputs.foldl (fun store output => store.assign (target output) (values output)) store

end Store

def Reading.value? (I : Interpretation V) (stage : Stage) (store : Store V) : Reading → Option V
  | .literal value => some (I.literal value)
  | .expr text => some (I.expr stage text)
  | .global name => store name

/-- Reads the inputs, applies the code of the definition, and assigns every output. -/
def Block.run (I : Interpretation V) (stage : Stage) (store : Store V) (b : Block) :
    Option (Store V) := do
  let arguments ← (b.definition.inputs.zip b.readings).mapM fun (_, reading) =>
    reading.value? I stage store
  return store.assignAll (Program.globalName b.label) (I.outputs stage b.definition arguments)
    (b.definition.outputs.map (·.name))

def Statement.run (I : Interpretation V) (stage : Stage) (store : Store V) :
    Statement → Option (Store V)
  | .comment _ _ => some store
  | .block b => b.run I stage store
  | .assign target source => (store source).map (store.assign target)

/-- Runs statements in order. -/
def Statement.runAll (I : Interpretation V) (stage : Stage) (statements : List Statement)
    (store : Store V) : Option (Store V) :=
  statements.foldlM (Statement.run I stage) store

namespace Source

/-- Runs `main`. -/
def run (I : Interpretation V) (s : Source) (store : Store V) : Option (Store V) :=
  Statement.runAll I s.stage s.main store

/-- The store that the next stage starts from: of all names only the varyings cross over. -/
def handOver (s : Source) (store : Store V) : Store V :=
  fun name => if name ∈ s.varyings.map (·.name) then store name else none

end Source

/-- Runs a stage. The fragment stage runs after the vertex stage and starts from its varyings. -/
def CompiledShader.run (I : Interpretation V) (shader : CompiledShader) : Stage → Option (Store V)
  | .vertex => shader.vertex.run I Store.empty
  | .fragment => do
    let store ← shader.vertex.run I Store.empty
    shader.fragment.run I (shader.vertex.handOver store)

end ParticleShading
