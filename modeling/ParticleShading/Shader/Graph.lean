import ParticleShading.Shader.Library

/-!
# Shader graphs

An arena of nodes whose edges are the output references in their bindings. A
construction step runs in `Build`: it either succeeds or fails, and in both
cases it leaves a graph behind. References to reserved nodes are accepted; they
are checked once the graph is compiled.
-/

namespace ParticleShading

structure Graph where
  nodes : Arena Node

namespace Graph

def empty : Graph := ⟨Arena.empty⟩

def size (g : Graph) : Nat := g.nodes.size

def get? (g : Graph) (id : NodeId) : Option Node := g.nodes.get? id

def contains (g : Graph) (id : NodeId) : Bool := g.nodes.contains id

/-- The number of ids without a node. -/
def pendingCount (g : Graph) : Nat := g.nodes.reservedCount

/-- The nodes in the order of their ids. -/
def toList (g : Graph) : List (NodeId × Node) := g.nodes.toList

/-- The type of an output; a reserved node has none yet. -/
def outputType (g : Graph) (source : OutputRef) : Except GraphError (Option ValueType) :=
  if g.contains source.node then
    match g.get? source.node with
    | none => .ok none
    | some node =>
      match node.definition.findOutput? source.output with
      | some output => .ok (some output.type)
      | none => .error (.missingOutput node.name source.output)
  else .error (.unknownNode source.node)

/-- Checks an output against the input it is to feed. -/
def checkOutput (g : Graph) (owner input : String) (expected : ValueType) (source : OutputRef) :
    Except ShaderError Unit :=
  match g.outputType source with
  | .error e => .error (.graph e)
  | .ok none => .ok ()
  | .ok (some found) =>
    if expected.accepts found then .ok () else .error (.typeMismatch owner input expected found)

end Graph

/-- Coerces a literal to the type of the input it is to feed. -/
def Value.coerceFor (v : Value) (owner input : String) (expected : ValueType) :
    Except ShaderError Value :=
  match v.coerce? expected with
  | some coerced => .ok coerced
  | none => .error (.typeMismatch owner input expected v.type)

/-- A construction step on a graph. -/
abbrev Build (α : Type) := ExceptT ShaderError (StateM Graph) α

namespace Build

/-- Runs a step; the graph comes back also from a step that fails. -/
def on {α : Type} (step : Build α) (g : Graph) : Except ShaderError α × Graph :=
  (ExceptT.run step).run g

/-- A check that reads the graph and leaves it alone. -/
def check {α : Type} (f : Graph → Except ShaderError α) : Build α := do
  let g ← get
  match f g with
  | .ok a => return a
  | .error e => throw e

/-- Appends a node. -/
def insert (node : Node) : Build NodeId :=
  modifyGet fun g =>
    let (id, nodes) := g.nodes.insert node
    (id, ⟨nodes⟩)

/-- Hands out an id whose node comes later. -/
def reserve : Build NodeId :=
  modifyGet fun g =>
    let (id, nodes) := g.nodes.reserve
    (id, ⟨nodes⟩)

/-- Fills a reserved id. -/
def define (id : NodeId) (node : Node) : Build NodeId := do
  let g ← get
  match g.nodes.define id node with
  | .ok nodes =>
    set (⟨nodes⟩ : Graph)
    return id
  | .error e => throw (.graph (.arena e))

end Build

namespace Definition

/-- The output that a fresh node of this definition feeds to `input`. -/
def checkMain (d : Definition) (owner input : String) (expected : ValueType) :
    Except ShaderError Unit :=
  match d.findOutput? defaultOutput with
  | none => .error (.graph (.missingOutput d.name defaultOutput))
  | some output =>
    if expected.accepts output.type then .ok ()
    else .error (.typeMismatch owner input expected output.type)

mutual

/-- Whether inputs can be filled by their fallbacks, all the way down. -/
def checkOpen (owner : String) : List (Input Definition) → Except ShaderError Unit
  | [] => .ok ()
  | ⟨name, type, fallback⟩ :: rest => do
    match fallback with
    | none => .error (.unboundInput owner name)
    | some (.literal value) => discard (value.coerceFor owner name type)
    | some (.expr _) => .ok ()
    | some (.node d) =>
      d.checkMain owner name type
      checkInputs d
    checkOpen owner rest

/-- Whether a node with all inputs open can be made. -/
def checkInputs : Definition → Except ShaderError Unit
  | ⟨name, inputs, _, _, _, _, _⟩ => checkOpen name inputs

end

mutual

/-- Fills the open inputs of a node with their fallbacks. A fallback node is
inserted on the spot, so every open input gets a node of its own. -/
def fillOpen (owner : String) :
    List (Input Definition) → List (Option Binding) → Build (List Binding)
  | [], _ => return []
  | ⟨name, type, fallback⟩ :: rest, given => do
    let binding ← match given.head?.join, fallback with
      | some binding, _ => pure binding
      | none, none => throw (.unboundInput owner name)
      | none, some (.literal value) =>
        Build.check fun _ => (value.coerceFor owner name type).map .literal
      | none, some (.expr source) => pure (.expr source)
      | none, some (.node d) => do
        let id ← insertOpen d
        let source : OutputRef := ⟨id, defaultOutput⟩
        Build.check fun g => g.checkOutput owner name type source
        pure (.output source)
    let bindings ← fillOpen owner rest given.tail
    return binding :: bindings

/-- Inserts a node with all inputs open. -/
def insertOpen : Definition → Build NodeId
  | ⟨name, inputs, outputs, vertex, fragment, uniforms, varying⟩ => do
    Build.check fun _ => checkOpen name inputs
    let bindings ← fillOpen name inputs []
    Build.insert ⟨⟨name, inputs, outputs, vertex, fragment, uniforms, varying⟩, bindings⟩

end

end Definition

/-- A node under construction: a definition and what is bound so far. -/
structure Draft where
  definition : Definition
  bindings : List (Option Binding)

namespace Draft

def start (d : Definition) : Draft := ⟨d, d.inputs.map fun _ => none⟩

/-- Binds an input; a later binding replaces an earlier one. -/
def bind (draft : Draft) (g : Graph) (input : String) (binding : Binding) :
    Except ShaderError Draft := do
  let owner := draft.definition.name
  match draft.definition.inputs.findIdx? (·.name = input), draft.definition.findInput? input with
  | some index, some slot =>
    let checked ← match binding with
      | .literal value => (value.coerceFor owner input slot.type).map .literal
      | .output source =>
        (g.checkOutput owner input slot.type source).map fun _ => .output source
      | .expr source => .ok (.expr source)
    return { draft with bindings := draft.bindings.set index (some checked) }
  | _, _ => .error (.unknownInput owner input)

/-- Binds inputs one after another. -/
def bindAll (draft : Draft) (g : Graph) : List (String × Binding) → Except ShaderError Draft
  | [] => .ok draft
  | (input, binding) :: rest => do (← draft.bind g input binding).bindAll g rest

/-- The inputs that nothing is bound to. -/
def openInputs (draft : Draft) : List (Input Definition) :=
  ((draft.definition.inputs.zip draft.bindings).filter (·.2.isNone)).map (·.1)

/-- The finished node. All open inputs are checked before any fallback node is
inserted. -/
def resolve (draft : Draft) : Build Node := do
  let d := draft.definition
  Build.check fun _ => Definition.checkOpen d.name draft.openInputs
  let bindings ← Definition.fillOpen d.name d.inputs draft.bindings
  return ⟨d, bindings⟩

/-- Appends the node to the graph. -/
def insert (draft : Draft) : Build NodeId := do
  let node ← draft.resolve
  Build.insert node

/-- Fills a reserved id with the node. -/
def define (draft : Draft) (id : NodeId) : Build NodeId := do
  Build.check fun g =>
    if !g.contains id then .error (.graph (.arena (.unknownHandle id.toNat)))
    else if g.nodes.isDefined id then .error (.graph (.arena (.alreadyDefined id.toNat)))
    else .ok ()
  let node ← draft.resolve
  Build.define id node

end Draft

namespace Build

/-- Starts a node and binds inputs in the given order. -/
def draft (d : Definition) (bindings : List (String × Binding)) : Build Draft :=
  check fun g => (Draft.start d).bindAll g bindings

/-- Inserts a node with the given bindings. -/
def node (d : Definition) (bindings : List (String × Binding)) : Build NodeId := do
  let draft ← draft d bindings
  draft.insert

end Build

/-- A definition for a stack, with inputs bound besides the chained one. -/
structure Filter where
  definition : Definition
  bindings : List (String × Binding)

namespace Build

/-- Chains filters behind a node. -/
def chain (type : ValueType) (previous : NodeId) : List Filter → Build NodeId
  | [] => return previous
  | filter :: rest => do
    check fun _ => filter.definition.checkMain filter.definition.name defaultOutput type
    let id ← node filter.definition (("a", .node previous) :: filter.bindings)
    chain type id rest

/-- A node that hands `base` on, and the filters after it, each fed by the one
before. The answer is the last node. -/
def stack (type : ValueType) (name : String) (base : Binding) (filters : List Filter) :
    Build NodeId := do
  let head ← node (Library.passThrough name type) [("a", base)]
  chain type head filters

end Build

end ParticleShading
