import ParticleShading.Shader.Traversal
import ParticleShading.Text.Blank
import ParticleShading.Text.Template

/-!
# Programs and sources

A program is the list of nodes that a root reaches, in dependency order. The
position of a node names its globals: output `o` of the node at position `k` is
the global `nk_o`. A source is the shader of one stage as data: declarations,
headers, the statements of `main` and the injected lines; `Source.text` writes
it down.
-/

namespace ParticleShading

structure Program where
  nodes : List (NodeId × Node)

namespace Program

/-- The position of a node in dependency order. -/
def position? (p : Program) (id : NodeId) : Option Nat :=
  p.nodes.findIdx? (·.1 = id)

/-- The name of the node at a position. -/
def label (position : Nat) : String := "n" ++ toString position

/-- The name of a node; a node outside the program has none. -/
def labelOf (p : Program) (id : NodeId) : String :=
  match p.position? id with
  | some position => label position
  | none => ""

/-- The global that holds an output. -/
def globalName (label output : String) : String := label ++ "_" ++ output

/-- The varying that carries an output from the vertex stage to the fragments. -/
def varyingName (label output : String) : String := "v_" ++ globalName label output

/-- The nodes with their labels. -/
def labeled (p : Program) : List (String × Node) :=
  p.nodes.zipIdx.map fun ((_, node), position) => (label position, node)

/-- The global of an output of the root, which comes last. -/
def rootOutput (p : Program) (output : String) : Except GraphError String :=
  match p.nodes.getLast? with
  | none => .error (.missingOutput "" output)
  | some (id, node) =>
    match node.definition.findOutput? output with
    | none => .error (.missingOutput node.name output)
    | some _ => .ok (globalName (p.labelOf id) output)

/-- The uniforms that the nodes ask for, in program order. -/
def declarations (p : Program) : List UniformDeclaration :=
  p.nodes.flatMap fun (_, node) => node.definition.uniforms

end Program

/-- Puts a declaration into a list ordered by name. -/
def UniformDeclaration.insertByName (d : UniformDeclaration) :
    List UniformDeclaration → List UniformDeclaration
  | [] => [d]
  | e :: rest => if d.name < e.name then d :: e :: rest else e :: d.insertByName rest

/-- Merges declarations by name: the first of a name stays, and later ones have
to agree with it on the type. The answer is ordered by name. -/
def UniformDeclaration.merge (known : List UniformDeclaration) :
    List UniformDeclaration → Except GraphError (List UniformDeclaration)
  | [] => .ok known
  | d :: rest =>
    match known.find? (·.name = d.name) with
    | none => merge (d.insertByName known) rest
    | some first =>
      if first.type = d.type then merge known rest
      else .error (.conflictingUniform d.name first.type d.type)

/-- What the declaration of an input reads. -/
inductive Reading where
  | literal (value : Value)
  | expr (source : String)
  | global (name : String)
  deriving DecidableEq

def Reading.text : Reading → String
  | .literal value => value.toGlsl
  | .expr source => source
  | .global name => name

/-- The code of one node: its inputs are read, its outputs start from their
expressions, its body runs, and its outputs go to their globals. -/
structure Block where
  label : String
  definition : Definition
  readings : List Reading

/-- A statement of `main`. -/
inductive Statement where
  | comment (label name : String)
  | block (block : Block)
  | assign (target source : String)

/-- The declaration of a name at file scope. -/
structure Declared where
  type : ValueType
  name : String
  deriving DecidableEq

/-- The shader of one stage. -/
structure Source where
  stage : Stage
  uniforms : List Declared
  varyings : List Declared
  headers : List String
  globals : List Declared
  main : List Statement
  injections : List String

namespace Program

def reading (p : Program) : Binding → Reading
  | .literal value => .literal value
  | .expr source => .expr source
  | .output source => .global (globalName (p.labelOf source.node) source.output)

/-- The outputs of varying nodes, which cross from one stage to the other. -/
def varyings (p : Program) : List Declared :=
  p.labeled.flatMap fun (label, node) =>
    if node.definition.varying then
      node.definition.outputs.map fun output => ⟨output.type, varyingName label output.name⟩
    else []

/-- One global for every output of every node. -/
def globals (p : Program) : List Declared :=
  p.labeled.flatMap fun (label, node) =>
    node.definition.outputs.map fun output => ⟨output.type, globalName label output.name⟩

/-- The headers of a stage, each text once, in order of first occurrence. -/
def headers (p : Program) (stage : Stage) : List String :=
  let all := p.nodes.filterMap fun (_, node) => (node.definition.stage stage).header
  all.foldl (fun seen header => if seen.contains header then seen else seen ++ [header]) []

/-- The statements of one node. A varying node has its block in the vertex stage
only, where its outputs are handed to the varyings; the fragment stage reads
them back. -/
def statements (p : Program) (stage : Stage) (annotate : Bool) (label : String) (node : Node) :
    List Statement :=
  let comment := if annotate then [Statement.comment label node.name] else []
  let outputs := node.definition.outputs.map (·.name)
  let block := Statement.block ⟨label, node.definition, node.bindings.map p.reading⟩
  match node.definition.varying, stage with
  | true, .fragment =>
    comment ++ outputs.map fun o => .assign (globalName label o) (varyingName label o)
  | true, .vertex =>
    comment ++ block :: outputs.map fun o => .assign (varyingName label o) (globalName label o)
  | false, _ => comment ++ [block]

end Program

namespace Block

def inputLine (input : Input Definition) (reading : Reading) : String :=
  "    " ++ input.type.glslName ++ " in_" ++ input.name ++ " = " ++ reading.text ++ ";\n"

/-- Without an expression an output starts at the zero of its type. -/
def outputLine (output : Output) : String :=
  let init := output.expr.getD (Value.zero output.type).toGlsl
  "    " ++ output.type.glslName ++ " out_" ++ output.name ++ " = " ++ init ++ ";\n"

/-- The lines of a body, trimmed and indented. -/
def bodyLines (body : String) : List String :=
  (Text.lines body.toList).map fun line => "    " ++ String.ofList (Text.trim line) ++ "\n"

def resultLine (label : String) (output : Output) : String :=
  "    " ++ Program.globalName label output.name ++ " = out_" ++ output.name ++ ";\n"

def text (stage : Stage) (b : Block) : String :=
  "  \x7b\n" ++
    String.join (b.definition.inputs.zipWith inputLine b.readings) ++
    String.join (b.definition.outputs.map outputLine) ++
    String.join (((b.definition.stage stage).body.map bodyLines).getD []) ++
    String.join (b.definition.outputs.map (resultLine b.label)) ++
  "  \x7d\n"

end Block

def Statement.text (stage : Stage) : Statement → String
  | .comment label name => "  /*** " ++ label ++ ": " ++ name ++ " ***/\n"
  | .block b => b.text stage
  | .assign target source => "  " ++ target ++ " = " ++ source ++ ";\n"

def Declared.text (qualifier : String) (d : Declared) : String :=
  qualifier ++ d.type.glslName ++ " " ++ d.name ++ ";\n"

namespace Source

/-- A header without its blank end. -/
def headerText (header : String) : String :=
  String.ofList (Text.trimEnd header.toList) ++ "\n"

def text (s : Source) : String :=
  String.join (s.uniforms.map (Declared.text "uniform ")) ++
    String.join (s.varyings.map (Declared.text "varying ")) ++
    String.join (s.headers.map headerText) ++
    String.join (s.globals.map (Declared.text "")) ++
    "\nvoid main() \x7b\n" ++
    String.join (s.main.map (Statement.text s.stage)) ++
    String.join (s.injections.map fun line => "  " ++ line ++ "\n") ++
    "\x7d\n"

end Source

end ParticleShading
