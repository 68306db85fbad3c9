import ParticleShading.Shader.Registry
import ParticleShading.Shader.Settings

/-!
# Graph descriptions

A graph as a document: nodes under keys, their definitions named by the keys of
a registry, their inputs bound to literals or to other keys. All keys get ids
before any node is made, so a binding may name a key that comes later.
-/

namespace ParticleShading

/-- What a description binds to an input. -/
inductive BindingDescription where
  | node (key output : String)
  | float (value : Single)
  | vec2 (value : Vec2 Single)
  | vec3 (value : Vec3 Single)
  | vec4 (value : Vec4 Single)
  | color (hex : String)
  | expr (source : String)
  deriving DecidableEq

structure NodeDescription where
  key : String
  factory : String
  /-- In the order of the names of the inputs. -/
  inputs : List (String × BindingDescription)

structure GraphDescription where
  root : String
  nodes : List NodeDescription

namespace BindingDescription

/-- Reads the fields of a binding by its tag. -/
def decodeFields? (tag : String) (fields : List String → Option (List (Option Toml.Value))) :
    Option BindingDescription := do
  if tag = "node" then
    let [key, output] ← fields ["node", "output"] | none
    return .node (← Toml.required Toml.Value.asString? key)
      (← Toml.orElse defaultOutput Toml.Value.asString? output)
  else
    let [value] ← fields ["value"] | none
    match tag with
    | "float" => return .float (← Toml.required Toml.Value.asFloat? value)
    | "vec2" =>
      let [x, y] ← Toml.required (Toml.Value.asFloats? 2) value | none
      return .vec2 ⟨x, y⟩
    | "vec3" =>
      let [x, y, z] ← Toml.required (Toml.Value.asFloats? 3) value | none
      return .vec3 ⟨x, y, z⟩
    | "vec4" =>
      let [x, y, z, w] ← Toml.required (Toml.Value.asFloats? 4) value | none
      return .vec4 ⟨x, y, z, w⟩
    | "color" => return .color (← Toml.required Toml.Value.asString? value)
    | "expr" => return .expr (← Toml.required Toml.Value.asString? value)
    | _ => none

/-- A table with its tag under `type`, or an array with the tag first. The array
has no more items than the binding has fields. -/
def decode? : Toml.Value → Option BindingDescription
  | .table entries => do
    let tag ← Toml.required Toml.Value.asString? (entries.lookup "type")
    decodeFields? tag (Toml.Value.table entries).fields?
  | .array (tag :: rest) => do
    decodeFields? (← tag.asString?) fun names =>
      if rest.length ≤ names.length then (Toml.Value.array rest).fields? names else none
  | _ => none

end BindingDescription

namespace NodeDescription

/-- The entries of a table in the order of their keys. -/
def decodeInputs? : Toml.Value → Option (List (String × BindingDescription))
  | .table entries =>
    (entries.mergeSort fun a b => a.1 ≤ b.1).mapM fun (name, v) => do
      return (name, ← BindingDescription.decode? v)
  | _ => none

def decode? (v : Toml.Value) : Option NodeDescription := do
  let [key, factory, inputs] ← v.fields? ["key", "factory", "inputs"] | none
  return { key := ← Toml.required Toml.Value.asString? key
           factory := ← Toml.required Toml.Value.asString? factory
           inputs := ← Toml.orElse [] decodeInputs? inputs }

end NodeDescription

/-- The ids of the keys of a description, in the order of their nodes. -/
abbrev KeyTable := List (String × NodeId)

/-- A description made into a graph. -/
structure BuiltGraph where
  root : NodeId
  ids : KeyTable

namespace BindingDescription

/-- The binding behind a description, keys replaced by ids. -/
def resolve (ids : KeyTable) : BindingDescription → Except ShaderError Binding
  | .node key output =>
    match ids.lookup key with
    | some id => .ok (.output ⟨id, output⟩)
    | none => .error (.graph (.unknownKey key))
  | .float value => .ok (.literal (.float value))
  | .vec2 value => .ok (.literal (.vec2 value))
  | .vec3 value => .ok (.literal (.vec3 value))
  | .vec4 value => .ok (.literal (.vec4 value))
  | .color hex =>
    match Color.ofHex? hex with
    | some c => .ok (.literal (.color c))
    | none => .error (.config (.invalid ("not a hex color: " ++ hex)))
  | .expr source => .ok (.expr source)

end BindingDescription

namespace GraphDescription

def decode? (v : Toml.Value) : Option GraphDescription := do
  let [root, nodes] ← v.fields? ["root", "nodes"] | none
  return { root := ← Toml.required Toml.Value.asString? root
           nodes := ← Toml.orElse []
             (fun v => do (← v.asArray?).mapM NodeDescription.decode?) nodes }

def load (source : ConfigSource) : Except ShaderError GraphDescription :=
  (Toml.load decode? source).mapError .config

/-- Gives every key an id. -/
def reserveKeys (ids : KeyTable) : List NodeDescription → Build KeyTable
  | [] => return ids
  | node :: rest => do
    let id ← Build.reserve
    if (ids.lookup node.key).isSome then throw (.graph (.duplicateKey node.key))
    else reserveKeys (ids ++ [(node.key, id)]) rest

/-- Binds inputs one after another, each resolved just before it is bound. -/
def bindInputs (ids : KeyTable) (g : Graph) (draft : Draft) :
    List (String × BindingDescription) → Except ShaderError Draft
  | [] => .ok draft
  | (input, description) :: rest => do
    let binding ← description.resolve ids
    bindInputs ids g (← draft.bind g input binding) rest

/-- Makes the node of one key. -/
def defineNode (registry : Registry) (ids : KeyTable) (node : NodeDescription) : Build Unit := do
  match registry.find? node.factory, ids.lookup node.key with
  | some factory, some id =>
    let draft ← Build.check fun g => bindInputs ids g (Draft.start factory.definition) node.inputs
    discard (draft.define id)
  | none, _ => throw (.unknownFactory node.factory)
  | _, none => throw (.graph (.unknownKey node.key))

def defineNodes (registry : Registry) (ids : KeyTable) : List NodeDescription → Build Unit
  | [] => return ()
  | node :: rest => do
    defineNode registry ids node
    defineNodes registry ids rest

/-- Makes all nodes and finds the root. -/
def build (registry : Registry) (d : GraphDescription) : Build BuiltGraph := do
  let ids ← reserveKeys [] d.nodes
  defineNodes registry ids d.nodes
  match ids.lookup d.root with
  | some root => return ⟨root, ids⟩
  | none => throw (.graph (.unknownKey d.root))

end GraphDescription

end ParticleShading
