import ParticleShading.Arena
import ParticleShading.Config
import ParticleShading.Shader.Value

/-!
# Shader errors

What can be wrong with a binding, with the shape of a graph or with its
description, with the kind and the wording of each.
-/

namespace ParticleShading

/-- Faults in the shape of a graph. -/
inductive GraphError where
  /-- The nodes along a cycle, the first one repeated at the end. -/
  | cycle (path : List String)
  | missingOutput (node output : String)
  | undefinedNode (id : Handle)
  | unknownNode (id : Handle)
  | conflictingUniform (name : String) (first second : ValueType)
  | unknownKey (key : String)
  | duplicateKey (key : String)
  | arena (error : ArenaError)
  deriving DecidableEq

def GraphError.message : GraphError → String
  | .cycle path => "cycle detected: " ++ " -> ".intercalate path
  | .missingOutput node output => "node " ++ node ++ " has no output named " ++ output
  | .undefinedNode id => "node " ++ id.text ++ " was reserved but never defined"
  | .unknownNode id => "node " ++ id.text ++ " does not exist in this graph"
  | .conflictingUniform name first second =>
    "uniform " ++ name ++ " declared as " ++ first.name ++ " and as " ++ second.name
  | .unknownKey key => "unknown node key: " ++ key
  | .duplicateKey key => "duplicate node key: " ++ key
  | .arena error => error.message

def GraphError.kind : GraphError → String
  | .cycle _ => "Graph.Cycle"
  | .missingOutput _ _ => "Graph.MissingOutput"
  | .undefinedNode _ => "Graph.UndefinedNode"
  | .unknownNode _ => "Graph.UnknownNode"
  | .conflictingUniform _ _ _ => "Graph.ConflictingUniform"
  | .unknownKey _ => "Graph.UnknownKey"
  | .duplicateKey _ => "Graph.DuplicateKey"
  | .arena error => "Graph.Arena." ++ error.kind

inductive ShaderError where
  | typeMismatch (node input : String) (expected found : ValueType)
  | unknownInput (node input : String)
  | unboundInput (node input : String)
  | unknownFactory (key : String)
  | config (error : ConfigError)
  | graph (error : GraphError)
  deriving DecidableEq

def ShaderError.message : ShaderError → String
  | .typeMismatch node input expected found =>
    "type mismatch on " ++ node ++ "." ++ input ++ ": expected " ++ expected.name ++
      ", found " ++ found.name
  | .unknownInput node input => "node " ++ node ++ " has no input named " ++ input
  | .unboundInput node input => "required input " ++ node ++ "." ++ input ++ " is not bound"
  | .unknownFactory key => "unknown node factory: " ++ key
  | .config error => error.message
  | .graph error => "graph error: " ++ error.message

def ShaderError.kind : ShaderError → String
  | .typeMismatch _ _ _ _ => "TypeMismatch"
  | .unknownInput _ _ => "UnknownInput"
  | .unboundInput _ _ => "UnboundInput"
  | .unknownFactory _ => "UnknownFactory"
  | .config error => error.kind
  | .graph error => error.kind

end ParticleShading
