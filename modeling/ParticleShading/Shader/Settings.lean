import ParticleShading.Shader.Compile
import ParticleShading.Toml.Decode

/-!
# Compiler settings

The compiler configuration as a document. Missing keys keep their defaults.
-/

namespace ParticleShading

def Stage.ofName? : String → Option Stage
  | "vertex" => some .vertex
  | "fragment" => some .fragment
  | _ => none

def Injection.decode? (v : Toml.Value) : Option Injection := do
  let [stage, template] ← v.fields? ["stage", "template"] | none
  return { stage := ← Toml.required (fun v => v.asName?.bind Stage.ofName?) stage
           template := ← Toml.required Toml.Value.asString? template }

def CompilerConfig.decode? (v : Toml.Value) : Option CompilerConfig := do
  let [injections, annotate] ← v.fields? ["injections", "annotate"] | none
  let standard := CompilerConfig.standard
  return { injections := ← Toml.orElse standard.injections
             (fun v => do (← v.asArray?).mapM Injection.decode?) injections
           annotate := ← Toml.orElse standard.annotate Toml.Value.asBool? annotate }

def CompilerConfig.load (source : ConfigSource) : Except ShaderError CompilerConfig :=
  (Toml.load CompilerConfig.decode? source).mapError .config

end ParticleShading
