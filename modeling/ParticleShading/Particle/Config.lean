import ParticleShading.Particle.Capacity
import ParticleShading.Particle.Error
import ParticleShading.Toml.Decode

/-!
# Spawner configuration

How many particles live at once, and the margin that a batch may run into.
-/

namespace ParticleShading

structure SpawnerConfig where
  maxParticles : Nat
  safetySize : Nat
  deriving DecidableEq

namespace SpawnerConfig

def standard : SpawnerConfig := ⟨1000, 100⟩

/-- The slots of every attribute array, held at the largest size. -/
def maxInstanceCount (c : SpawnerConfig) : Nat := saturatingAdd c.maxParticles c.safetySize

/-- There has to be room for a particle, and the slots have to be countable. -/
def validate (c : SpawnerConfig) : Except ConfigError Unit :=
  if c.maxParticles = 0 then .error (.invalid "max_particles must be at least 1")
  else if maxSize < c.maxParticles + c.safetySize then
    .error (.invalid ("max_particles + safety_size overflows (" ++ toString c.maxParticles ++
      " + " ++ toString c.safetySize ++ ")"))
  else .ok ()

def decode? (v : Toml.Value) : Option SpawnerConfig := do
  let [maxParticles, safetySize] ← v.fields? ["max_particles", "safety_size"] | none
  return { maxParticles := ← Toml.orElse standard.maxParticles Toml.Value.asSize? maxParticles
           safetySize := ← Toml.orElse standard.safetySize Toml.Value.asSize? safetySize }

/-- Reads a configuration and validates it. -/
def load (source : ConfigSource) : Except ParticleError SpawnerConfig :=
  Except.mapError .config do
    let config ← Toml.load decode? source
    config.validate
    return config

end SpawnerConfig

end ParticleShading
