import ParticleShading.Config
import ParticleShading.Decimal.Layout

/-!
# Particle errors

What can be wrong with a spawner or an emitter, with the kind and the wording of
each.
-/

namespace ParticleShading

inductive ParticleError where
  | invalidCapacity (maxParticles safetySize meshCapacity : Nat)
  | invalidRate (rate : Single)
  | config (error : ConfigError)
  deriving DecidableEq

def ParticleError.message : ParticleError → String
  | .invalidCapacity maxParticles safetySize meshCapacity =>
    "invalid capacity: max_particles=" ++ toString maxParticles ++ ", safety_size=" ++
      toString safetySize ++ ", mesh capacity=" ++ toString meshCapacity
  | .invalidRate rate => "invalid emission rate: " ++ FloatLayout.plain.write rate
  | .config error => error.message

def ParticleError.kind : ParticleError → String
  | .invalidCapacity _ _ _ => "InvalidCapacity"
  | .invalidRate _ => "InvalidRate"
  | .config error => error.kind

end ParticleShading
