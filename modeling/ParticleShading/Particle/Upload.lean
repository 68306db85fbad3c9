import ParticleShading.Particle.Spawner

/-!
# Upload

The bytes that a renderer copies: every float as four bytes, the low one first.
-/

namespace ParticleShading

namespace Upload

def wordBytes (word : UInt32) : List UInt8 :=
  [word.toUInt8, (word >>> 8).toUInt8, (word >>> 16).toUInt8, (word >>> 24).toUInt8]

def bytes (floats : List Single) : List UInt8 := floats.flatMap fun x => wordBytes x.bits

end Upload

def AttributeArray.bytes (a : AttributeArray) : List UInt8 := Upload.bytes a.data.toList

def InstanceBuffer.bytes (b : InstanceBuffer) : List UInt8 := Upload.bytes b.floats

end ParticleShading
