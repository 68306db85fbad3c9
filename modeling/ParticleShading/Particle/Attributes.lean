import ParticleShading.Particle.AttributeArray
import ParticleShading.Particle.Capacity
import ParticleShading.Particle.Record

/-!
# Attribute sets

The arrays of all attributes side by side, and how a record is laid out in them.
Whatever is done to a set is seen array by array through `get`.
-/

namespace ParticleShading

/-- The arrays of all attributes. -/
structure ParticleAttributes where
  maxParticles : Nat
  safetySize : Nat
  time : AttributeArray
  velocity : AttributeArray
  acceleration : AttributeArray
  color0 : AttributeArray
  color1 : AttributeArray
  scale0 : AttributeArray
  scale1 : AttributeArray

namespace ParticleAttributes

/-- Zero arrays for `maxParticles` slots and a margin of `safetySize`. -/
def zeros (maxParticles safetySize : Nat) : ParticleAttributes :=
  let array kind := AttributeArray.zeros kind (saturatingAdd maxParticles safetySize)
  { maxParticles, safetySize
    time := array .time
    velocity := array .velocity
    acceleration := array .acceleration
    color0 := array .color0
    color1 := array .color1
    scale0 := array .scale0
    scale1 := array .scale1 }

/-- The slots of every array. -/
def capacity (a : ParticleAttributes) : Nat := saturatingAdd a.maxParticles a.safetySize

def get (a : ParticleAttributes) : AttributeKind → AttributeArray
  | .time => a.time
  | .velocity => a.velocity
  | .acceleration => a.acceleration
  | .color0 => a.color0
  | .color1 => a.color1
  | .scale0 => a.scale0
  | .scale1 => a.scale1

/-- Changes one array. -/
def modify (a : ParticleAttributes) (kind : AttributeKind)
    (f : AttributeArray → AttributeArray) : ParticleAttributes :=
  match kind with
  | .time => { a with time := f a.time }
  | .velocity => { a with velocity := f a.velocity }
  | .acceleration => { a with acceleration := f a.acceleration }
  | .color0 => { a with color0 := f a.color0 }
  | .color1 => { a with color1 := f a.color1 }
  | .scale0 => { a with scale0 := f a.scale0 }
  | .scale1 => { a with scale1 := f a.scale1 }

/-- Changes every array. -/
def modifyAll (a : ParticleAttributes) (f : AttributeArray → AttributeArray) :
    ParticleAttributes :=
  AttributeKind.all.foldl (fun a kind => a.modify kind f) a

/-- The arrays in the order of the kinds. -/
def toList (a : ParticleAttributes) : List AttributeArray := AttributeKind.all.map a.get

/-- The item of one attribute that stands for a record spawned at `now`. -/
def encode (record : ParticleRecord) (now : Single) : AttributeKind → List Single
  | .time => [now + record.delay, now + record.lifetime]
  | .velocity => record.velocity.toList
  | .acceleration => record.acceleration.toList
  | .color0 => record.birthColor.toList
  | .color1 => record.deathColor.toList
  | .scale0 => record.scale.birth.toList
  | .scale1 => record.scale.death.toList

/-- Writes a record into one slot of every array. -/
def write (a : ParticleAttributes) (index : Nat) (record : ParticleRecord) (now : Single) :
    ParticleAttributes :=
  AttributeKind.all.foldl (fun a kind => a.modify kind (·.set index (encode record now kind))) a

def mark (a : ParticleAttributes) (offset count : Nat) : ParticleAttributes :=
  a.modifyAll (·.mark offset count)

def clear (a : ParticleAttributes) : ParticleAttributes := a.modifyAll (·.clear)

/-- Whether any array awaits upload. -/
def needsUpdate (a : ParticleAttributes) : Bool := a.toList.any (·.dirty.isDirty)

theorem get_modify (a : ParticleAttributes) (kind other : AttributeKind)
    (f : AttributeArray → AttributeArray) :
    (a.modify kind f).get other = if other = kind then f (a.get other) else a.get other := by
  cases kind <;> cases other <;> rfl

@[simp] theorem get_modifyAll (a : ParticleAttributes) (f : AttributeArray → AttributeArray)
    (kind : AttributeKind) : (a.modifyAll f).get kind = f (a.get kind) := by
  cases kind <;> rfl

@[simp] theorem get_write (a : ParticleAttributes) (index : Nat) (record : ParticleRecord)
    (now : Single) (kind : AttributeKind) :
    (a.write index record now).get kind = (a.get kind).set index (encode record now kind) := by
  cases kind <;> rfl

/-- The array of a kind is the one in its place. -/
theorem getElem?_toList (a : ParticleAttributes) (kind : AttributeKind) :
    a.toList[kind.position]? = some (a.get kind) := by
  rw [toList, List.getElem?_map, AttributeKind.getElem?_all, Option.map_some]

/-- Changing the array of a kind changes the one in its place. -/
theorem toList_modify (a : ParticleAttributes) (kind : AttributeKind)
    (f : AttributeArray → AttributeArray) :
    (a.modify kind f).toList = a.toList.modify kind.position f := by
  cases kind <;> rfl

theorem toList_modifyAll (a : ParticleAttributes) (f : AttributeArray → AttributeArray) :
    (a.modifyAll f).toList = a.toList.map f := rfl

theorem get_mark (a : ParticleAttributes) (offset count : Nat) (kind : AttributeKind) :
    (a.mark offset count).get kind = (a.get kind).mark offset count := get_modifyAll ..

theorem get_clear (a : ParticleAttributes) (kind : AttributeKind) :
    a.clear.get kind = (a.get kind).clear := get_modifyAll ..

theorem get_zeros (maxParticles safetySize : Nat) (kind : AttributeKind) :
    (zeros maxParticles safetySize).get kind =
      .zeros kind (saturatingAdd maxParticles safetySize) := by
  cases kind <;> rfl

theorem toList_zeros (maxParticles safetySize : Nat) :
    (zeros maxParticles safetySize).toList =
      AttributeKind.all.map (.zeros · (saturatingAdd maxParticles safetySize)) := rfl

/-- An item has as many floats as its kind asks for. -/
theorem length_encode (record : ParticleRecord) (now : Single) (kind : AttributeKind) :
    (encode record now kind).length = kind.itemSize := by
  cases kind <;> rfl

end ParticleAttributes

end ParticleShading
