import ParticleShading.Particle.Spawner

/-!
# Emitters

A rate of particles per second made into whole particles per frame. The fraction
of a particle is carried over; an infinite rate emits all that the limit allows
at once.
-/

namespace ParticleShading

structure Emitter where
  rate : Single
  limit : Option Nat
  /-- The fraction carried over. -/
  accumulator : Single
  emitted : Nat
  deriving DecidableEq

namespace Emitter

/-- A rate is a number from zero on; an infinite one needs a limit. -/
def create (rate : Single) (limit : Option Nat) : Except ParticleError Emitter :=
  if rate.isNaN || rate < 0 || (rate.isInf && limit.isNone) then .error (.invalidRate rate)
  else .ok ⟨rate, limit, 0, 0⟩

/-- Emits `count` particles at once and then nothing. -/
def burst (count : Nat) : Emitter := ⟨1.0 / 0.0, some count, 0, 0⟩

/-- Whether the limit is reached. -/
def isFinished (e : Emitter) : Bool :=
  match e.limit with
  | some limit => limit ≤ e.emitted
  | none => false

/-- Starts over. -/
def reset (e : Emitter) : Emitter := { e with accumulator := 0, emitted := 0 }

/-- What the limit leaves. -/
def remaining (e : Emitter) : Nat :=
  match e.limit with
  | some limit => limit - e.emitted
  | none => maxSize

/-- Adds a step to the fraction and takes the whole particles off it. A step too
large for a float leaves no fraction. -/
def accumulate (e : Emitter) (dt : Single) : Nat × Single :=
  let total := e.accumulator + e.rate * (if dt < 0 then 0 else dt)
  let whole := total.floor
  let fraction := total - whole
  (whole.toSize, if fraction.isFinite then fraction else 0)

/-- The particles due after `dt` seconds, which count as emitted. A step that is
no finite number passes without effect. -/
def due (e : Emitter) (dt : Single) : Nat × Emitter :=
  if e.remaining = 0 then (0, e)
  else if e.rate.isInf then
    (e.remaining, { e with emitted := saturatingAdd e.emitted e.remaining })
  else if !dt.isFinite then (0, e)
  else
    let (whole, fraction) := e.accumulate dt
    let count := min whole e.remaining
    (count, { e with accumulator := fraction, emitted := saturatingAdd e.emitted count })

/-- Spawns the particles that are due. -/
def emit {σ ε : Type} (e : Emitter) (dt : Single) (s : Spawner)
    (origin : Option (Transform Single)) (setup : Setup σ ε) (cells : σ → Cells) (world : σ) :
    Emitter × Except ε SpawnReport × Spawner × σ :=
  let (count, e) := e.due dt
  (e, s.trySpawn count origin setup cells world)

end Emitter

end ParticleShading
