import ParticleShading.Particle.Attributes
import ParticleShading.Particle.Config
import ParticleShading.Particle.InstanceBuffer

/-!
# Spawners

Particles are written at a playhead that goes round a ring of `maxParticles`
slots. A batch that starts in the ring may run on into a safety margin, so it is
one run of slots; the playhead goes back to the first slot once a batch has left
the ring. What does not fit into the margin is discarded.
-/

namespace ParticleShading

structure SpawnReport where
  /-- The slot of the first particle. -/
  start : Nat
  written : Nat
  discarded : Nat
  /-- The playhead went back to the first slot. -/
  wrapped : Bool
  deriving DecidableEq

/-- Totals over all batches, counted in machine words. -/
structure SpawnerStats where
  batches : UInt64
  spawned : UInt64
  discarded : UInt64
  wraps : UInt64
  deriving DecidableEq

namespace SpawnerStats

def zero : SpawnerStats := ⟨0, 0, 0, 0⟩

/-- Counts one more batch. -/
def add (s : SpawnerStats) (written discarded : Nat) (wrapped : Bool) : SpawnerStats :=
  ⟨s.batches + 1, s.spawned + UInt64.ofNat written, s.discarded + UInt64.ofNat discarded,
    s.wraps + (if wrapped then 1 else 0)⟩

def inspect (s : SpawnerStats) : String :=
  "SpawnerStats \x7b batches: " ++ toString s.batches ++ ", spawned: " ++ toString s.spawned ++
    ", discarded: " ++ toString s.discarded ++ ", wraps: " ++ toString s.wraps ++ " \x7d"

end SpawnerStats

/-- Fills in the record of the particle at a batch index, or refuses it. It may
read and change its surroundings. -/
abbrev Setup (σ ε : Type) := Nat → ParticleRecord → σ → Except ε ParticleRecord × σ

/-- The buffers that a batch writes into. -/
structure Slots where
  mesh : InstanceBuffer
  attributes : ParticleAttributes

namespace Slots

variable {σ ε : Type}

/-- Writes one particle. -/
def write (s : Slots) (index : Nat) (record : ParticleRecord) (now : Single) : Slots :=
  { mesh := s.mesh.setMatrix index record.instanceMatrix
    attributes := s.attributes.write index record now }

/-- Marks a run of slots in every buffer. -/
def mark (s : Slots) (offset count : Nat) : Slots :=
  ⟨s.mesh.mark offset count, s.attributes.mark offset count⟩

/-- What filling a run of slots leaves behind. -/
structure Filled (σ ε : Type) where
  slots : Slots
  world : σ
  /-- The particles written. -/
  written : Nat
  /-- Why the setup refused the next one. -/
  refusal : Option ε

/-- What the loop of a batch leaves behind. -/
structure Batch (σ ε : Type) extends Filled σ ε where
  /-- There was no slot for the next particle. -/
  overflow : Bool

/-- Writes `n` more particles of a batch that began at `start`, the particle at batch index `index`
first, as long as there are slots below `limit`. The time is read after each setup. -/
def writeBatch (setup : Setup σ ε) (cells : σ → Cells) (origin : Option (Transform Single))
    (start limit : Nat) : Nat → Nat → Slots → σ → Batch σ ε
  | 0, index, slots, world => ⟨⟨slots, world, index, none⟩, false⟩
  | n + 1, index, slots, world =>
    if limit ≤ start + index then ⟨⟨slots, world, index, none⟩, true⟩
    else
      match setup index (.initial origin) world with
      | (.error e, world) => ⟨⟨slots, world, index, some e⟩, false⟩
      | (.ok record, world) =>
        let now := slots.mesh.currentTime (cells world)
        writeBatch setup cells origin start limit n (index + 1)
          (slots.write (start + index) record now) world

/-- Fills up to `n` slots from `start + index` on, the particle at batch index
`index` first: the loop of a batch that has a slot for every particle. -/
def fill (setup : Setup σ ε) (cells : σ → Cells) (origin : Option (Transform Single))
    (start : Nat) : Nat → Nat → Slots → σ → Filled σ ε
  | 0, index, slots, world => ⟨slots, world, index, none⟩
  | n + 1, index, slots, world =>
    match setup index (.initial origin) world with
    | (.error e, world) => ⟨slots, world, index, some e⟩
    | (.ok record, world) =>
      let now := slots.mesh.currentTime (cells world)
      fill setup cells origin start n (index + 1) (slots.write (start + index) record now) world

/-- The particles written by the end are those before the start and at most `n` more; without a
refusal they are exactly `n` more. -/
theorem written_fill (setup : Setup σ ε) (cells : σ → Cells) (origin : Option (Transform Single))
    (start n index : Nat) (slots : Slots) (world : σ) :
    let filled := fill setup cells origin start n index slots world
    index ≤ filled.written ∧ filled.written ≤ index + n ∧
      (filled.refusal = none → filled.written = index + n) := by
  induction n generalizing index slots world with
  | zero => simp [fill]
  | succ n ih =>
    unfold fill
    split
    · simp
    · rename_i record world' _
      have := ih (index + 1) (slots.write (start + index) record
        (slots.mesh.currentTime (cells world'))) world'
      dsimp only at this ⊢
      refine ⟨by omega, by omega, fun h => ?_⟩
      have := this.2.2 h
      omega

/-- A batch that looks for a slot at each particle fills as many as there are, and overflows if
these are too few and none of their particles is refused. -/
theorem writeBatch_eq (setup : Setup σ ε) (cells : σ → Cells) (origin : Option (Transform Single))
    (start limit n index : Nat) (slots : Slots) (world : σ) :
    let filled := fill setup cells origin start (min n (limit - (start + index))) index slots world
    writeBatch setup cells origin start limit n index slots world =
      ⟨filled, filled.refusal.isNone && decide (filled.written < index + n)⟩ := by
  induction n generalizing index slots world with
  | zero => simp [writeBatch, fill]
  | succ n ih =>
    rw [writeBatch]
    by_cases full : limit ≤ start + index
    · rw [if_pos full, Nat.sub_eq_zero_of_le full]
      simp [fill]
    · have steps : min (n + 1) (limit - (start + index)) =
          min n (limit - (start + (index + 1))) + 1 := by omega
      rw [if_neg full, steps, fill]
      rcases setup index (.initial origin) world with ⟨e | record, world'⟩
      · rfl
      · have sum : index + (n + 1) = index + 1 + n := by omega
        rw [sum]
        exact ih ..

end Slots

structure Spawner where
  mesh : InstanceBuffer
  maxParticles : Nat
  safetySize : Nat
  /-- Allocated by the first batch. -/
  attributes : Option ParticleAttributes
  /-- The slot of the next particle. -/
  playhead : Nat
  stats : SpawnerStats

namespace Spawner

/-- A spawner over a mesh, which has to hold all slots. A machine word has to count them. -/
def create (mesh : InstanceBuffer) (maxParticles safetySize : Nat) :
    Except ParticleError Spawner :=
  if 0 < maxParticles ∧ maxParticles + safetySize ≤ maxSize ∧
      maxParticles + safetySize ≤ mesh.capacity then
    .ok ⟨mesh, maxParticles, safetySize, none, 0, .zero⟩
  else .error (.invalidCapacity maxParticles safetySize mesh.capacity)

/-- A spawner of a valid configuration. -/
def ofConfig (mesh : InstanceBuffer) (config : SpawnerConfig) : Except ParticleError Spawner :=
  match config.validate with
  | .error e => .error (.config e)
  | .ok () => create mesh config.maxParticles config.safetySize

/-- The slots of the ring and its margin. -/
def slotCount (s : Spawner) : Nat := s.maxParticles + s.safetySize

/-- The attribute arrays, allocated if they are not yet. -/
def arrays (s : Spawner) : ParticleAttributes :=
  s.attributes.getD (.zeros s.maxParticles s.safetySize)

/-- Ends a batch: marks what it wrote, draws it, and moves the playhead. -/
def commit (s : Spawner) (slots : Slots) (written discarded : Nat) : Spawner × SpawnReport :=
  let start := s.playhead
  let stop := start + written
  let slots := slots.mark start written
  let mesh := if slots.mesh.count < stop then slots.mesh.setCount stop else slots.mesh
  let wrapped := decide (s.maxParticles ≤ stop)
  ({ s with
      mesh
      attributes := some slots.attributes
      playhead := if wrapped then 0 else stop
      stats := s.stats.add written discarded wrapped },
   ⟨start, written, discarded, wrapped⟩)

/-- Spawns `count` particles. A refusal by the setup ends the batch with the
particles before it; the report is then its error. -/
def trySpawn {σ ε : Type} (s : Spawner) (count : Nat) (origin : Option (Transform Single))
    (setup : Setup σ ε) (cells : σ → Cells) (world : σ) :
    Except ε SpawnReport × Spawner × σ :=
  let batch :=
    Slots.writeBatch setup cells origin s.playhead s.slotCount count 0 ⟨s.mesh, s.arrays⟩ world
  let discarded := if batch.overflow then count - batch.written else 0
  let (spawner, report) := s.commit batch.slots batch.written discarded
  match batch.refusal with
  | some e => (.error e, spawner, batch.world)
  | none => (.ok report, spawner, batch.world)

/-- Acknowledges an upload of all buffers. -/
def clearDirty (s : Spawner) : Spawner :=
  { s with attributes := s.attributes.map (·.clear), mesh := s.mesh.clear }

def inspect (s : Spawner) (cells : Cells) : String :=
  "Spawner \x7b mesh: " ++ s.mesh.inspect cells ++ ", max_particles: " ++
    toString s.maxParticles ++ ", safety_size: " ++ toString s.safetySize ++ ", playhead: " ++
    toString s.playhead ++ ", initialized: " ++ toString s.attributes.isSome ++ ", stats: " ++
    s.stats.inspect ++ " \x7d"

end Spawner

end ParticleShading
