import ParticleShading.Proofs.Particle.Placement

/-!
# Histories

A history is a spawner with its surroundings and the log of all particles it has
written, the oldest first. `Spawner.trySpawn_spawned` says what one spawn does
to the buffers and to the playhead, whether the setup refuses a particle or not.
-/

namespace ParticleShading

variable {σ ε : Type}

namespace Spawner

def slots (s : Spawner) : Slots := ⟨s.mesh, s.arrays⟩

/-- What is accepted, and the spawner that has written nothing yet. -/
theorem create_eq_ok {mesh : InstanceBuffer} {maxParticles safetySize : Nat} {s : Spawner}
    (created : create mesh maxParticles safetySize = .ok s) :
    0 < maxParticles ∧ maxParticles + safetySize ≤ mesh.capacity ∧
      s = ⟨mesh, maxParticles, safetySize, none, 0, .zero⟩ ∧
      ∀ kind, s.arrays.get kind = .zeros kind (maxParticles + safetySize) := by
  unfold create at created
  split at created
  · rename_i fits
    obtain ⟨positive, counted, fits⟩ := fits
    cases created
    refine ⟨positive, fits, rfl, ?_⟩
    intro kind
    exact (ParticleAttributes.get_zeros ..).trans (congrArg _ (saturatingAdd_eq counted))
  · cases created

theorem sized_of_create {mesh : InstanceBuffer} {maxParticles safetySize : Nat} {s : Spawner}
    (created : create mesh maxParticles safetySize = .ok s) :
    s.slots.Sized (maxParticles + safetySize) := by
  obtain ⟨_, fits, rfl, arrays⟩ := create_eq_ok created
  refine ⟨fits, ?_, ?_⟩
  · intro kind
    exact congrArg AttributeArray.kind (arrays kind)
  · intro kind
    exact (congrArg AttributeArray.capacity (arrays kind)).trans
      (AttributeArray.capacity_zeros kind _)

section Spawn

variable (s : Spawner) (count : Nat) (origin : Option (Transform Single)) (setup : Setup σ ε)
variable (cells : σ → Cells) (world : σ)

/-- What a spawn fills. -/
def filled : Slots.Filled σ ε :=
  Slots.fill setup cells origin s.playhead (min count (s.slotCount - s.playhead)) 0 s.slots world

/-- The particles that a spawn writes. -/
def placements : List Placement :=
  Slots.placements setup cells origin s.playhead (min count (s.slotCount - s.playhead)) 0 s.slots
    world

theorem filled_eq_place :
    (s.filled count origin setup cells world).slots =
        (s.placements count origin setup cells world).foldl Slots.place s.slots ∧
      (s.filled count origin setup cells world).written =
        (s.placements count origin setup cells world).length ∧
      (s.placements count origin setup cells world).map (·.slot) =
        List.range' s.playhead (s.placements count origin setup cells world).length := by
  obtain ⟨same, written, consecutive⟩ := Slots.fill_eq_place setup cells origin s.playhead
    (min count (s.slotCount - s.playhead)) 0 s.slots world
  exact ⟨same, written.trans (Nat.zero_add _), consecutive⟩

theorem length_placements_le :
    (s.placements count origin setup cells world).length ≤ min count (s.slotCount - s.playhead) :=
  Slots.length_placements_le ..

end Spawn

section Outcome

variable {s : Spawner} {count : Nat} {origin : Option (Transform Single)} {setup : Setup σ ε}
variable {cells : σ → Cells} {world : σ}

variable (s count origin setup cells world) in
/-- A spawn commits what it has filled. What it has not filled it discards, unless it was refused
a particle. -/
theorem trySpawn_eq :
    let filled := s.filled count origin setup cells world
    let discarded := if filled.refusal.isSome then 0 else count - filled.written
    let committed := s.commit filled.slots filled.written discarded
    s.trySpawn count origin setup cells world =
      match filled.refusal with
      | some e => (.error e, committed.1, filled.world)
      | none => (.ok committed.2, committed.1, filled.world) := by
  intro filled discarded committed
  have batch : Slots.writeBatch setup cells origin s.playhead s.slotCount count 0
      ⟨s.mesh, s.arrays⟩ world =
        ⟨filled, filled.refusal.isNone && decide (filled.written < count)⟩ := by
    have eq := Slots.writeBatch_eq setup cells origin s.playhead s.slotCount count 0 s.slots world
    rwa [Nat.add_zero, Nat.zero_add] at eq
  have overflowed : (if filled.refusal.isNone && decide (filled.written < count) then
      count - filled.written else 0) = discarded := by
    cases refusal : filled.refusal with
    | some e => simp [discarded, refusal]
    | none =>
      by_cases short : filled.written < count
      · simp [discarded, refusal, short]
      · simp [discarded, refusal, short, Nat.sub_eq_zero_of_le (Nat.le_of_not_lt short)]
  simp only [trySpawn, batch, overflowed]
  rfl

/-- A spawn that the setup refuses nothing discards what it has not filled. -/
theorem trySpawn_of_accepted
    (accepted : (s.filled count origin setup cells world).refusal = none) :
    let filled := s.filled count origin setup cells world
    let committed := s.commit filled.slots filled.written (count - filled.written)
    s.trySpawn count origin setup cells world = (.ok committed.2, committed.1, filled.world) := by
  simp only [trySpawn_eq, accepted, Option.isSome_none, Bool.false_eq_true, if_false]

/-- A spawn that is refused a particle commits what it has filled, and discards nothing. -/
theorem trySpawn_of_refused {e : ε}
    (refused : (s.filled count origin setup cells world).refusal = some e) :
    let filled := s.filled count origin setup cells world
    s.trySpawn count origin setup cells world =
      (.error e, (s.commit filled.slots filled.written 0).1, filled.world) := by
  simp only [trySpawn_eq, refused, Option.isSome_some, if_true]

end Outcome

/-- The spawner after particles were written at the playhead. -/
structure Spawned (s : Spawner) (placed : List Placement) (after : Spawner) : Prop where
  maxParticles : after.maxParticles = s.maxParticles
  safetySize : after.safetySize = s.safetySize
  contents : (placed.foldl Slots.place s.slots).SameContents after.slots
  playhead : after.playhead =
    if s.maxParticles ≤ s.playhead + placed.length then 0 else s.playhead + placed.length
  consecutive : placed.map (·.slot) = List.range' s.playhead placed.length
  room : s.playhead ≤ s.slotCount → s.playhead + placed.length ≤ s.slotCount
  allocated : after.attributes.isSome

theorem commit_sameContents (s : Spawner) (slots : Slots) (written discarded : Nat) :
    slots.SameContents (s.commit slots written discarded).1.slots := by
  have marked := Slots.sameContents_mark (s := slots) s.playhead written
  have matrices : (s.commit slots written discarded).1.mesh.matrices = slots.mesh.matrices := by
    simp only [commit]
    split <;> exact marked.matrices
  exact ⟨matrices, marked.kinds, marked.data⟩

/-- A spawn commits what it has filled, also where the setup refuses a particle. -/
theorem trySpawn_eq_commit (s : Spawner) (count : Nat) (origin : Option (Transform Single))
    (setup : Setup σ ε) (cells : σ → Cells) (world : σ) :
    let filled := s.filled count origin setup cells world
    (s.trySpawn count origin setup cells world).2.1 =
      (s.commit filled.slots filled.written
        (if filled.refusal.isSome then 0 else count - filled.written)).1 := by
  rw [trySpawn_eq]
  split <;> rfl

theorem trySpawn_spawned (s : Spawner) (count : Nat) (origin : Option (Transform Single))
    (setup : Setup σ ε) (cells : σ → Cells) (world : σ) :
    s.Spawned (s.placements count origin setup cells world)
      (s.trySpawn count origin setup cells world).2.1 := by
  obtain ⟨same, written, consecutive⟩ := s.filled_eq_place count origin setup cells world
  have bound := s.length_placements_le count origin setup cells world
  rw [s.trySpawn_eq_commit]
  constructor
  · rfl
  · rfl
  · rw [← same]
    exact s.commit_sameContents ..
  · rw [← written]
    simp [commit]
  · exact consecutive
  · intro inside
    omega
  · rfl

theorem clearDirty_sameContents (s : Spawner) : s.slots.SameContents s.clearDirty.slots := by
  obtain ⟨mesh, maxParticles, safetySize, attributes, playhead, stats⟩ := s
  cases attributes with
  | none => exact ⟨rfl, fun _ => rfl, fun _ => rfl⟩
  | some a =>
    have cleared := ParticleAttributes.get_clear a
    exact ⟨rfl, fun kind => (congrArg AttributeArray.kind (cleared kind) :),
      fun kind => (congrArg AttributeArray.data (cleared kind) :)⟩

/-- A report counts the particles written. -/
theorem written_of_trySpawn {s : Spawner} {count : Nat} {origin : Option (Transform Single)}
    {setup : Setup σ ε} {cells : σ → Cells} {world : σ} {report : SpawnReport}
    (h : (s.trySpawn count origin setup cells world).1 = .ok report) :
    report.start = s.playhead ∧
      report.written = (s.placements count origin setup cells world).length := by
  have written := (s.filled_eq_place count origin setup cells world).2.1
  cases outcome : (s.filled count origin setup cells world).refusal with
  | none =>
    rw [trySpawn_of_accepted outcome] at h
    cases h
    exact ⟨rfl, written⟩
  | some e =>
    rw [trySpawn_of_refused outcome] at h
    cases h

/-- What may happen to a spawner that is written to by nobody else. -/
inductive Call (σ : Type) : Type 1 where
  | spawn {ε : Type} (count : Nat) (origin : Option (Transform Single)) (setup : Setup σ ε)
  | clearDirty
  /-- The surroundings change, and with them the time. -/
  | elapse (change : σ → σ)

structure History (σ : Type) where
  spawner : Spawner
  world : σ
  log : List Placement

namespace History

def step (cells : σ → Cells) (h : History σ) : Call σ → History σ
  | .spawn count origin setup =>
    let (_, spawner, world) := h.spawner.trySpawn count origin setup cells h.world
    ⟨spawner, world, h.log ++ h.spawner.placements count origin setup cells h.world⟩
  | .clearDirty => { h with spawner := h.spawner.clearDirty }
  | .elapse change => { h with world := change h.world }

/-- Makes calls one after another on a spawner that has written nothing yet. -/
def run (cells : σ → Cells) (spawner : Spawner) (world : σ) (calls : List (Call σ)) : History σ :=
  calls.foldl (step cells) ⟨spawner, world, []⟩

end History

end Spawner

end ParticleShading
