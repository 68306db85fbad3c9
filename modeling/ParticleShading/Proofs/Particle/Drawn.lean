import ParticleShading.Proofs.Particle.Frame
import ParticleShading.Proofs.Particle.Ring

/-!
# The drawn range

The number of instances drawn is the furthest end that any spawn has reached.
Every slot below it has been written, and every slot from there on is still as
it was at first, so nothing is ever drawn that no particle was written to. The
invariant ties the playhead to the drawn range: the playhead never lies beyond
it, so a spawn leaves no gap.
-/

namespace ParticleShading

variable {σ : Type}

namespace Slots

variable {s t : Slots} {start stop slot count : Nat}

/-- A slot as it was at first: zero items and the identity. -/
structure Blank (s : Slots) (slot : Nat) : Prop where
  matrix : slot < s.mesh.capacity → s.mesh.matrices[slot]? = some .identity
  items : ∀ kind, slot < (s.attributes.get kind).capacity →
    (s.attributes.get kind).get? slot = some (List.replicate kind.itemSize 0)

theorem Blank.within (blank : s.Blank slot) (within : s.Within start stop t)
    (outside : ¬ (start ≤ slot ∧ slot < stop)) : t.Blank slot := by
  constructor
  · intro inside
    rw [within.capacity] at inside
    rw [within.matrices slot outside]
    exact blank.matrix inside
  · intro kind inside
    rw [AttributeArray.capacity, within.kinds kind, within.sizes kind] at inside
    rw [within.get? kind outside]
    exact blank.items kind inside

/-- A write into the slot is left out of no buffer. -/
structure InRange (s : Slots) (slot : Nat) : Prop where
  matrix : slot < s.mesh.matrices.size
  items : ∀ kind, (slot + 1) * (s.attributes.get kind).kind.itemSize ≤
    (s.attributes.get kind).data.size

theorem Sized.inRange (sized : s.Sized count) (inside : slot < count) : s.InRange slot := by
  constructor
  · exact Nat.lt_of_lt_of_le inside sized.matrices
  · intro kind
    rw [AttributeArray.end_le_size_iff, sized.items kind]
    exact inside

end Slots

namespace Spawner

variable {s : Spawner} {capacity maxParticles safetySize : Nat} {time : Option Uniform}
variable {cells : σ → Cells} {h : History σ}

namespace History

/-- For each call that spawns, the slot after the last one it has filled. -/
def stops (cells : σ → Cells) (h : History σ) : List (Call σ) → List Nat
  | [] => []
  | .spawn count origin setup :: rest =>
    let written := (h.spawner.filled count origin setup cells h.world).written
    (h.spawner.playhead + written) :: stops cells (h.step cells (.spawn count origin setup)) rest
  | .clearDirty :: rest => stops cells (h.step cells .clearDirty) rest
  | .elapse change :: rest => stops cells (h.step cells (.elapse change)) rest

/-- What is drawn has been written, and the rest is blank. -/
structure Drawn (maxParticles safetySize capacity : Nat) (h : History σ) : Prop where
  capacity : h.spawner.mesh.capacity = capacity
  sizes : ∀ kind, (h.spawner.arrays.get kind).data.size =
    (maxParticles + safetySize) * kind.itemSize
  reached : h.spawner.playhead ≤ h.spawner.mesh.count
  bounded : h.spawner.mesh.count ≤ maxParticles + safetySize
  written : ∀ slot, slot < h.spawner.mesh.count → ∃ p ∈ h.log, p.slot = slot
  blank : ∀ slot, h.spawner.mesh.count ≤ slot → h.spawner.slots.Blank slot

end History

theorem drawn_create (created : create (.identities capacity time) maxParticles safetySize = .ok s)
    (world : σ) : History.Drawn maxParticles safetySize capacity ⟨s, world, []⟩ := by
  obtain ⟨_, _, rfl, arrays⟩ := create_eq_ok created
  constructor
  · exact Array.size_replicate
  · intro kind
    exact (congrArg (·.data.size) (arrays kind)).trans Array.size_replicate
  · exact Nat.le_refl 0
  · exact Nat.zero_le _
  · intro slot drawn
    exact absurd drawn (Nat.not_lt_zero slot)
  · intro slot _
    constructor
    · intro inside
      have inside : slot < capacity := Nat.lt_of_lt_of_eq inside Array.size_replicate
      exact Array.getElem?_replicate.trans (if_pos inside)
    · intro kind inside
      have zeros := arrays kind
      change slot < (Spawner.arrays _ |>.get kind).capacity at inside
      rw [zeros, AttributeArray.capacity_zeros] at inside
      exact (congrArg (·.get? slot) zeros).trans (AttributeArray.get?_zeros inside)

section Spawned

variable {placed : List Placement} {after : Spawner} {world : σ}

/-- The drawn range grows up to the end of what a spawn has filled. -/
theorem History.Valid.count_spawned (v : h.Valid maxParticles safetySize)
    (spawned : h.spawner.Spawned placed after) (marked : h.spawner.Marked placed.length after) :
    after.mesh.count = max h.spawner.mesh.count (h.spawner.playhead + placed.length) := by
  have room := v.room spawned
  have fits : maxParticles + safetySize ≤ h.spawner.mesh.capacity := v.sized.matrices
  exact marked.count (by omega)

theorem History.Drawn.spawned (d : h.Drawn maxParticles safetySize capacity)
    (v : h.Valid maxParticles safetySize) (spawned : h.spawner.Spawned placed after)
    (marked : h.spawner.Marked placed.length after) :
    History.Drawn maxParticles safetySize capacity ⟨after, world, h.log ++ placed⟩ := by
  have within := spawned.within
  have room := v.room spawned
  have count := v.count_spawned spawned marked
  have reached := d.reached
  have bounded := d.bounded
  constructor
  · exact within.capacity.trans d.capacity
  · intro kind
    exact (within.sizes kind).trans (d.sizes kind)
  · have playhead := spawned.playhead
    dsimp only
    rw [playhead]
    split <;> omega
  · dsimp only
    omega
  · intro slot drawn
    dsimp only at drawn
    by_cases old : slot < h.spawner.mesh.count
    · obtain ⟨p, mem, here⟩ := d.written slot old
      exact ⟨p, List.mem_append.mpr (Or.inl mem), here⟩
    · have new : slot ∈ placed.map (·.slot) := by
        rw [spawned.consecutive]
        exact List.mem_range'_1.mpr (by omega)
      obtain ⟨p, mem, here⟩ := List.mem_map.mp new
      exact ⟨p, List.mem_append.mpr (Or.inr mem), here⟩
  · intro slot undrawn
    dsimp only at undrawn
    have blank := d.blank slot (by omega)
    exact blank.within within (by omega)

end Spawned

theorem History.Drawn.step (d : h.Drawn maxParticles safetySize capacity)
    (v : h.Valid maxParticles safetySize) (call : Call σ) :
    (h.step cells call).Drawn maxParticles safetySize capacity := by
  cases call with
  | spawn count origin setup =>
    exact d.spawned v (h.spawner.trySpawn_spawned count origin setup cells h.world)
      (h.spawner.trySpawn_marked count origin setup cells h.world)
  | clearDirty =>
    have within := (Slots.Within.refl 0 0 h.spawner.slots).congr h.spawner.clearDirty_sameContents
    refine ⟨d.capacity, ?_, d.reached, d.bounded, d.written, ?_⟩
    · intro kind
      exact (within.sizes kind).trans (d.sizes kind)
    · intro slot undrawn
      exact (d.blank slot undrawn).within within (by omega)
  | elapse change => exact ⟨d.capacity, d.sizes, d.reached, d.bounded, d.written, d.blank⟩

/-- The drawn range after calls, and the furthest end that the spawns among them have reached. -/
theorem History.Drawn.run (d : h.Drawn maxParticles safetySize capacity)
    (v : h.Valid maxParticles safetySize) (calls : List (Call σ)) :
    (calls.foldl (History.step cells) h).Drawn maxParticles safetySize capacity ∧
      (calls.foldl (History.step cells) h).spawner.mesh.count =
        (h.stops cells calls).foldl max h.spawner.mesh.count := by
  induction calls generalizing h with
  | nil => exact ⟨d, rfl⟩
  | cons call calls ih =>
    obtain ⟨drawn, count⟩ := ih (d.step v call) (v.step call)
    refine ⟨drawn, count.trans ?_⟩
    cases call with
    | spawn n origin setup =>
      have written := (h.spawner.filled_eq_place n origin setup cells h.world).2.1
      have reached := v.count_spawned (h.spawner.trySpawn_spawned n origin setup cells h.world)
        (h.spawner.trySpawn_marked n origin setup cells h.world)
      rw [← written] at reached
      exact congrArg (List.foldl max · _) reached
    | clearDirty => rfl
    | elapse change => rfl

/-- After any calls, what is drawn is what has been written: the drawn range ends where the
furthest spawn has ended, all slots of it have been written, and no other slot has changed. Every
write of a next spawn reaches all buffers. -/
theorem drawn_eq_written (created : create (.identities capacity time) maxParticles safetySize = .ok s)
    (cells : σ → Cells) (world : σ) (calls : List (Call σ)) :
    let h := History.run cells s world calls
    h.spawner.playhead < maxParticles ∧
    h.spawner.playhead ≤ h.spawner.mesh.count ∧
    h.spawner.mesh.count ≤ maxParticles + safetySize ∧
    maxParticles + safetySize ≤ h.spawner.mesh.capacity ∧
    h.spawner.mesh.count = (History.stops cells ⟨s, world, []⟩ calls).foldl max 0 ∧
    (∀ slot, slot < h.spawner.mesh.count → ∃ p ∈ h.log, p.slot = slot) ∧
    (∀ slot, h.spawner.mesh.count ≤ slot → h.spawner.slots.Blank slot) ∧
    (∀ kind, (h.spawner.arrays.get kind).data.size = (maxParticles + safetySize) * kind.itemSize) ∧
    ∀ {ε : Type} (count : Nat) (origin : Option (Transform Single)) (setup : Setup σ ε),
      let placed := h.spawner.placements count origin setup cells h.world
      (h.spawner.filled count origin setup cells h.world).slots =
        placed.foldl Slots.place h.spawner.slots ∧
      ∀ earlier p later, placed = earlier ++ p :: later →
        (earlier.foldl Slots.place h.spawner.slots).InRange p.slot := by
  intro h
  have v : h.Valid maxParticles safetySize := valid_run created cells world calls
  obtain ⟨d, count⟩ : h.Drawn maxParticles safetySize capacity ∧ _ :=
    (drawn_create created world).run (valid_create created world) calls
  refine ⟨v.inside, d.reached, d.bounded, v.sized.matrices, ?_, d.written, d.blank, d.sizes, ?_⟩
  · obtain ⟨_, _, rfl, _⟩ := create_eq_ok created
    exact count
  · intro ε count origin setup placed
    have spawned := h.spawner.trySpawn_spawned count origin setup cells h.world
    refine ⟨(h.spawner.filled_eq_place count origin setup cells h.world).1, ?_⟩
    intro earlier p later split
    have mem : p ∈ placed := by
      rw [split]
      exact List.mem_append.mpr (Or.inr List.mem_cons_self)
    have room := v.room spawned
    have inside : p.slot < maxParticles + safetySize := by
      have := spawned.slot_mem mem
      omega
    exact (v.sized.place_all earlier).inRange inside

/-- A setup that refuses the third particle of a batch. -/
def refusingThird : Setup Unit Unit := fun index record world =>
  if index = 2 then (.error (), world) else (.ok record, world)

/-- A ring of three slots with a margin of two, and one more slot that is never used. -/
def smallRing : Spawner := ⟨.identities 6 none, 3, 2, none, 0, .zero⟩

/-- The second batch is refused in the margin, and the third begins a new pass. -/
def refusedCalls : List (Call Unit) :=
  [.spawn 2 none refusingThird, .spawn 4 none refusingThird, .clearDirty,
    .spawn 1 none refusingThird]

/-- The slot behind a refused batch stays blank in the next pass. -/
theorem drawn_eq_written_refused :
    create (.identities 6 none) 3 2 = .ok smallRing ∧
      History.stops (fun _ => .empty) ⟨smallRing, (), []⟩ refusedCalls = [2, 4, 1] ∧
      let h := History.run (fun _ => .empty) smallRing () refusedCalls
      h.spawner.mesh.count = 4 ∧ h.spawner.playhead = 1 ∧ (∃ p ∈ h.log, p.slot = 3) ∧
        h.spawner.slots.Blank 4 := by
  have created : create (.identities 6 none) 3 2 = .ok smallRing := rfl
  have stops : History.stops (fun _ => .empty) ⟨smallRing, (), []⟩ refusedCalls = [2, 4, 1] := by
    decide +kernel
  have furthest : [2, 4, 1].foldl max 0 = 4 := by decide
  have playhead : (History.run (fun _ => .empty) smallRing () refusedCalls).spawner.playhead = 1 := by
    decide +kernel
  obtain ⟨_, _, _, _, count, written, blank, _⟩ :=
    drawn_eq_written created (fun _ => .empty) () refusedCalls
  rw [stops, furthest] at count
  exact ⟨created, stops, count, playhead, written 3 (Nat.lt_of_lt_of_eq (by decide) count.symm),
    blank 4 (Nat.le_of_eq count)⟩

end Spawner

end ParticleShading
