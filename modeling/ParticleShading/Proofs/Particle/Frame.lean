import ParticleShading.Proofs.Particle.History

/-!
# What a spawn leaves alone

A spawn changes floats and matrices only in the slots that it fills
(`Spawner.Spawned.within`), marks just these slots and draws up to their end
(`Spawner.trySpawn_marked`). The slot of a float is its position divided by the
size of an item, so that a change of floats is told by the slots it falls into.
-/

namespace ParticleShading

/-! ## Slots -/

namespace Slots

variable {s t u : Slots} {p : Placement} {ps : List Placement} {start stop : Nat}

/-- Buffers of the same sizes that differ at most in the slots from `start` up to `stop`. -/
structure Within (start stop : Nat) (s t : Slots) : Prop where
  kinds : ∀ kind, (t.attributes.get kind).kind = (s.attributes.get kind).kind
  sizes : ∀ kind, (t.attributes.get kind).data.size = (s.attributes.get kind).data.size
  floats : ∀ kind i,
    ¬ (start ≤ i / (s.attributes.get kind).kind.itemSize ∧
      i / (s.attributes.get kind).kind.itemSize < stop) →
    (t.attributes.get kind).data[i]? = (s.attributes.get kind).data[i]?
  capacity : t.mesh.capacity = s.mesh.capacity
  matrices : ∀ slot, ¬ (start ≤ slot ∧ slot < stop) →
    t.mesh.matrices[slot]? = s.mesh.matrices[slot]?

namespace Within

theorem refl (start stop : Nat) (s : Slots) : s.Within start stop s := by
  constructor <;> intros <;> rfl

theorem trans (first : s.Within start stop t) (second : t.Within start stop u) :
    s.Within start stop u := by
  constructor
  · intro kind
    exact (second.kinds kind).trans (first.kinds kind)
  · intro kind
    exact (second.sizes kind).trans (first.sizes kind)
  · intro kind i outside
    have later := second.floats kind i
    rw [first.kinds kind] at later
    exact (later outside).trans (first.floats kind i outside)
  · exact second.capacity.trans first.capacity
  · intro slot outside
    exact (second.matrices slot outside).trans (first.matrices slot outside)

theorem congr (within : s.Within start stop t) (same : t.SameContents u) :
    s.Within start stop u := by
  refine within.trans ⟨same.kinds, ?_, ?_, ?_, ?_⟩
  · intro kind
    rw [same.data kind]
  · intro kind i _
    rw [same.data kind]
  · exact congrArg Array.size same.matrices
  · intro slot _
    rw [same.matrices]

/-- A slot outside reads as before. -/
theorem get? (within : s.Within start stop t) (kind : AttributeKind) {slot : Nat}
    (outside : ¬ (start ≤ slot ∧ slot < stop)) :
    (t.attributes.get kind).get? slot = (s.attributes.get kind).get? slot := by
  refine AttributeArray.get?_congr (within.kinds kind) (within.sizes kind) ?_
  rintro i rfl
  exact within.floats kind i outside

end Within

theorem within_place (inside : start ≤ p.slot ∧ p.slot < stop) :
    s.Within start stop (s.place p) := by
  constructor
  · intro kind
    rw [place, write, ParticleAttributes.get_write, AttributeArray.kind_set]
  · intro kind
    rw [place, write, ParticleAttributes.get_write, AttributeArray.size_set]
  · intro kind i outside
    rw [place, write, ParticleAttributes.get_write]
    apply AttributeArray.getElem?_set_of_ne
    intro here
    rw [here] at outside
    exact outside inside
  · exact Array.size_setIfInBounds
  · intro slot outside
    apply Array.getElem?_setIfInBounds_ne
    rintro rfl
    exact outside inside

/-- Particles placed in slots of a run change nothing outside of it. -/
theorem within_place_all (inside : ∀ p ∈ ps, start ≤ p.slot ∧ p.slot < stop) :
    s.Within start stop (ps.foldl place s) := by
  induction ps generalizing s with
  | nil => exact .refl start stop s
  | cons p ps ih =>
    have first : s.Within start stop (s.place p) := within_place (inside p List.mem_cons_self)
    have rest : (s.place p).Within start stop (ps.foldl place (s.place p)) :=
      ih fun q mem => inside q (List.mem_cons_of_mem _ mem)
    exact first.trans rest

/-- The same is drawn and the same awaits upload. -/
structure SameMarks (s t : Slots) : Prop where
  arrays : ∀ kind, (t.attributes.get kind).dirty = (s.attributes.get kind).dirty
  matrices : t.mesh.dirty = s.mesh.dirty
  count : t.mesh.count = s.mesh.count

theorem sameMarks_place_all (ps : List Placement) (s : Slots) :
    s.SameMarks (ps.foldl place s) := by
  induction ps generalizing s with
  | nil => exact ⟨fun _ => rfl, rfl, rfl⟩
  | cons p ps ih =>
    have rest := ih (s.place p)
    refine ⟨?_, rest.matrices, rest.count⟩
    intro kind
    have first : ((s.place p).attributes.get kind).dirty = (s.attributes.get kind).dirty := by
      rw [place, write, ParticleAttributes.get_write, AttributeArray.dirty_set]
    exact (rest.arrays kind).trans first

end Slots

/-! ## Spawners -/

namespace Spawner

variable {σ ε : Type} {s after : Spawner} {placed : List Placement}

/-- The slots of a spawn are the run from the playhead on. -/
theorem Spawned.slot_mem (spawned : s.Spawned placed after) {p : Placement} (mem : p ∈ placed) :
    s.playhead ≤ p.slot ∧ p.slot < s.playhead + placed.length :=
  Placement.slot_mem_of_consecutive spawned.consecutive mem

theorem Spawned.within_placed (spawned : s.Spawned placed after) :
    s.slots.Within s.playhead (s.playhead + placed.length) (placed.foldl Slots.place s.slots) :=
  Slots.within_place_all fun _ mem => spawned.slot_mem mem

theorem Spawned.within (spawned : s.Spawned placed after) :
    s.slots.Within s.playhead (s.playhead + placed.length) after.slots :=
  spawned.within_placed.congr spawned.contents

/-- The spawner after slots from the playhead on were marked and drawn. -/
structure Marked (s : Spawner) (written : Nat) (after : Spawner) : Prop where
  arrays : ∀ kind,
    (after.arrays.get kind).dirty = (s.arrays.get kind).dirty.mark s.playhead written
  matrices : after.mesh.dirty = s.mesh.dirty.mark s.playhead written
  count : s.playhead + written ≤ s.mesh.capacity →
    after.mesh.count = max s.mesh.count (s.playhead + written)

theorem commit_marked {slots : Slots} (unmarked : s.slots.SameMarks slots)
    (capacity : slots.mesh.capacity = s.mesh.capacity) (written discarded : Nat) :
    s.Marked written (s.commit slots written discarded).1 := by
  have drawn : (slots.mark s.playhead written).mesh.count = s.mesh.count := unmarked.count
  have holds : (slots.mark s.playhead written).mesh.capacity = s.mesh.capacity := capacity
  have marks : (slots.mark s.playhead written).mesh.dirty = s.mesh.dirty.mark s.playhead written :=
    congrArg (DirtyRange.mark · s.playhead written) unmarked.matrices
  constructor
  · intro kind
    change ((slots.attributes.mark s.playhead written).get kind).dirty = _
    rw [ParticleAttributes.get_mark]
    exact congrArg (DirtyRange.mark · s.playhead written) (unmarked.arrays kind)
  · simp only [commit]
    split
    · exact marks
    · exact marks
  · intro fits
    simp only [commit]
    split
    · rename_i further
      rw [InstanceBuffer.setCount]
      dsimp only
      omega
    · rename_i covered
      omega

theorem trySpawn_marked (s : Spawner) (count : Nat) (origin : Option (Transform Single))
    (setup : Setup σ ε) (cells : σ → Cells) (world : σ) :
    s.Marked (s.placements count origin setup cells world).length
      (s.trySpawn count origin setup cells world).2.1 := by
  obtain ⟨same, written, _⟩ := s.filled_eq_place count origin setup cells world
  have spawned := s.trySpawn_spawned count origin setup cells world
  rw [s.trySpawn_eq_commit, same, written]
  exact commit_marked (Slots.sameMarks_place_all _ _) spawned.within_placed.capacity _ _

end Spawner

end ParticleShading
