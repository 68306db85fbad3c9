import ParticleShading.Particle.Spawner

/-!
# What a batch writes

`Slots.placements` lists the particles that `Slots.fill` writes, with their
slots and times. A batch is one run of slots, and filling it is placing its
particles one after another. `Slots.Holds` says that a particle is still there:
its seven items and its matrix. Placing a particle changes no other slot.
-/

namespace ParticleShading

/-- A particle as it was written. -/
structure Placement where
  slot : Nat
  record : ParticleRecord
  now : Single

namespace Placement

variable {ps : List Placement} {p : Placement} {start : Nat}

theorem slot_mem_of_consecutive (consecutive : ps.map (·.slot) = List.range' start ps.length)
    (mem : p ∈ ps) : start ≤ p.slot ∧ p.slot < start + ps.length := by
  have listed : p.slot ∈ ps.map (·.slot) := List.mem_map_of_mem mem
  rw [consecutive] at listed
  exact List.mem_range'_1.mp listed

end Placement

namespace Slots

def place (s : Slots) (p : Placement) : Slots := s.write p.slot p.record p.now

section Fill

variable {σ ε : Type} (setup : Setup σ ε) (cells : σ → Cells)
variable (origin : Option (Transform Single)) (start : Nat)

/-- The particles that `fill` writes, in their order. -/
def placements : Nat → Nat → Slots → σ → List Placement
  | 0, _, _, _ => []
  | n + 1, index, slots, world =>
    match setup index (.initial origin) world with
    | (.error _, _) => []
    | (.ok record, world) =>
      let p := ⟨start + index, record, slots.mesh.currentTime (cells world)⟩
      p :: placements n (index + 1) (slots.place p) world

/-- Filling places the particles in consecutive slots. -/
theorem fill_eq_place (n index : Nat) (slots : Slots) (world : σ) :
    let filled := fill setup cells origin start n index slots world
    let placed := placements setup cells origin start n index slots world
    filled.slots = placed.foldl place slots ∧ filled.written = index + placed.length ∧
      placed.map (·.slot) = List.range' (start + index) placed.length := by
  induction n generalizing index slots world with
  | zero => exact ⟨rfl, rfl, rfl⟩
  | succ n ih =>
    rcases drawn : setup index (.initial origin) world with ⟨result, world'⟩
    cases result with
    | error e =>
      simp only [fill, placements, drawn]
      exact ⟨rfl, rfl, rfl⟩
    | ok record =>
      simp only [fill, placements, drawn]
      obtain ⟨same, written, slotted⟩ := ih (index + 1)
        (slots.place ⟨start + index, record, slots.mesh.currentTime (cells world')⟩) world'
      refine ⟨same, ?_, ?_⟩
      · rw [List.length_cons, ← Nat.add_assoc, Nat.add_right_comm]
        exact written
      · rw [List.map_cons, List.length_cons, List.range'_succ]
        exact congrArg _ slotted

theorem length_placements_le (n index : Nat) (slots : Slots) (world : σ) :
    (placements setup cells origin start n index slots world).length ≤ n := by
  have filled := fill_eq_place setup cells origin start n index slots world
  have bounds := written_fill setup cells origin start n index slots world
  dsimp only at filled bounds
  omega

end Fill

/-! ## Contents of slots -/

variable {s t : Slots} {p q : Placement} {count : Nat}

/-- A particle is in its slot of every buffer. -/
structure Holds (s : Slots) (p : Placement) : Prop where
  matrix : s.mesh.matrices[p.slot]? = some p.record.instanceMatrix
  items : ∀ kind, (s.attributes.get kind).get? p.slot =
    some (ParticleAttributes.encode p.record p.now kind)

/-- Every attribute has its array of `count` items, and the mesh as many matrices at least. -/
structure Sized (s : Slots) (count : Nat) : Prop where
  matrices : count ≤ s.mesh.matrices.size
  kinds : ∀ kind, (s.attributes.get kind).kind = kind
  items : ∀ kind, (s.attributes.get kind).capacity = count

/-- The slots differ at most in what is drawn and in what awaits upload. -/
structure SameContents (s t : Slots) : Prop where
  matrices : t.mesh.matrices = s.mesh.matrices
  kinds : ∀ kind, (t.attributes.get kind).kind = (s.attributes.get kind).kind
  data : ∀ kind, (t.attributes.get kind).data = (s.attributes.get kind).data

theorem Holds.congr (held : s.Holds p) (same : s.SameContents t) : t.Holds p := by
  constructor
  · rw [same.matrices]
    exact held.matrix
  · intro kind
    rw [← held.items kind]
    simp only [AttributeArray.get?, same.kinds kind, same.data kind]

theorem Sized.congr (sized : s.Sized count) (same : s.SameContents t) : t.Sized count := by
  constructor
  · rw [same.matrices]
    exact sized.matrices
  · intro kind
    rw [same.kinds kind]
    exact sized.kinds kind
  · intro kind
    rw [← sized.items kind]
    simp only [AttributeArray.capacity, same.kinds kind, same.data kind]

theorem Sized.place (sized : s.Sized count) (p : Placement) : (s.place p).Sized count := by
  constructor
  · exact Nat.le_trans sized.matrices (Nat.le_of_eq Array.size_setIfInBounds.symm)
  · intro kind
    rw [Slots.place, write, ParticleAttributes.get_write, AttributeArray.kind_set]
    exact sized.kinds kind
  · intro kind
    rw [Slots.place, write, ParticleAttributes.get_write, AttributeArray.capacity,
      AttributeArray.kind_set, AttributeArray.size_set]
    exact sized.items kind

theorem Sized.place_all (sized : s.Sized count) (ps : List Placement) :
    (ps.foldl Slots.place s).Sized count := by
  induction ps generalizing s with
  | nil => exact sized
  | cons p ps ih => exact ih (sized.place p)

/-- What an item reads after a particle is placed. -/
theorem Sized.get?_place (sized : s.Sized count) (inside : p.slot < count) (kind : AttributeKind)
    (slot : Nat) :
    ((s.place p).attributes.get kind).get? slot =
      if slot = p.slot then some (ParticleAttributes.encode p.record p.now kind)
      else (s.attributes.get kind).get? slot := by
  have length : (ParticleAttributes.encode p.record p.now kind).length =
      (s.attributes.get kind).kind.itemSize := by
    rw [ParticleAttributes.length_encode, sized.kinds kind]
  have bound : p.slot < (s.attributes.get kind).capacity := by rwa [sized.items kind]
  rw [Slots.place, write, ParticleAttributes.get_write,
    AttributeArray.get?_set (Nat.le_of_eq length.symm),
    ← length, List.take_length]
  simp only [bound, and_true]

theorem Sized.holds_place (sized : s.Sized count) (inside : p.slot < count) :
    (s.place p).Holds p := by
  constructor
  · exact Array.getElem?_setIfInBounds_self_of_lt (Nat.lt_of_lt_of_le inside sized.matrices)
  · intro kind
    rw [sized.get?_place inside, if_pos rfl]

theorem Sized.holds_place_of_ne (sized : s.Sized count) (inside : p.slot < count)
    (held : s.Holds q) (apart : q.slot ≠ p.slot) : (s.place p).Holds q := by
  constructor
  · rw [← held.matrix]
    exact Array.getElem?_setIfInBounds_ne apart.symm
  · intro kind
    rw [sized.get?_place inside, if_neg apart]
    exact held.items kind

theorem sameContents_mark (offset marked : Nat) : s.SameContents (s.mark offset marked) := by
  constructor
  · rfl
  all_goals
    intro kind
    rw [mark, ParticleAttributes.get_mark]
    rfl

end Slots

end ParticleShading
