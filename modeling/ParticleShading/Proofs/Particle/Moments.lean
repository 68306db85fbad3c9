import ParticleShading.Proofs.Particle.History

/-!
# The moments of a batch

A setup may change the surroundings, and the time is read after each of them. So
every particle of a batch has surroundings of its own, those that its setup left
behind; the time uniform that they are read through is the same for all.
-/

namespace ParticleShading

variable {σ ε : Type}

namespace Slots

section Fill

variable (setup : Setup σ ε) (cells : σ → Cells)
variable (origin : Option (Transform Single)) (start : Nat)

/-- The particles that `fill` writes, each with the surroundings at that moment. -/
def moments : Nat → Nat → Slots → σ → List (Placement × σ)
  | 0, _, _, _ => []
  | n + 1, index, slots, world =>
    match setup index (.initial origin) world with
    | (.error _, _) => []
    | (.ok record, world) =>
      let p : Placement := ⟨start + index, record, slots.mesh.currentTime (cells world)⟩
      (p, world) :: moments n (index + 1) (slots.place p) world

theorem map_moments (n index : Nat) (slots : Slots) (world : σ) :
    (moments setup cells origin start n index slots world).map (·.1) =
      placements setup cells origin start n index slots world := by
  induction n generalizing index slots world with
  | zero => rfl
  | succ n ih =>
    rcases drawn : setup index (.initial origin) world with ⟨result, world'⟩
    cases result with
    | error e => simp only [moments, placements, drawn, List.map_nil]
    | ok record => simp only [moments, placements, drawn, List.map_cons, ih]

/-- Each particle has the time of its moment. -/
theorem now_of_moments (n index : Nat) (slots : Slots) (world : σ) :
    ∀ entry ∈ moments setup cells origin start n index slots world,
      entry.1.now = slots.mesh.currentTime (cells entry.2) := by
  induction n generalizing index slots world with
  | zero => simp [moments]
  | succ n ih =>
    rcases drawn : setup index (.initial origin) world with ⟨result, world'⟩
    cases result with
    | error e => simp [moments, drawn]
    | ok record =>
      simp only [moments, drawn]
      intro entry mem
      rcases List.mem_cons.mp mem with rfl | mem
      · rfl
      · have later := ih (index + 1)
          (slots.place ⟨start + index, record, slots.mesh.currentTime (cells world')⟩) world'
        exact later entry mem

/-- The moments follow one another: what every setup leads to leads from the start of the batch to
each moment, and from there to its end. -/
theorem moments_between {R : σ → σ → Prop} (refl : ∀ w, R w w)
    (trans : ∀ {a b c}, R a b → R b c → R a c)
    (step : ∀ index record w, R w (setup index record w).2) (n index : Nat) (slots : Slots)
    (world : σ) :
    R world (fill setup cells origin start n index slots world).world ∧
      ∀ entry ∈ moments setup cells origin start n index slots world,
        R world entry.2 ∧ R entry.2 (fill setup cells origin start n index slots world).world := by
  induction n generalizing index slots world with
  | zero => simp [fill, moments, refl]
  | succ n ih =>
    have first := step index (.initial origin) world
    rcases drawn : setup index (.initial origin) world with ⟨result, world'⟩
    rw [drawn] at first
    cases result with
    | error e => simpa [fill, moments, drawn] using first
    | ok record =>
      simp only [fill, moments, drawn]
      obtain ⟨ended, between⟩ := ih (index + 1)
        (slots.place ⟨start + index, record, slots.mesh.currentTime (cells world')⟩) world'
      refine ⟨trans first ended, ?_⟩
      intro entry mem
      rcases List.mem_cons.mp mem with rfl | mem
      · exact ⟨first, ended⟩
      · obtain ⟨before, after⟩ := between entry mem
        exact ⟨trans first before, after⟩

end Fill

/-- Placing particles leaves the time uniform alone. -/
theorem time_place_all (ps : List Placement) (s : Slots) :
    (ps.foldl place s).mesh.time = s.mesh.time := by
  induction ps generalizing s with
  | nil => rfl
  | cons p ps ih => exact ih (s.place p)

end Slots

namespace Spawner

variable (s : Spawner) (count : Nat) (origin : Option (Transform Single)) (setup : Setup σ ε)
variable (cells : σ → Cells) (world : σ)

/-- The particles that a spawn writes with their moments. -/
def moments : List (Placement × σ) :=
  Slots.moments setup cells origin s.playhead (min count (s.slotCount - s.playhead)) 0 s.slots world

theorem map_moments :
    (s.moments count origin setup cells world).map (·.1) =
      s.placements count origin setup cells world :=
  Slots.map_moments ..

theorem world_trySpawn :
    (s.trySpawn count origin setup cells world).2.2 =
      (s.filled count origin setup cells world).world := by
  cases outcome : (s.filled count origin setup cells world).refusal with
  | none => rw [trySpawn_of_accepted outcome]
  | some e => rw [trySpawn_of_refused outcome]

/-- A spawn reads its times through one uniform. -/
theorem time_trySpawn :
    (s.trySpawn count origin setup cells world).2.1.mesh.time = s.mesh.time := by
  have filled : (s.filled count origin setup cells world).slots.mesh.time = s.mesh.time := by
    rw [(s.filled_eq_place count origin setup cells world).1]
    exact Slots.time_place_all ..
  rw [s.trySpawn_eq_commit]
  simp only [commit]
  split <;> exact filled

end Spawner

end ParticleShading
