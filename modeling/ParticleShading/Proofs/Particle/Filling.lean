import ParticleShading.Proofs.Particle.Placement

/-!
# Filling a run of slots

A setup is called at one batch index after another and may change its
surroundings each time. `Setup.worldAt` and `Setup.answer` follow these calls
without the buffers. Filling makes the calls up to the first refusal
(`Slots.fill_passed`, `Slots.fill_refused`); it may be cut in two
(`Slots.fill_add`) and begun at a later index (`Slots.slots_fill_shift`).
-/

namespace ParticleShading

variable {σ ε : Type}

/-! ## The calls of a setup -/

namespace Setup

variable (setup : Setup σ ε) (origin : Option (Transform Single)) (world : σ)

/-- The surroundings after the calls at the first `n` batch indices. -/
def worldAt : Nat → σ
  | 0 => world
  | n + 1 => (setup n (.initial origin) (worldAt n)).2

/-- What the call at a batch index answers, after the calls at all indices before it. -/
def answer (index : Nat) : Except ε ParticleRecord :=
  (setup index (.initial origin) (setup.worldAt origin world index)).1

/-- The calls at the first `n` batch indices all fill in their records. -/
def Passes (n : Nat) : Prop := ∀ i < n, ∃ record, setup.answer origin world i = .ok record

/-- A setup that never refuses a particle. -/
def Total (setup : Setup σ ε) : Prop :=
  ∀ index record world, ∃ filled, (setup index record world).1 = .ok filled

/-- A setup that notes the batch indices it is called at. -/
def noting (setup : Setup σ ε) : Setup (σ × List Nat) ε := fun index record noted =>
  let (result, world) := setup index record noted.1
  (result, world, noted.2 ++ [index])

variable {setup origin world}

variable (origin world) in
theorem Total.passes (total : setup.Total) (n : Nat) : setup.Passes origin world n :=
  fun _ _ => total _ _ _

theorem Passes.mono {m n : Nat} (passes : setup.Passes origin world n) (le : m ≤ n) :
    setup.Passes origin world m :=
  fun i inside => passes i (Nat.lt_of_lt_of_le inside le)

variable (setup origin world) in
/-- A call after all calls before it. -/
theorem call_eq (index : Nat) : setup index (.initial origin) (setup.worldAt origin world index) =
    (setup.answer origin world index, setup.worldAt origin world (index + 1)) := rfl

/-- A setup that counts from `a` on goes through the surroundings from the `a`-th call on. -/
theorem worldAt_shift (a n : Nat) :
    Setup.worldAt (fun i => setup (a + i)) origin (setup.worldAt origin world a) n =
      setup.worldAt origin world (a + n) := by
  induction n with
  | zero => rfl
  | succ n ih => rw [worldAt, ih, ← Nat.add_assoc, worldAt]

end Setup

/-! ## Filling -/

namespace Slots

variable {setup other : Setup σ ε} {cells : σ → Cells} {origin : Option (Transform Single)}
variable {start index : Nat} {world : σ}

/-- A call that passes fills the next slot. -/
theorem fill_ok {record : ParticleRecord} (n : Nat) (slots : Slots)
    (passed : setup.answer origin world index = .ok record) :
    fill setup cells origin start (n + 1) index slots (setup.worldAt origin world index) =
      fill setup cells origin start n (index + 1)
        (slots.write (start + index) record
          (slots.mesh.currentTime (cells (setup.worldAt origin world (index + 1)))))
        (setup.worldAt origin world (index + 1)) := by
  rw [fill, Setup.call_eq setup origin world index, passed]

/-- A call that refuses ends the filling. -/
theorem fill_error {e : ε} (n : Nat) (slots : Slots)
    (refused : setup.answer origin world index = .error e) :
    fill setup cells origin start (n + 1) index slots (setup.worldAt origin world index) =
      ⟨slots, setup.worldAt origin world (index + 1), index, some e⟩ := by
  rw [fill, Setup.call_eq setup origin world index, refused]

/-- While the calls pass, every one of them fills a slot. -/
theorem fill_passed {n : Nat} (cells : σ → Cells) (start : Nat) (slots : Slots)
    (passes : setup.Passes origin world (index + n)) :
    let filled := fill setup cells origin start n index slots (setup.worldAt origin world index)
    filled = ⟨filled.slots, setup.worldAt origin world (index + n), index + n, none⟩ := by
  induction n generalizing index slots with
  | zero => rfl
  | succ n ih =>
    obtain ⟨record, passed⟩ := passes index (by omega)
    have sum : index + (n + 1) = index + 1 + n := by omega
    rw [fill_ok n slots passed, sum]
    rw [sum] at passes
    exact ih _ passes

/-- The first refusal ends the filling, with the slots before it filled. -/
theorem fill_refused {k n : Nat} {e : ε} (cells : σ → Cells) (start : Nat) (slots : Slots)
    (passes : setup.Passes origin world (index + k))
    (refused : setup.answer origin world (index + k) = .error e) (inside : k < n) :
    fill setup cells origin start n index slots (setup.worldAt origin world index) =
      { fill setup cells origin start k index slots (setup.worldAt origin world index) with
        world := setup.worldAt origin world (index + k + 1)
        refusal := some e } := by
  obtain ⟨m, rfl⟩ : ∃ m, n = m + 1 := ⟨n - 1, by omega⟩
  induction k generalizing m index slots with
  | zero => exact fill_error m slots refused
  | succ k ih =>
    obtain ⟨m, rfl⟩ : ∃ l, m = l + 1 := ⟨m - 1, by omega⟩
    obtain ⟨record, passed⟩ := passes index (by omega)
    have sum : index + (k + 1) = index + 1 + k := by omega
    rw [fill_ok _ slots passed, fill_ok _ slots passed, sum]
    rw [sum] at passes refused
    exact ih _ passes refused m (Nat.lt_of_succ_lt_succ inside)

/-- Filling more slots goes on where filling the first ones has ended. -/
theorem fill_add {m : Nat} (cells : σ → Cells) (start n : Nat) (slots : Slots)
    (passes : setup.Passes origin world (index + m)) :
    fill setup cells origin start (m + n) index slots (setup.worldAt origin world index) =
      fill setup cells origin start n (index + m)
        (fill setup cells origin start m index slots (setup.worldAt origin world index)).slots
        (setup.worldAt origin world (index + m)) := by
  induction m generalizing index slots with
  | zero =>
    rw [Nat.zero_add]
    rfl
  | succ m ih =>
    obtain ⟨record, passed⟩ := passes index (by omega)
    have sum : index + (m + 1) = index + 1 + m := by omega
    rw [Nat.add_right_comm, fill_ok _ slots passed, fill_ok _ slots passed, sum]
    rw [sum] at passes
    exact ih _ passes

/-- A setup that counts from `a` on fills the slots from the `a`-th on. -/
theorem slots_fill_shift (a n index : Nat) (slots : Slots) (world : σ) :
    (fill (fun i => setup (a + i)) cells origin (start + a) n index slots world).slots =
      (fill setup cells origin start n (a + index) slots world).slots := by
  induction n generalizing index slots world with
  | zero => rfl
  | succ n ih =>
    simp only [fill]
    rcases setup (a + index) (.initial origin) world with ⟨result, world'⟩
    cases result with
    | error e => rfl
    | ok record =>
      rw [Nat.add_assoc start]
      exact ih ..

/-- Filling depends on the calls that it makes only. -/
theorem fill_congr {n : Nat} (cells : σ → Cells) (start : Nat) (slots : Slots)
    (alike : ∀ i, index ≤ i → i < index + n →
      other i (.initial origin) (setup.worldAt origin world i) =
        setup i (.initial origin) (setup.worldAt origin world i)) :
    fill other cells origin start n index slots (setup.worldAt origin world index) =
      fill setup cells origin start n index slots (setup.worldAt origin world index) := by
  induction n generalizing index slots with
  | zero => rfl
  | succ n ih =>
    rw [fill, fill, alike index (Nat.le_refl _) (by omega), Setup.call_eq setup origin world index]
    cases setup.answer origin world index with
    | error e => rfl
    | ok record => exact ih _ fun i after before => alike i (by omega) (by omega)

/-- Noting the calls changes nothing else. While they pass, one call is made for every slot. -/
theorem fill_noting {n : Nat} (cells : σ → Cells) (start : Nat) (slots : Slots) (seen : List Nat)
    (passes : setup.Passes origin world (index + n)) :
    let filled := fill setup cells origin start n index slots (setup.worldAt origin world index)
    fill setup.noting (fun noted => cells noted.1) origin start n index slots
        (setup.worldAt origin world index, seen) =
      ⟨filled.slots, (filled.world, seen ++ List.range' index n), filled.written,
        filled.refusal⟩ := by
  induction n generalizing index slots seen with
  | zero => simp only [fill, List.range'_zero, List.append_nil]
  | succ n ih =>
    obtain ⟨record, passed⟩ := passes index (by omega)
    have sum : index + (n + 1) = index + 1 + n := by omega
    rw [sum] at passes
    rw [fill_ok n slots passed, List.range'_succ, List.append_cons]
    have noted : setup.noting index (.initial origin) (setup.worldAt origin world index, seen) =
        (.ok record, setup.worldAt origin world (index + 1), seen ++ [index]) := by
      rw [← passed]
      rfl
    rw [fill, noted]
    exact ih _ _ passes

/-- Filling goes the same way from slots that differ in what no write looks at. -/
theorem fill_map {g : Slots → Slots} (n index : Nat) (slots : Slots) (world : σ)
    (write : ∀ slots slot record now,
      (g slots).write slot record now = g (slots.write slot record now))
    (time : ∀ slots, (g slots).mesh.time = slots.mesh.time) :
    let filled := fill setup cells origin start n index slots world
    fill setup cells origin start n index (g slots) world =
      { filled with slots := g filled.slots } := by
  induction n generalizing index slots world with
  | zero => rfl
  | succ n ih =>
    simp only [fill]
    rcases setup index (.initial origin) world with ⟨result, world'⟩
    cases result with
    | error e => rfl
    | ok record =>
      dsimp only
      rw [InstanceBuffer.currentTime, time, write]
      exact ih ..

end Slots

end ParticleShading
