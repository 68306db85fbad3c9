import ParticleShading.Proofs.Particle.Batch

/-!
# Splitting a batch

A batch of `a + b` particles may be spawned as one of `a` and one of `b`, as
long as the first does not leave the ring: only the batches are counted
otherwise (`Spawner.split_batch`). Ending a batch is a map on the buffers that
commutes with the writes of the next one (`Slots.write_finish`), and ending two
runs of slots that touch is ending one (`Slots.finish_finish`).
-/

namespace ParticleShading

/-- A batch that does not wrap, and another one after it, count as one and a batch more. -/
theorem SpawnerStats.add_add (s : SpawnerStats) (m n d e : Nat) (wrapped : Bool) :
    (s.add m d false).add n e wrapped =
      { s.add (m + n) (d + e) wrapped with batches := s.batches + 1 + 1 } := by
  simp only [add, UInt64.ofNat_add, UInt64.add_assoc, UInt64.add_zero, Bool.false_eq_true, if_false]

/-- Two marks that touch are one. -/
theorem DirtyRange.mark_mark (r : DirtyRange) (offset m n : Nat) :
    (r.mark offset m).mark (offset + m) n = r.mark offset (m + n) := by
  rcases Nat.eq_zero_or_pos m with rfl | first
  · rw [mark_zero, Nat.add_zero, Nat.zero_add]
  rcases Nat.eq_zero_or_pos n with rfl | second
  · rw [mark_zero, Nat.add_zero]
  have some_m : m ≠ 0 := by omega
  have some_n : n ≠ 0 := by omega
  have some_sum : m + n ≠ 0 := by omega
  have dirty := r.isDirty_mark offset first
  rw [mark, if_neg some_n, if_pos dirty]
  simp only [mark, if_neg some_m, if_neg some_sum]
  split <;> simp only [mk.injEq] <;> omega

namespace AttributeArray

theorem set_mark (a : AttributeArray) (offset count index : Nat) (values : List Single) :
    (a.mark offset count).set index values = (a.set index values).mark offset count := by
  by_cases inside : (index + 1) * a.kind.itemSize ≤ a.data.size
  · have marked : (index + 1) * (a.mark offset count).kind.itemSize ≤
        (a.mark offset count).data.size := inside
    simp only [set, if_pos inside, if_pos marked]
    rfl
  · have marked : ¬ (index + 1) * (a.mark offset count).kind.itemSize ≤
        (a.mark offset count).data.size := inside
    simp only [set, if_neg inside, if_neg marked]

theorem mark_mark (a : AttributeArray) (offset m n : Nat) :
    (a.mark offset m).mark (offset + m) n = a.mark offset (m + n) := by
  simp only [mark, DirtyRange.mark_mark]

end AttributeArray

namespace ParticleAttributes

theorem write_mark (a : ParticleAttributes) (offset count index : Nat) (record : ParticleRecord)
    (now : Single) :
    (a.mark offset count).write index record now = (a.write index record now).mark offset count := by
  simp only [write, mark, modifyAll, AttributeKind.all, List.foldl_cons, List.foldl_nil, modify,
    AttributeArray.set_mark]

theorem mark_mark (a : ParticleAttributes) (offset m n : Nat) :
    (a.mark offset m).mark (offset + m) n = a.mark offset (m + n) := by
  simp only [mark, modifyAll, AttributeKind.all, List.foldl_cons, List.foldl_nil, modify,
    AttributeArray.mark_mark]

end ParticleAttributes

namespace InstanceBuffer

/-- Ends a batch: marks what it has written, and draws it. -/
def finish (b : InstanceBuffer) (start written : Nat) : InstanceBuffer :=
  let stop := start + written
  { b with
    count := if b.count < stop then min stop b.capacity else b.count
    dirty := b.dirty.mark start written }

theorem finish_eq (b : InstanceBuffer) (start written : Nat) :
    (if (b.mark start written).count < start + written then
        (b.mark start written).setCount (start + written)
      else b.mark start written) = b.finish start written := by
  split
  · rename_i further
    have further : b.count < start + written := further
    simp only [finish, if_pos further]
    rfl
  · rename_i covered
    have covered : ¬ b.count < start + written := covered
    simp only [finish, if_neg covered]
    rfl

theorem setMatrix_finish (b : InstanceBuffer) (start written index : Nat) (matrix : Mat4 Single) :
    (b.finish start written).setMatrix index matrix =
      (b.setMatrix index matrix).finish start written := by
  simp only [finish, setMatrix, capacity, Array.size_setIfInBounds]

theorem finish_finish (b : InstanceBuffer) (start m n : Nat) :
    (b.finish start m).finish (start + m) n = b.finish start (m + n) := by
  have count : (b.finish start m |>.finish (start + m) n).count =
      (b.finish start (m + n)).count := by
    simp only [finish, capacity]
    split <;> split <;> split <;> omega
  simp only [finish, DirtyRange.mark_mark] at count ⊢
  rw [count]

end InstanceBuffer

namespace Slots

/-- Ends a batch in every buffer. -/
def finish (start written : Nat) (s : Slots) : Slots :=
  ⟨s.mesh.finish start written, s.attributes.mark start written⟩

theorem write_finish (start written : Nat) (s : Slots) (index : Nat) (record : ParticleRecord)
    (now : Single) :
    (s.finish start written).write index record now =
      (s.write index record now).finish start written := by
  rw [write, finish, InstanceBuffer.setMatrix_finish, ParticleAttributes.write_mark]
  rfl

theorem finish_finish (start m n : Nat) (s : Slots) :
    (s.finish start m).finish (start + m) n = s.finish start (m + n) := by
  rw [finish, finish, finish, InstanceBuffer.finish_finish, ParticleAttributes.mark_mark]

/-- Filling the slots after a finished run leaves them as filling all of them at once, except that
the first run is finished. -/
theorem fill_finish {σ ε : Type} {setup : Setup σ ε} {origin : Option (Transform Single)}
    {world : σ} {m : Nat} (passes : setup.Passes origin world m) (cells : σ → Cells)
    (start n : Nat) (s : Slots) :
    let first := fill setup cells origin start m 0 s world
    let next := fill (fun i => setup (m + i)) cells origin (start + m) n 0
      (first.slots.finish start m) (setup.worldAt origin world m)
    next.slots = (fill setup cells origin start (m + n) 0 s world).slots.finish start m := by
  intro first next
  rw [← Nat.zero_add m] at passes
  have whole := fill_add cells start n s passes
  rw [Nat.zero_add] at whole
  have mapped : fill setup cells origin start n m (first.slots.finish start m)
      (setup.worldAt origin world m) = _ :=
    fill_map n m first.slots _ (write_finish start m) fun _ => rfl
  calc next.slots
      = (fill setup cells origin start n m (first.slots.finish start m)
          (setup.worldAt origin world m)).slots := slots_fill_shift m n 0 _ _
    _ = (fill setup cells origin start n m first.slots
          (setup.worldAt origin world m)).slots.finish start m := congrArg Filled.slots mapped
    _ = (fill setup cells origin start (m + n) 0 s world).slots.finish start m :=
        congrArg (fun filled => filled.slots.finish start m) whole.symm

end Slots

namespace Spawner

variable {σ ε : Type}

/-- The spawner after a batch has ended. -/
theorem commit_eq_finish (s : Spawner) (slots : Slots) (written discarded : Nat) :
    let stop := s.playhead + written
    let finished := slots.finish s.playhead written
    let wrapped := decide (s.maxParticles ≤ stop)
    s.commit slots written discarded =
      ({ s with
          mesh := finished.mesh
          attributes := some finished.attributes
          playhead := if wrapped then 0 else stop
          stats := s.stats.add written discarded wrapped },
        ⟨s.playhead, written, discarded, wrapped⟩) := by
  unfold commit
  dsimp only [Slots.mark]
  rw [InstanceBuffer.finish_eq]
  rfl

/-- The next batch after one that ends in the ring goes on behind it, in the buffers it has left. -/
theorem commit_of_lt {s : Spawner} {written : Nat} (inside : s.playhead + written < s.maxParticles)
    (slots : Slots) (discarded : Nat) :
    let after := (s.commit slots written discarded).1
    after.playhead = s.playhead + written ∧ after.slots = slots.finish s.playhead written := by
  have unwrapped : ¬ s.maxParticles ≤ s.playhead + written := Nat.not_le_of_lt inside
  simp only [commit_eq_finish, decide_eq_false unwrapped, Bool.false_eq_true, if_false]
  exact ⟨trivial, rfl⟩

/-- A batch that ends in the ring, and another one after it, are committed as one. -/
theorem commit_commit {s : Spawner} {m : Nat} (inside : s.playhead + m < s.maxParticles)
    (first whole : Slots) (n discarded : Nat) :
    let once := s.commit whole (m + n) discarded
    let twice := (s.commit first m 0).1.commit (whole.finish s.playhead m) n discarded
    twice.1 = { once.1 with
        stats := { once.1.stats with batches := once.1.stats.batches + 1 } } ∧
      twice.2.wrapped = once.2.wrapped := by
  have unwrapped : ¬ s.maxParticles ≤ s.playhead + m := Nat.not_le_of_lt inside
  simp only [commit_eq_finish, decide_eq_false unwrapped, Bool.false_eq_true, if_false,
    Slots.finish_finish, Nat.add_assoc, SpawnerStats.add_add, Nat.zero_add]
  exact ⟨rfl, trivial⟩

/-- The batch after one that ends in the ring fills the slots that one batch would fill after
those. -/
theorem trySpawn_next {setup : Setup σ ε} (total : setup.Total) {s : Spawner} {a b n : Nat}
    (inside : s.playhead + a < s.maxParticles)
    (room : min b (s.slotCount - (s.playhead + a)) = n) (origin : Option (Transform Single))
    (cells : σ → Cells) (world : σ) :
    let filled (n : Nat) := (Slots.fill setup cells origin s.playhead n 0 s.slots world).slots
    let after := (s.commit (filled a) a 0).1
    let committed := after.commit ((filled (a + n)).finish s.playhead a) n (b - n)
    after.trySpawn b origin (fun i => setup (a + i)) cells (setup.worldAt origin world a) =
      (.ok committed.2, committed.1, setup.worldAt origin world (a + n)) := by
  intro filled after committed
  obtain ⟨playhead, slots⟩ : after.playhead = s.playhead + a ∧
      after.slots = (filled a).finish s.playhead a := commit_of_lt inside (filled a) 0
  have passes : Setup.Passes (fun i => setup (a + i)) origin (setup.worldAt origin world a) n :=
    fun i _ => total (a + i) _ _
  have behind : min b (after.slotCount - after.playhead) = n := by
    rw [playhead]
    exact room
  have spawned := trySpawn_of_passes cells behind passes
  have finished := Slots.fill_finish (total.passes origin world a) cells s.playhead n s.slots
  dsimp only at spawned finished
  rw [playhead, slots, Setup.worldAt_shift, finished] at spawned
  exact spawned

/-- Spawning two batches one after another, the first of which ends in the ring, is spawning one,
but for the number of batches. The second setup counts on where the first has ended, and is called
in the surroundings, and so at the time, that the first batch has left. -/
theorem split_batch {setup : Setup σ ε} (total : setup.Total) {s : Spawner} {a : Nat}
    (inside : s.playhead + a < s.maxParticles) (b : Nat) (origin : Option (Transform Single))
    (cells : σ → Cells) (world : σ) :
    let first := s.trySpawn a origin setup cells world
    let second := first.2.1.trySpawn b origin (fun i => setup (a + i)) cells first.2.2
    let once := s.trySpawn (a + b) origin setup cells world
    second.2.1 = { once.2.1 with
      stats := { once.2.1.stats with batches := once.2.1.stats.batches + 1 } } ∧
    second.2.2 = once.2.2 ∧
    ∃ report₁ report₂ report, first.1 = .ok report₁ ∧ second.1 = .ok report₂ ∧
      once.1 = .ok report ∧
      report₁.written + report₂.written = report.written ∧
      report₁.discarded + report₂.discarded = report.discarded ∧
      report₂.wrapped = report.wrapped := by
  intro first second once
  have ring : s.maxParticles ≤ s.slotCount := Nat.le_add_right ..
  generalize room : min b (s.slotCount - (s.playhead + a)) = n
  have room_first : min a (s.slotCount - s.playhead) = a := by omega
  have room_once : min (a + b) (s.slotCount - s.playhead) = a + n := by omega
  let filled (n : Nat) := (Slots.fill setup cells origin s.playhead n 0 s.slots world).slots
  let after := s.commit (filled a) a 0
  let next := after.1.commit ((filled (a + n)).finish s.playhead a) n (b - n)
  let whole := s.commit (filled (a + n)) (a + n) (b - n)
  have first_eq : first = (.ok after.2, after.1, setup.worldAt origin world a) := by
    have spawned := trySpawn_of_passes cells room_first (total.passes origin world a)
    rwa [Nat.sub_self] at spawned
  have second_eq : second = (.ok next.2, next.1, setup.worldAt origin world (a + n)) := by
    unfold second
    rw [first_eq]
    exact trySpawn_next total inside room origin cells world
  have once_eq : once = (.ok whole.2, whole.1, setup.worldAt origin world (a + n)) := by
    have spawned := trySpawn_of_passes cells room_once (total.passes origin world (a + n))
    rwa [Nat.add_sub_add_left] at spawned
  obtain ⟨state, wrapped⟩ := commit_commit inside (filled a) (filled (a + n)) n (b - n)
  rw [first_eq, second_eq, once_eq]
  exact ⟨state, rfl, _, _, _, rfl, rfl, rfl, rfl, Nat.zero_add _, wrapped⟩

/-- Seven particles from the first slot on, split behind the second one. Five have room. -/
theorem split_batch_past_margin :
    let cells (_ : Unit) := Cells.empty
    let first := smallRing.trySpawn 2 none aging cells ()
    let second := first.2.1.trySpawn 5 none (fun i => aging (2 + i)) cells first.2.2
    let once := smallRing.trySpawn 7 none aging cells ()
    aging.Total ∧ smallRing.playhead + 2 < smallRing.maxParticles ∧
    first.1 = .ok ⟨0, 2, 0, false⟩ ∧ second.1 = .ok ⟨2, 3, 2, true⟩ ∧
    once.1 = .ok ⟨0, 5, 2, true⟩ ∧
    second.2.1.slots = once.2.1.slots ∧ second.2.1.stats.wraps = 1 ∧
    once.2.1.stats.batches = 1 ∧ second.2.1.stats.batches = 2 := by
  intro cells first second once
  have inside : smallRing.playhead + 2 < smallRing.maxParticles := by decide
  obtain ⟨state, _⟩ := split_batch total_aging inside 5 none cells ()
  have batches : once.2.1.stats.batches = 1 := by decide +kernel
  have wraps : once.2.1.stats.wraps = 1 := by decide +kernel
  refine ⟨total_aging, inside, rfl, rfl, rfl, (congrArg slots state).trans rfl, ?_, batches, ?_⟩
  · exact (congrArg (·.stats.wraps) state).trans wraps
  · exact (congrArg (·.stats.batches) state).trans (congrArg (· + 1) batches)

end Spawner

end ParticleShading
