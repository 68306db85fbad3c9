import ParticleShading.Proofs.Particle.History

/-!
# The ring keeps the newest particles

Slots are revisited in passes: one pass writes consecutive slots from the first
one on and covers at least the ring before the next pass begins. So two
particles in one slot are at least `maxParticles` writes apart, and the newest
`maxParticles` particles are all in their slots.
-/

namespace ParticleShading

variable {σ : Type}

/-! ## Passes -/

/-- A log with one more particle holds the particles it held, and that one. -/
theorem getElem?_concat_cases {log : List Placement} {p q : Placement} {j : Nat}
    (h : (log ++ [p])[j]? = some q) : j < log.length ∧ log[j]? = some q ∨ j = log.length ∧ q = p := by
  rw [List.getElem?_append] at h
  split at h
  · rename_i inside
    exact Or.inl ⟨inside, h⟩
  · rw [List.getElem?_singleton, Option.ite_none_right_eq_some] at h
    obtain ⟨here, same⟩ := h
    exact Or.inr ⟨by omega, (Option.some.inj same).symm⟩

/-- A log of particles whose current pass began after `base` of them and goes on at slot
`cursor`. -/
structure Ring (maxParticles : Nat) (log : List Placement) (base cursor : Nat) : Prop where
  length : base + cursor = log.length
  /-- A particle of the current pass has its place in the pass as its slot; a particle of an
  earlier pass is a whole ring further back. -/
  passes : ∀ (j : Nat) (p : Placement), log[j]? = some p →
    base + p.slot = j ∨ j + maxParticles ≤ base + p.slot
  apart : ∀ (j k : Nat) (p q : Placement), j < k → log[j]? = some p → log[k]? = some q →
    p.slot = q.slot → j + maxParticles ≤ k

namespace Ring

variable {maxParticles base cursor : Nat} {log : List Placement} {p : Placement}

theorem empty (maxParticles : Nat) : Ring maxParticles [] 0 0 := by
  constructor
  · rfl
  · intro j p at_j
    cases at_j
  · intro j k p q _ at_j
    cases at_j

theorem place (ring : Ring maxParticles log base cursor) (here : p.slot = cursor) :
    Ring maxParticles (log ++ [p]) base (cursor + 1) := by
  have length := ring.length
  have current : base + p.slot = log.length := by omega
  constructor
  · rw [List.length_append, List.length_singleton]
    omega
  · intro j q at_j
    rcases getElem?_concat_cases at_j with ⟨_, old⟩ | ⟨rfl, rfl⟩
    · exact ring.passes j q old
    · exact Or.inl current
  · intro j k q r before at_j at_k same
    rcases getElem?_concat_cases at_j with ⟨inside, old⟩ | ⟨rfl, rfl⟩
    · rcases getElem?_concat_cases at_k with ⟨_, old'⟩ | ⟨rfl, rfl⟩
      · exact ring.apart j k q r before old old' same
      · rcases ring.passes j q old with here | earlier <;> omega
    · rcases getElem?_concat_cases at_k with ⟨inside, _⟩ | ⟨rfl, _⟩ <;> omega

/-- Placing particles in consecutive slots from the cursor on. -/
theorem place_all {ps : List Placement} (ring : Ring maxParticles log base cursor)
    (consecutive : ps.map (·.slot) = List.range' cursor ps.length) :
    Ring maxParticles (log ++ ps) base (cursor + ps.length) := by
  induction ps generalizing log cursor with
  | nil => rwa [List.append_nil]
  | cons p ps ih =>
    rw [List.map_cons, List.length_cons, List.range'_succ, List.cons.injEq] at consecutive
    rw [List.append_cons, List.length_cons, ← Nat.add_assoc, Nat.add_right_comm]
    exact ih (ring.place consecutive.1) consecutive.2

/-- A pass that has covered the ring may end. -/
theorem wrap (ring : Ring maxParticles log base cursor) (covered : maxParticles ≤ cursor) :
    Ring maxParticles log log.length 0 := by
  have length := ring.length
  refine ⟨rfl, ?_, ring.apart⟩
  intro j p at_j
  right
  rcases ring.passes j p at_j with here | earlier <;> omega

end Ring

/-! ## Contents -/

namespace Slots

variable {s t : Slots} {p : Placement} {ps log : List Placement} {count : Nat}

/-- Every particle is still there, unless a later one took its slot. -/
def Keeps (s : Slots) (log : List Placement) : Prop :=
  ∀ (j : Nat) (p : Placement), log[j]? = some p →
    (∀ (k : Nat) (q : Placement), j < k → log[k]? = some q → q.slot ≠ p.slot) → s.Holds p

theorem Keeps.congr (keeps : s.Keeps log) (same : s.SameContents t) : t.Keeps log :=
  fun j p at_j last => (keeps j p at_j last).congr same

theorem Keeps.place (keeps : s.Keeps log) (sized : s.Sized count) (inside : p.slot < count) :
    (s.place p).Keeps (log ++ [p]) := by
  intro j q at_j last
  rcases getElem?_concat_cases at_j with ⟨before, old⟩ | ⟨rfl, rfl⟩
  · have apart : p.slot ≠ q.slot := last log.length p before List.getElem?_concat_length
    refine sized.holds_place_of_ne inside (keeps j q old ?_) apart.symm
    intro k r later at_k
    refine last k r later ?_
    rwa [List.getElem?_append_left (List.getElem?_eq_some_iff.mp at_k).1]
  · exact sized.holds_place inside

theorem Keeps.place_all (keeps : s.Keeps log) (sized : s.Sized count)
    (inside : ∀ p ∈ ps, p.slot < count) : (ps.foldl Slots.place s).Keeps (log ++ ps) := by
  induction ps generalizing s log with
  | nil => rwa [List.append_nil]
  | cons p ps ih =>
    rw [List.append_cons]
    exact ih (keeps.place sized (inside p List.mem_cons_self)) (sized.place p)
      fun q mem => inside q (List.mem_cons_of_mem p mem)

end Slots

/-! ## Histories -/

namespace Spawner

variable {s : Spawner} {capacity maxParticles safetySize : Nat} {time : Option Uniform}
variable {cells : σ → Cells} {h : History σ}

/-- What holds after every call. -/
structure History.Valid (maxParticles safetySize : Nat) (h : History σ) : Prop where
  ringSize : h.spawner.maxParticles = maxParticles
  marginSize : h.spawner.safetySize = safetySize
  inside : h.spawner.playhead < maxParticles
  sized : h.spawner.slots.Sized (maxParticles + safetySize)
  keeps : h.spawner.slots.Keeps h.log
  ring : ∃ base, Ring maxParticles h.log base h.spawner.playhead
  allocated : h.log ≠ [] → h.spawner.attributes.isSome

theorem valid_create (created : create (.identities capacity time) maxParticles safetySize = .ok s)
    (world : σ) : History.Valid maxParticles safetySize ⟨s, world, []⟩ := by
  have sized := sized_of_create created
  obtain ⟨positive, _, rfl, _⟩ := create_eq_ok created
  refine ⟨rfl, rfl, positive, sized, ?_, ⟨0, Ring.empty _⟩, fun some => absurd rfl some⟩
  intro j p at_j
  cases at_j

section Spawned

variable {placed : List Placement} {after : Spawner} {world : σ}

/-- A spawn ends inside the ring and its margin. -/
theorem History.Valid.room (v : h.Valid maxParticles safetySize)
    (spawned : h.spawner.Spawned placed after) :
    h.spawner.playhead + placed.length ≤ maxParticles + safetySize := by
  have inside := v.inside
  have slotCount : h.spawner.slotCount = maxParticles + safetySize := by
    rw [Spawner.slotCount, v.ringSize, v.marginSize]
  have room := spawned.room (by omega)
  omega

theorem History.Valid.spawned (v : h.Valid maxParticles safetySize)
    (spawned : h.spawner.Spawned placed after) :
    History.Valid maxParticles safetySize ⟨after, world, h.log ++ placed⟩ := by
  obtain ⟨base, ring⟩ := v.ring
  have inside := v.inside
  have room := v.room spawned
  have slots : ∀ p ∈ placed, p.slot < maxParticles + safetySize := by
    intro p mem
    have here := Placement.slot_mem_of_consecutive spawned.consecutive mem
    omega
  have sized := v.sized.place_all placed
  have keeps := v.keeps.place_all v.sized slots
  have ring := ring.place_all spawned.consecutive
  have playhead := spawned.playhead
  rw [v.ringSize] at playhead
  refine ⟨spawned.maxParticles.trans v.ringSize, spawned.safetySize.trans v.marginSize, ?_,
    sized.congr spawned.contents, keeps.congr spawned.contents, ?_, fun _ => spawned.allocated⟩
  · dsimp only
    rw [playhead]
    split <;> omega
  · dsimp only
    rw [playhead]
    split
    · rename_i covered
      exact ⟨_, ring.wrap covered⟩
    · exact ⟨base, ring⟩

end Spawned

theorem History.Valid.step (v : h.Valid maxParticles safetySize) (call : Call σ) :
    (h.step cells call).Valid maxParticles safetySize := by
  cases call with
  | spawn count origin setup =>
    exact v.spawned (h.spawner.trySpawn_spawned count origin setup cells h.world)
  | clearDirty =>
    have same := h.spawner.clearDirty_sameContents
    refine ⟨v.ringSize, v.marginSize, v.inside, v.sized.congr same, v.keeps.congr same, v.ring,
      ?_⟩
    intro written
    exact Option.isSome_map.trans (v.allocated written)
  | elapse change =>
    exact ⟨v.ringSize, v.marginSize, v.inside, v.sized, v.keeps, v.ring, v.allocated⟩

theorem valid_run (created : create (.identities capacity time) maxParticles safetySize = .ok s)
    (cells : σ → Cells) (world : σ) (calls : List (Call σ)) :
    (History.run cells s world calls).Valid maxParticles safetySize := by
  unfold History.run
  generalize started : (⟨s, world, []⟩ : History σ) = h
  have v : h.Valid maxParticles safetySize := started ▸ valid_create created world
  clear started
  induction calls generalizing h with
  | nil => exact v
  | cons call calls ih => exact ih _ (v.step call)

/-- Of the particles written, the newest `maxParticles` are in their slots, and a particle is
overwritten at the earliest by the one written `maxParticles` later. -/
theorem newest_kept (created : create (.identities capacity time) maxParticles safetySize = .ok s)
    (cells : σ → Cells) (world : σ) (calls : List (Call σ)) :
    let h := History.run cells s world calls
    (∀ (j : Nat) (p : Placement), h.log[j]? = some p → h.log.length - (j + 1) < maxParticles →
      ∃ a, h.spawner.attributes = some a ∧ Slots.Holds ⟨h.spawner.mesh, a⟩ p) ∧
    ∀ (j k : Nat) (p q : Placement), j < k → h.log[j]? = some p → h.log[k]? = some q →
      p.slot = q.slot → j + maxParticles ≤ k := by
  intro h
  have v : h.Valid maxParticles safetySize := valid_run created cells world calls
  obtain ⟨base, ring⟩ := v.ring
  refine ⟨?_, ring.apart⟩
  intro j p at_j recent
  have held : h.spawner.slots.Holds p := by
    refine v.keeps j p at_j ?_
    intro k q later at_k same
    have apart := ring.apart j k p q later at_j at_k same.symm
    have inside := (List.getElem?_eq_some_iff.mp at_k).1
    omega
  have written : h.log ≠ [] := by
    rintro empty
    rw [empty] at at_j
    cases at_j
  obtain ⟨a, allocated⟩ := Option.isSome_iff_exists.mp (v.allocated written)
  refine ⟨a, allocated, ?_⟩
  rwa [slots, arrays, allocated] at held

/-- Particles that live as many seconds as their batch index says. -/
def aging : Setup Unit Empty := fun index record world =>
  (.ok { record with lifetime := Single.ofNat index }, world)

/-- The second batch runs into the margin, and the third begins a new pass. -/
theorem newest_kept_straddle :
    ∃ s, create (.identities 5 none) 3 2 = .ok s ∧
      let h := History.run (fun _ => .empty) s ()
        [.spawn 2 none aging, .clearDirty, .spawn 3 none aging, .spawn 1 none aging]
      h.log.map (·.slot) = [0, 1, 2, 3, 4, 0] ∧
        ∃ p a, h.log[4]? = some p ∧ p.slot = 4 ∧ p.record.lifetime = 2 ∧
          h.spawner.attributes = some a ∧ Slots.Holds ⟨h.spawner.mesh, a⟩ p := by
  have created : create (.identities 5 none) 3 2 =
      .ok ⟨.identities 5 none, 3, 2, none, 0, .zero⟩ := rfl
  refine ⟨_, created, rfl, ?_⟩
  obtain ⟨kept, _⟩ := newest_kept created (fun _ => .empty) ()
    [.spawn 2 none aging, .clearDirty, .spawn 3 none aging, .spawn 1 none aging]
  obtain ⟨a, allocated, held⟩ := kept 4 _ rfl (by decide)
  exact ⟨_, a, rfl, rfl, rfl, allocated, held⟩

end Spawner

end ParticleShading
