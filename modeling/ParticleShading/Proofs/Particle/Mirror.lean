import ParticleShading.Proofs.Particle.Drawn

/-!
# A renderer's copy

A renderer holds a copy of all buffers and uploads only the windows that await
it. The copy lags behind in dirty items only (`Lags`): a spawn marks what it
changes, and copying the window brings the copy up to date. So every upload
makes the copy exact.
-/

namespace ParticleShading

/-- Copies the floats of a window, which is an offset and a count. -/
def copyWindow (window : Nat × Nat) (source target : List Single) : List Single :=
  target.take window.1 ++ (source.drop window.1).take window.2 ++
    target.drop (window.1 + window.2)

/-- The window lies inside the data, and the copy differs from them only inside the window. -/
structure Covers (window : Nat × Nat) (source target : List Single) : Prop where
  inside : window.1 + window.2 ≤ source.length
  length : target.length = source.length
  outside : ∀ i, target[i]? ≠ source[i]? → window.1 ≤ i ∧ i < window.1 + window.2

/-- Copying a window that covers all differences makes the copy exact. -/
theorem Covers.copyWindow_eq {window : Nat × Nat} {source target : List Single}
    (covers : Covers window source target) : copyWindow window source target = source := by
  obtain ⟨offset, count⟩ := window
  have agree (i : Nat) (apart : ¬ (offset ≤ i ∧ i < offset + count)) : target[i]? = source[i]? :=
    Classical.byContradiction fun differ => apart (covers.outside i differ)
  have before : target.take offset = source.take offset := by
    apply List.ext_getElem?
    intro i
    rw [List.getElem?_take, List.getElem?_take]
    split
    · exact agree i (by omega)
    · rfl
  have behind : target.drop (offset + count) = source.drop (offset + count) := by
    apply List.ext_getElem?
    intro i
    rw [List.getElem?_drop, List.getElem?_drop]
    exact agree _ (by omega)
  calc
    copyWindow (offset, count) source target
      = source.take offset ++ (source.drop offset).take count ++ source.drop (offset + count) := by
        rw [copyWindow, before, behind]
    _ = source := by
        rw [← List.drop_drop, List.append_assoc, List.take_append_drop, List.take_append_drop]

/-- A copy of `count` items that differs from the data in dirty items at most. -/
structure Lags (dirty : DirtyRange) (size count : Nat) (source target : List Single) : Prop where
  bound : dirty.stop ≤ count
  source_length : source.length = count * size
  target_length : target.length = count * size
  stale : ∀ i, target[i]? ≠ source[i]? → dirty.contains (i / size) = true

theorem DirtyRange.stop_mark_le {r : DirtyRange} {offset count bound : Nat}
    (old : r.stop ≤ bound) (new : offset + count ≤ bound) : (r.mark offset count).stop ≤ bound := by
  unfold mark
  split
  · exact old
  · split
    · exact Nat.max_le.mpr ⟨old, new⟩
    · exact new

namespace Lags

variable {dirty : DirtyRange} {size count offset written : Nat} {source changed target : List Single}

theorem refl (length : source.length = count * size) : Lags .clean size count source source := by
  refine ⟨Nat.zero_le count, length, length, ?_⟩
  intro i differ
  exact absurd rfl differ

theorem covers (lags : Lags dirty size count source target) (positive : 0 < size) :
    Covers (dirty.scaled size) source target := by
  constructor
  · rw [lags.source_length, DirtyRange.scaled_end]
    exact Nat.mul_le_mul_right size lags.bound
  · rw [lags.source_length, lags.target_length]
  · intro i differ
    refine (dirty.scaled_iff size i).mpr ⟨i / size, lags.stale i differ, Nat.div_mul_le_self .., ?_⟩
    exact (Nat.div_lt_iff_lt_mul positive).mp (Nat.lt_succ_self _)

/-- Items that change are marked, so the copy still lags behind in dirty items only. -/
theorem write (lags : Lags dirty size count source target) (inside : offset + written ≤ count)
    (length : changed.length = source.length)
    (frame : ∀ i, ¬ (offset ≤ i / size ∧ i / size < offset + written) →
      changed[i]? = source[i]?) :
    Lags (dirty.mark offset written) size count changed target := by
  refine ⟨DirtyRange.stop_mark_le lags.bound inside, length.trans lags.source_length,
    lags.target_length, ?_⟩
  intro i differ
  apply DirtyRange.contains_mark
  by_cases run : offset ≤ i / size ∧ i / size < offset + written
  · exact Or.inr run
  · rw [frame i run] at differ
    exact Or.inl (lags.stale i differ)

end Lags

/-! ## Matrices as floats -/

/-- Pieces of one length laid end to end are read piece by piece. -/
theorem getElem?_flatMap_of_length {α β : Type} {f : α → List β} {size : Nat} (positive : 0 < size)
    (length : ∀ x, (f x).length = size) (xs : List α) (i : Nat) :
    (xs.flatMap f)[i]? = xs[i / size]?.bind fun x => (f x)[i % size]? := by
  induction xs generalizing i with
  | nil => simp
  | cons x xs ih =>
    rw [List.flatMap_cons, List.getElem?_append, length x]
    split
    · rename_i here
      rw [Nat.div_eq_of_lt here, Nat.mod_eq_of_lt here]
      rfl
    · rename_i later
      have shift : i = i - size + size := by omega
      rw [ih, shift, Nat.add_div_right _ positive, Nat.add_mod_right, Nat.add_sub_cancel]
      rfl

theorem length_flatMap_of_length {α β : Type} {f : α → List β} {size : Nat}
    (length : ∀ x, (f x).length = size) (xs : List α) :
    (xs.flatMap f).length = xs.length * size := by
  induction xs with
  | nil => simp
  | cons x xs ih => rw [List.flatMap_cons, List.length_append, ih, length x, List.length_cons,
      Nat.succ_mul, Nat.add_comm]

theorem Mat4.length_toList (m : Mat4 Single) : m.toList.length = matrixItemSize := rfl

theorem InstanceBuffer.getElem?_floats (b : InstanceBuffer) (i : Nat) :
    b.floats[i]? = b.matrices[i / matrixItemSize]?.bind fun m => m.toList[i % matrixItemSize]? := by
  rw [floats, getElem?_flatMap_of_length (by decide) Mat4.length_toList, Array.getElem?_toList]

theorem InstanceBuffer.length_floats (b : InstanceBuffer) :
    b.floats.length = b.capacity * matrixItemSize := by
  have each := length_flatMap_of_length Mat4.length_toList b.matrices.toList
  rwa [Array.length_toList] at each

/-! ## Mirrors -/

/-- A renderer's copy of all buffers. -/
structure Mirror where
  arrays : AttributeKind → List Single
  matrices : List Single

namespace Mirror

/-- Zero items in `slotCount` slots and `capacity` identity matrices. -/
def fresh (slotCount capacity : Nat) : Mirror where
  arrays kind := List.replicate (slotCount * kind.itemSize) 0
  matrices := (List.replicate capacity Mat4.identity).flatMap Mat4.toList

/-- Copies the windows that await upload. Before the first spawn there are only matrices. -/
def upload (m : Mirror) (s : Spawner) : Mirror where
  arrays kind :=
    match s.attributes with
    | none => m.arrays kind
    | some a => copyWindow (a.get kind).updateRange (a.get kind).data.toList (m.arrays kind)
  matrices := copyWindow s.mesh.updateRange s.mesh.floats m.matrices

theorem arrays_upload (m : Mirror) (s : Spawner) (kind : AttributeKind) :
    (m.upload s).arrays kind =
      copyWindow (s.arrays.get kind).updateRange (s.arrays.get kind).data.toList
        (m.arrays kind) := by
  unfold upload Spawner.arrays
  cases s.attributes with
  | some a => rfl
  | none =>
    have window : ((ParticleAttributes.zeros s.maxParticles s.safetySize).get kind).updateRange =
        (0, 0) := by
      rw [ParticleAttributes.get_zeros]
      simp [AttributeArray.updateRange, AttributeArray.zeros, DirtyRange.scaled, DirtyRange.clean,
        DirtyRange.count]
    simp [window, copyWindow]

/-- The copy of every buffer lags behind in dirty items only. -/
structure Follows (m : Mirror) (slotCount : Nat) (s : Spawner) : Prop where
  arrays : ∀ kind, Lags (s.arrays.get kind).dirty kind.itemSize slotCount
    (s.arrays.get kind).data.toList (m.arrays kind)
  matrices : Lags s.mesh.dirty matrixItemSize s.mesh.capacity s.mesh.floats m.matrices

namespace Follows

variable {m : Mirror} {slotCount : Nat} {s after : Spawner} {placed : List Placement}

theorem fresh {capacity maxParticles safetySize : Nat} {time : Option Uniform}
    (created : Spawner.create (.identities capacity time) maxParticles safetySize = .ok s) :
    (fresh (maxParticles + safetySize) capacity).Follows (maxParticles + safetySize) s := by
  obtain ⟨_, _, rfl, arrays⟩ := Spawner.create_eq_ok created
  have matrices : (InstanceBuffer.identities capacity time).floats =
      (List.replicate capacity Mat4.identity).flatMap Mat4.toList := by
    rw [InstanceBuffer.floats, InstanceBuffer.identities, Array.toList_replicate]
  constructor
  · intro kind
    rw [arrays kind, AttributeArray.zeros, Array.toList_replicate]
    exact .refl List.length_replicate
  · change Lags .clean _ (InstanceBuffer.identities capacity time).capacity
      (InstanceBuffer.identities capacity time).floats
      ((List.replicate capacity Mat4.identity).flatMap Mat4.toList)
    rw [← matrices]
    exact .refl (InstanceBuffer.length_floats _)

/-- A spawn marks all that it changes. -/
theorem spawned (follows : m.Follows slotCount s) (sized : s.slots.Sized slotCount)
    (spawned : s.Spawned placed after) (marked : s.Marked placed.length after)
    (room : s.playhead + placed.length ≤ slotCount) : m.Follows slotCount after := by
  have within := spawned.within
  constructor
  · intro kind
    rw [marked.arrays kind]
    refine (follows.arrays kind).write room (within.sizes kind) ?_
    intro i outside
    have floats := within.floats kind i
    rw [sized.kinds kind] at floats
    rw [Array.getElem?_toList, Array.getElem?_toList]
    exact floats outside
  · have capacity : after.mesh.capacity = s.mesh.capacity := within.capacity
    have inside : s.playhead + placed.length ≤ s.mesh.capacity := Nat.le_trans room sized.matrices
    rw [marked.matrices, capacity]
    refine follows.matrices.write inside ?_ ?_
    · rw [InstanceBuffer.length_floats, InstanceBuffer.length_floats, capacity]
    · intro i outside
      rw [InstanceBuffer.getElem?_floats, InstanceBuffer.getElem?_floats]
      exact congrArg (Option.bind · _) (within.matrices _ outside)

theorem covers_arrays (follows : m.Follows slotCount s) (sized : s.slots.Sized slotCount)
    (kind : AttributeKind) :
    Covers (s.arrays.get kind).updateRange (s.arrays.get kind).data.toList (m.arrays kind) := by
  have window : (s.arrays.get kind).updateRange =
      (s.arrays.get kind).dirty.scaled kind.itemSize :=
    congrArg (fun k : AttributeKind => (s.arrays.get kind).dirty.scaled k.itemSize) (sized.kinds kind)
  rw [window]
  exact (follows.arrays kind).covers kind.itemSize_pos

theorem covers_matrices (follows : m.Follows slotCount s) :
    Covers s.mesh.updateRange s.mesh.floats m.matrices :=
  follows.matrices.covers (by decide)

/-- An upload makes the copies exact, and the windows are cleared. -/
theorem uploaded (follows : m.Follows slotCount s) (sized : s.slots.Sized slotCount) :
    (∀ kind, (m.upload s).arrays kind = (s.clearDirty.arrays.get kind).data.toList) ∧
      (m.upload s).matrices = s.clearDirty.mesh.floats ∧
      (m.upload s).Follows slotCount s.clearDirty := by
  have same := s.clearDirty_sameContents
  have data (kind : AttributeKind) :
      (s.clearDirty.arrays.get kind).data = (s.arrays.get kind).data := same.data kind
  have arrays (kind : AttributeKind) :
      (m.upload s).arrays kind = (s.clearDirty.arrays.get kind).data.toList := by
    rw [arrays_upload, data kind]
    exact (follows.covers_arrays sized kind).copyWindow_eq
  have matrices : (m.upload s).matrices = s.clearDirty.mesh.floats :=
    follows.covers_matrices.copyWindow_eq
  have clean (kind : AttributeKind) : (s.clearDirty.arrays.get kind).dirty = .clean := by
    unfold Spawner.clearDirty Spawner.arrays
    cases s.attributes with
    | none => exact congrArg AttributeArray.dirty (ParticleAttributes.get_zeros ..)
    | some a => exact congrArg AttributeArray.dirty (a.get_clear kind)
  refine ⟨arrays, matrices, ?_, ?_⟩
  · intro kind
    rw [arrays kind, clean kind, data kind]
    exact .refl (follows.arrays kind).source_length
  · rw [matrices]
    exact .refl (InstanceBuffer.length_floats _)

end Follows

end Mirror

/-! ## Renderings -/

/-- A history beside the copy that a renderer has of its buffers. -/
structure Rendering (σ : Type) where
  history : Spawner.History σ
  mirror : Mirror

namespace Rendering

open Spawner (Call History)

variable {σ : Type} {s : Spawner} {capacity maxParticles safetySize : Nat}
variable {time : Option Uniform} {cells : σ → Cells} {r : Rendering σ}

/-- The windows are cleared by uploads only: first they are copied, then they are acknowledged. -/
def step (cells : σ → Cells) (r : Rendering σ) (call : Call σ) : Rendering σ where
  history := r.history.step cells call
  mirror :=
    match call with
    | .clearDirty => r.mirror.upload r.history.spawner
    | .spawn _ _ _ | .elapse _ => r.mirror

/-- Makes calls on a spawner that has written nothing yet, beside a fresh copy. -/
def run (cells : σ → Cells) (s : Spawner) (world : σ) (calls : List (Call σ)) : Rendering σ :=
  calls.foldl (step cells) ⟨⟨s, world, []⟩, .fresh s.slotCount s.mesh.capacity⟩

/-- What holds after every call. -/
structure Valid (maxParticles safetySize : Nat) (r : Rendering σ) : Prop where
  history : r.history.Valid maxParticles safetySize
  follows : r.mirror.Follows (maxParticles + safetySize) r.history.spawner

theorem Valid.step (v : r.Valid maxParticles safetySize) (call : Call σ) :
    (r.step cells call).Valid maxParticles safetySize := by
  refine ⟨v.history.step call, ?_⟩
  cases call with
  | spawn count origin setup =>
    have spawned := r.history.spawner.trySpawn_spawned count origin setup cells r.history.world
    have marked := r.history.spawner.trySpawn_marked count origin setup cells r.history.world
    exact v.follows.spawned v.history.sized spawned marked (v.history.room spawned)
  | clearDirty => exact (v.follows.uploaded v.history.sized).2.2
  | elapse change => exact v.follows

theorem valid_run
    (created : Spawner.create (.identities capacity time) maxParticles safetySize = .ok s)
    (cells : σ → Cells) (world : σ) (calls : List (Call σ)) :
    (run cells s world calls).Valid maxParticles safetySize := by
  have sizes : s.slotCount = maxParticles + safetySize ∧ s.mesh.capacity = capacity := by
    obtain ⟨_, _, rfl, _⟩ := Spawner.create_eq_ok created
    exact ⟨rfl, Array.size_replicate⟩
  unfold run
  rw [sizes.1, sizes.2]
  generalize started :
    (⟨⟨s, world, []⟩, .fresh (maxParticles + safetySize) capacity⟩ : Rendering σ) = r
  have v : r.Valid maxParticles safetySize :=
    started ▸ ⟨Spawner.valid_create created world, .fresh created⟩
  clear started
  induction calls generalizing r with
  | nil => exact v
  | cons call calls ih => exact ih _ (v.step call)

/-- Uploading the windows keeps a renderer's copy exact. At any time the window of every buffer
lies inside the buffer and covers all differences of the copy, and an upload leaves none. -/
theorem upload_keeps_exact
    (created : Spawner.create (.identities capacity time) maxParticles safetySize = .ok s)
    (cells : σ → Cells) (world : σ) (calls : List (Call σ)) :
    let r := run cells s world calls
    let spawner := r.history.spawner
    (∀ kind, Covers (spawner.arrays.get kind).updateRange (spawner.arrays.get kind).data.toList
      (r.mirror.arrays kind)) ∧
    Covers spawner.mesh.updateRange spawner.mesh.floats r.mirror.matrices ∧
    let uploaded := r.step cells .clearDirty
    (∀ kind, uploaded.mirror.arrays kind =
      (uploaded.history.spawner.arrays.get kind).data.toList) ∧
    uploaded.mirror.matrices = uploaded.history.spawner.mesh.floats := by
  intro r spawner
  have v : r.Valid maxParticles safetySize := valid_run created cells world calls
  obtain ⟨arrays, matrices, _⟩ := v.follows.uploaded v.history.sized
  exact ⟨v.follows.covers_arrays v.history.sized, v.follows.covers_matrices, arrays, matrices⟩

/-- A batch that the setup refuses in the margin, after an upload of the batch before it. -/
def uploadBetween : List (Call Unit) :=
  [.spawn 2 none Spawner.refusingThird, .clearDirty, .spawn 4 none Spawner.refusingThird]

/-- The copy still has zeros in the slots of the refused batch; the window covers them. -/
theorem upload_keeps_exact_between :
    Spawner.create (.identities 6 none) 3 2 = .ok Spawner.smallRing ∧
      let r := run (fun _ => .empty) Spawner.smallRing () uploadBetween
      let color := r.history.spawner.arrays.get .color0
      color.updateRange = (8, 8) ∧ (r.mirror.arrays .color0)[8]? = some 0 ∧
        color.data.toList[8]? = some 1 ∧
        Covers color.updateRange color.data.toList (r.mirror.arrays .color0) ∧
        (r.step (fun _ => .empty) .clearDirty).mirror.arrays .color0 =
          ((r.step (fun _ => .empty) .clearDirty).history.spawner.arrays.get .color0).data.toList := by
  have created : Spawner.create (.identities 6 none) 3 2 = .ok Spawner.smallRing := rfl
  obtain ⟨arrays, _, exact, _⟩ := upload_keeps_exact created (fun _ => .empty) () uploadBetween
  refine ⟨created, ?_, ?_, ?_, arrays .color0, exact .color0⟩
  · decide +kernel
  · decide +kernel
  · decide +kernel

end Rendering

end ParticleShading
