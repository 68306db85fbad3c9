import ParticleShading.Proofs.Particle.Moments
import ParticleShading.Proofs.Particle.Ring
import ParticleShading.Proofs.Shader.Storage
import Mathlib.Data.List.Infix

/-!
# Scenes

Compiled shaders, uniforms, spawners and everything that is done with them, in
any order. A handle carries the number of the call that made its storage, and a
scene remembers the declaration behind every cell. So storage is shared exactly
by handles of one call and one name, a handle reads what was written through
these, and a particle is stamped with what its time uniform read when it was
written.
-/

namespace ParticleShading

/-- A particle with the time uniform of its mesh and the writes made until then. -/
structure Stamp where
  placement : Placement
  source : Option Uniform
  before : List Write

/-- A spawner with the particles that it has written, the oldest first. -/
structure Stamped where
  spawner : Spawner
  stamps : List Stamp

/-- A setup that changes cells through handles only. Besides it may change surroundings of any
kind. -/
structure HandleSetup (τ ε : Type) where
  run : Setup (Ledger × τ) ε
  writes : ∀ index record (w : Ledger × τ), w.1.Writes (run index record w).2.1

structure Scene (τ : Type) where
  ledger : Ledger
  world : τ
  /-- The declaration behind every cell, with the number of the call that made the cell. -/
  origins : List (Nat × UniformDeclaration)
  /-- The calls that have made storage. -/
  made : Nat
  handles : List (Nat × Uniform)
  materials : List (Nat × Material)
  spawners : List Stamped

namespace Scene

/-- Where a call takes a handle from. -/
inductive Source where
  | handle (position : Nat)
  | entry (material : Nat) (name : String)

inductive Call (τ : Type) : Type 1 where
  | compile (g : Graph) (config : CompilerConfig) (root : NodeId)
  | declare (d : UniformDeclaration)
  | clone (source : Source)
  | cloneMaterial (material : Nat)
  | write (source : Source) (op : UniformOp)
  | update (material : Nat) (delta : Single)
  | spawner (capacity : Nat) (time : Option Source) (maxParticles safetySize : Nat)
  | spawnerFor (material capacity maxParticles safetySize : Nat)
  | setTime (spawner : Nat) (time : Option Source)
  | spawn {ε : Type} (spawner count : Nat) (origin : Option (Transform Single))
      (setup : HandleSetup τ ε)
  | clearDirty (spawner : Nat)

variable {τ : Type}

def start (world : τ) : Scene τ := ⟨⟨.empty, []⟩, world, [], 0, [], [], []⟩

def find? (s : Scene τ) : Source → Option (Nat × Uniform)
  | .handle position => s.handles[position]?
  | .entry material name =>
    match s.materials[material]? with
    | none => none
    | some (n, m) => (m.uniforms.find? name).map (Prod.mk n)

/-- The handle for a mesh to read the time through. -/
def timeSource (s : Scene τ) (time : Option Source) : Option Uniform :=
  (time.bind s.find?).map (·.2)

/-- Adds a spawner over a mesh that has room for it. -/
def add (s : Scene τ) (mesh : InstanceBuffer) (maxParticles safetySize : Nat) : Scene τ :=
  match Spawner.create mesh maxParticles safetySize with
  | .error _ => s
  | .ok spawner => { s with spawners := s.spawners ++ [⟨spawner, []⟩] }

/-- Spawns a batch, and notes its particles. -/
def spawn {ε : Type} (s : Scene τ) (k : Nat) (p : Stamped) (count : Nat)
    (origin : Option (Transform Single)) (setup : HandleSetup τ ε) : Scene τ :=
  let cells (w : Ledger × τ) := w.1.cells
  let (_, spawner, ledger, world) :=
    p.spawner.trySpawn count origin setup.run cells (s.ledger, s.world)
  let stamps := (p.spawner.moments count origin setup.run cells (s.ledger, s.world)).map
    fun entry => ⟨entry.1, p.spawner.mesh.time, entry.2.1.log⟩
  { s with ledger, world, spawners := s.spawners.set k ⟨spawner, p.stamps ++ stamps⟩ }

def step (s : Scene τ) : Call τ → Scene τ
  | .compile g config root =>
    match g.compile config root with
    | .error _ => s
    | .ok shader =>
      let (m, cells) := Material.allocate shader s.ledger.cells
      { s with
        ledger := { s.ledger with cells }
        origins := s.origins ++ shader.uniforms.map (Prod.mk s.made)
        made := s.made + 1
        materials := s.materials ++ [(s.made, m)] }
  | .declare d =>
    let (u, cells) := Uniform.allocate d s.ledger.cells
    { s with
      ledger := { s.ledger with cells }
      origins := s.origins ++ [d].map (Prod.mk s.made)
      made := s.made + 1
      handles := s.handles ++ [(s.made, u)] }
  | .clone source => { s with handles := s.handles ++ (s.find? source).toList }
  | .cloneMaterial material =>
    { s with materials := s.materials ++ s.materials[material]?.toList }
  | .write source op =>
    match s.find? source with
    | none => s
    | some (_, u) => { s with ledger := s.ledger.write ⟨u, op⟩ }
  | .update material delta =>
    match s.materials[material]? with
    | none => s
    | some (_, m) =>
      { s with ledger := ⟨m.update delta s.ledger.cells,
          s.ledger.log ++ m.uniforms.entries.map fun u => ⟨u, .advance delta⟩⟩ }
  | .spawner capacity time maxParticles safetySize =>
    s.add (.identities capacity (s.timeSource time)) maxParticles safetySize
  | .spawnerFor material capacity maxParticles safetySize =>
    match s.materials[material]? with
    | none => s
    | some (_, m) => s.add (.forMaterial capacity m) maxParticles safetySize
  | .setTime k time =>
    match s.spawners[k]? with
    | none => s
    | some p =>
      let mesh := { p.spawner.mesh with time := s.timeSource time }
      { s with spawners := s.spawners.set k { p with spawner := { p.spawner with mesh } } }
  | .spawn k count origin setup =>
    match s.spawners[k]? with
    | none => s
    | some p => s.spawn k p count origin setup
  | .clearDirty k =>
    match s.spawners[k]? with
    | none => s
    | some p => { s with spawners := s.spawners.set k { p with spawner := p.spawner.clearDirty } }

def run (world : τ) (calls : List (Call τ)) : Scene τ := calls.foldl step (start world)

/-- A handle with the number of the call that made its storage: one that stands alone, or that of a
compiled shader. -/
def Held (s : Scene τ) (n : Nat) (u : Uniform) : Prop :=
  (n, u) ∈ s.handles ∨ ∃ m, (n, m) ∈ s.materials ∧ u ∈ m.uniforms.entries

/-- What a time uniform reads as a number once the given writes have been made; zero without one or
if it is no scalar. -/
def timeAfter (s : Scene τ) (source : Option Uniform) (log : List Write) : Single :=
  (source.bind fun u => s.origins[u.cell]?.bind fun origin =>
    (Write.replay u origin.2.initial log).asFloat?).getD 0

/-! ## What stays -/

/-- Handles are kept, and origins and writes are only added. -/
structure Extends (s s' : Scene τ) : Prop where
  held : ∀ n u, s.Held n u → s'.Held n u
  origins : s.origins <+: s'.origins
  log : s.ledger.log <+: s'.ledger.log

/-- The particle was stamped with the time of its moment, read through a handle of the scene. -/
structure Timed (s : Scene τ) (q : Stamp) : Prop where
  source : ∀ u, q.source = some u → ∃ n, s.Held n u
  before : q.before <+: s.ledger.log
  now : q.placement.now = s.timeAfter q.source q.before

/-- What holds of a spawner of the scene. -/
structure Keeps (s : Scene τ) (p : Stamped) : Prop where
  time : ∀ u, p.spawner.mesh.time = some u → ∃ n, s.Held n u
  history : ∃ maxParticles safetySize, Spawner.History.Valid maxParticles safetySize
    (⟨p.spawner, (), p.stamps.map (·.placement)⟩ : Spawner.History Unit)
  timed : ∀ q ∈ p.stamps, s.Timed q

/-- What holds between any two calls. -/
structure Valid (s : Scene τ) : Prop where
  accurate : s.ledger.Accurate s.origins
  issued : ∀ n u, s.Held n u → ∃ d, s.origins[u.cell]? = some (n, d) ∧ u = d.handle u.cell
  tables : ∀ n m, (n, m) ∈ s.materials → ∀ u ∈ m.uniforms.entries,
    ∃ d ∈ m.shader.uniforms, s.origins[u.cell]? = some (n, d)
  older : ∀ origin ∈ s.origins, origin.1 < s.made
  distinct : ∀ (j k n : Nat) (d e : UniformDeclaration), s.origins[j]? = some (n, d) →
    s.origins[k]? = some (n, e) → d.name = e.name → j = k
  spawners : ∀ p ∈ s.spawners, s.Keeps p

variable {s s' : Scene τ} {p : Stamped} {q : Stamp} {n : Nat} {u : Uniform}

theorem held_of_find? {source : Source} (found : s.find? source = some (n, u)) : s.Held n u := by
  cases source with
  | handle position => exact Or.inl (List.mem_of_getElem? found)
  | entry material name =>
    simp only [find?] at found
    split at found
    · cases found
    · rename_i m m' here
      obtain ⟨v, entry, same⟩ := Option.map_eq_some_iff.mp found
      cases same
      exact Or.inr ⟨m', List.mem_of_getElem? here, List.mem_of_find?_eq_some entry⟩

theorem held_of_timeSource {time : Option Source} (found : s.timeSource time = some u) :
    ∃ n, s.Held n u := by
  obtain ⟨⟨n, v⟩, bound, rfl⟩ := Option.map_eq_some_iff.mp found
  obtain ⟨source, _, here⟩ := Option.bind_eq_some_iff.mp bound
  exact ⟨n, held_of_find? here⟩

theorem Extends.origin (h : s.Extends s') {origin : Nat × UniformDeclaration} {k : Nat}
    (here : s.origins[k]? = some origin) : s'.origins[k]? = some origin := by
  obtain ⟨rest, same⟩ := h.origins
  have inside := (List.getElem?_eq_some_iff.mp here).1
  rw [← same, List.getElem?_append_left inside]
  exact here

theorem Valid.inside (v : s.Valid) (held : s.Held n u) : u.cell < s.ledger.cells.size := by
  obtain ⟨d, origin, _⟩ := v.issued n u held
  rw [v.accurate.size]
  exact (List.getElem?_eq_some_iff.mp origin).1

/-- A time told from the log does not change when the scene goes on. -/
theorem Valid.timed (v : s.Valid) (h : s.Extends s') (timed : s.Timed q) : s'.Timed q := by
  refine ⟨?_, timed.before.trans h.log, timed.now.trans ?_⟩
  · intro u here
    obtain ⟨n, held⟩ := timed.source u here
    exact ⟨n, h.held n u held⟩
  · cases source : q.source with
    | none => rfl
    | some u =>
      obtain ⟨n, held⟩ := timed.source u source
      obtain ⟨d, origin, _⟩ := v.issued n u held
      simp only [timeAfter, Option.bind_some, origin, h.origin origin]

theorem Valid.keeps (v : s.Valid) (h : s.Extends s') (keeps : s.Keeps p) : s'.Keeps p := by
  refine ⟨?_, keeps.history, fun q mem => v.timed h (keeps.timed q mem)⟩
  intro u here
  obtain ⟨n, held⟩ := keeps.time u here
  exact ⟨n, h.held n u held⟩

/-! ## Steps -/

/-- A step that makes no storage: it writes through handles, hands on handles that are there, and
keeps the spawners or puts others in their places. -/
theorem Valid.rearrange (v : s.Valid) (writes : s.ledger.Writes s'.ledger)
    (origins : s'.origins = s.origins) (made : s'.made = s.made)
    (kept : ∀ n u, s.Held n u → s'.Held n u)
    (handles : ∀ n u, (n, u) ∈ s'.handles → s.Held n u)
    (materials : ∀ entry ∈ s'.materials, entry ∈ s.materials)
    (spawners : ∀ p ∈ s'.spawners, p ∈ s.spawners ∨ s'.Keeps p) : s'.Valid := by
  have grown : s.Extends s' := ⟨kept, by rw [origins], writes.log_prefix⟩
  refine ⟨?_, ?_, ?_, ?_, ?_, ?_⟩
  · rw [origins]
    exact v.accurate.writes writes
  · rw [origins]
    rintro n u (alone | ⟨m, listed, entry⟩)
    · exact v.issued n u (handles n u alone)
    · exact v.issued n u (Or.inr ⟨m, materials _ listed, entry⟩)
  · rw [origins]
    exact fun n m listed => v.tables n m (materials _ listed)
  · rw [origins, made]
    exact v.older
  · rw [origins]
    exact v.distinct
  · intro p mem
    rcases spawners p mem with old | new
    · exact v.keeps grown (v.spawners p old)
    · exact new

/-- The handle of a declaration that gets the next cells together with others. -/
def Fresh (s : Scene τ) (declared : List UniformDeclaration) (u : Uniform) : Prop :=
  ∃ (i : Nat) (d : UniformDeclaration), declared[i]? = some d ∧
    u = d.handle (s.origins.length + i)

/-- A step that makes storage for a table of declarations. -/
theorem Valid.allocate (v : s.Valid) {declared : List UniformDeclaration}
    (ordered : UniformDeclaration.Ordered declared)
    (ledger : s'.ledger =
      ⟨⟨s.ledger.cells.values ++ (declared.map (·.initial)).toArray⟩, s.ledger.log⟩)
    (origins : s'.origins = s.origins ++ declared.map (Prod.mk s.made))
    (made : s'.made = s.made + 1) (spawners : s'.spawners = s.spawners)
    (kept : ∀ n u, s.Held n u → s'.Held n u)
    (handles : ∀ n u, (n, u) ∈ s'.handles →
      (n, u) ∈ s.handles ∨ n = s.made ∧ s.Fresh declared u)
    (materials : ∀ n m, (n, m) ∈ s'.materials → (n, m) ∈ s.materials ∨
      n = s.made ∧ m.shader.uniforms = declared ∧
        ∀ u ∈ m.uniforms.entries, s.Fresh declared u) : s'.Valid := by
  have grown : s.Extends s' := by
    refine ⟨kept, ?_, ?_⟩
    · rw [origins]
      exact List.prefix_append _ _
    · rw [ledger]
  have origin {k n : Nat} {d : UniformDeclaration} (here : s'.origins[k]? = some (n, d)) :
      s.origins[k]? = some (n, d) ∧ n < s.made ∨
        s.origins.length ≤ k ∧ declared[k - s.origins.length]? = some d ∧ n = s.made := by
    rw [origins, List.getElem?_append] at here
    split at here
    · exact Or.inl ⟨here, v.older _ (List.mem_of_getElem? here)⟩
    · rename_i outside
      rw [List.getElem?_map, Option.map_eq_some_iff] at here
      obtain ⟨e, at_k, same⟩ := here
      cases same
      exact Or.inr ⟨Nat.le_of_not_lt outside, at_k, rfl⟩
  have fresh {u : Uniform} (h : s.Fresh declared u) :
      ∃ d ∈ declared, s'.origins[u.cell]? = some (s.made, d) ∧ u = d.handle u.cell := by
    obtain ⟨i, d, at_i, rfl⟩ := h
    have cell : (d.handle (s.origins.length + i)).cell = s.origins.length + i := rfl
    refine ⟨d, List.mem_of_getElem? at_i, ?_, rfl⟩
    rw [cell, origins, List.getElem?_append_right (Nat.le_add_right _ _),
      Nat.add_sub_cancel_left, List.getElem?_map, at_i]
    rfl
  have old {n : Nat} {u : Uniform} (held : s.Held n u) :
      ∃ d, s'.origins[u.cell]? = some (n, d) ∧ u = d.handle u.cell := by
    obtain ⟨d, issued, same⟩ := v.issued n u held
    exact ⟨d, grown.origin issued, same⟩
  refine ⟨?_, ?_, ?_, ?_, ?_, ?_⟩
  · rw [ledger, origins]
    exact v.accurate.extend s.made declared
  · rintro n u (alone | ⟨m, listed, entry⟩)
    · rcases handles n u alone with before | ⟨rfl, now⟩
      · exact old (Or.inl before)
      · obtain ⟨d, _, issued⟩ := fresh now
        exact ⟨d, issued⟩
    · rcases materials n m listed with before | ⟨rfl, _, now⟩
      · exact old (Or.inr ⟨m, before, entry⟩)
      · obtain ⟨d, _, issued⟩ := fresh (now u entry)
        exact ⟨d, issued⟩
  · intro n m listed u entry
    rcases materials n m listed with before | ⟨rfl, table, now⟩
    · obtain ⟨d, mem, issued⟩ := v.tables n m before u entry
      exact ⟨d, mem, grown.origin issued⟩
    · obtain ⟨d, mem, issued, _⟩ := fresh (now u entry)
      exact ⟨d, table ▸ mem, issued⟩
  · intro entry mem
    obtain ⟨k, at_k⟩ := List.getElem?_of_mem mem
    rcases origin at_k with ⟨_, earlier⟩ | ⟨_, _, now⟩ <;> omega
  · intro j k n d e at_j at_k same
    rcases origin at_j with ⟨here, earlier⟩ | ⟨outside, new, now⟩
    · rcases origin at_k with ⟨here', _⟩ | ⟨_, _, now⟩
      · exact v.distinct j k n d e here here' same
      · omega
    · rcases origin at_k with ⟨_, earlier⟩ | ⟨outside', new', _⟩
      · omega
      · have := ordered.eq_of_name new new' same
        omega
  · rw [spawners]
    exact fun p mem => v.keeps grown (v.spawners p mem)

/-- A step that changes spawners only. -/
theorem Valid.withSpawners (v : s.Valid) {spawners : List Stamped}
    (keeps : ∀ p ∈ spawners, s.Keeps p) : Valid { s with spawners } := by
  have grown : s.Extends { s with spawners } :=
    ⟨fun _ _ held => held, List.prefix_rfl, List.prefix_rfl⟩
  exact v.rearrange .refl rfl rfl grown.held (fun _ _ => Or.inl) (fun _ => id)
    fun p mem => Or.inr (v.keeps grown (keeps p mem))

/-- A spawner is put in the place of another. -/
theorem Valid.replace (v : s.Valid) (keeps : s.Keeps p) (k : Nat) :
    Valid { s with spawners := s.spawners.set k p } := by
  refine v.withSpawners fun p' mem => ?_
  rcases List.mem_or_eq_of_mem_set mem with old | rfl
  · exact v.spawners p' old
  · exact keeps

theorem Valid.add (v : s.Valid) (capacity maxParticles safetySize : Nat) {time : Option Uniform}
    (held : ∀ u, time = some u → ∃ n, s.Held n u) :
    (s.add (.identities capacity time) maxParticles safetySize).Valid := by
  unfold Scene.add
  cases created : Spawner.create (.identities capacity time) maxParticles safetySize with
  | error e => exact v
  | ok spawner =>
    refine v.withSpawners fun p mem => ?_
    rcases List.mem_append.mp mem with old | new
    · exact v.spawners p old
    · cases List.mem_singleton.mp new
      refine ⟨?_, ⟨maxParticles, safetySize, Spawner.valid_create created ()⟩, by simp⟩
      obtain ⟨_, _, rfl, _⟩ := Spawner.create_eq_ok created
      exact held

/-- Replacing the time uniform leaves the particles alone. -/
theorem Keeps.setTime (keeps : s.Keeps p) {time : Option Uniform}
    (held : ∀ u, time = some u → ∃ n, s.Held n u) :
    s.Keeps ⟨{ p.spawner with mesh := { p.spawner.mesh with time } }, p.stamps⟩ := by
  obtain ⟨maxParticles, safetySize, history⟩ := keeps.history
  have same : p.spawner.slots.SameContents
      { p.spawner.slots with mesh := { p.spawner.mesh with time } } :=
    ⟨rfl, fun _ => rfl, fun _ => rfl⟩
  refine ⟨held, ⟨maxParticles, safetySize, ?_⟩, keeps.timed⟩
  exact ⟨history.ringSize, history.marginSize, history.inside, history.sized.congr same,
    history.keeps.congr same, history.ring, history.allocated⟩

theorem Keeps.clearDirty (keeps : s.Keeps p) : s.Keeps ⟨p.spawner.clearDirty, p.stamps⟩ := by
  obtain ⟨maxParticles, safetySize, history⟩ := keeps.history
  have cleared : (Spawner.History.step (fun _ : Unit => .empty) _ .clearDirty).Valid
      maxParticles safetySize := history.step .clearDirty
  exact ⟨keeps.time, ⟨maxParticles, safetySize, cleared⟩, keeps.timed⟩

/-- What a time uniform reads is told by the writes that led there. -/
theorem Valid.currentTime (v : s.Valid) (mesh : InstanceBuffer)
    (held : ∀ u, mesh.time = some u → ∃ n, s.Held n u) {later : Ledger}
    (writes : s.ledger.Writes later) :
    mesh.currentTime later.cells = s.timeAfter mesh.time later.log := by
  unfold InstanceBuffer.currentTime timeAfter
  cases time : mesh.time with
  | none => rfl
  | some u =>
    obtain ⟨n, here⟩ := held u time
    obtain ⟨d, origin, _⟩ := v.issued n u here
    have value := (v.accurate.writes writes).value u n d origin
    simp only [Option.bind_some, origin, Uniform.float?, value]

theorem Valid.spawn {ε : Type} (v : s.Valid) {k : Nat} (here : s.spawners[k]? = some p)
    (count : Nat) (origin : Option (Transform Single)) (setup : HandleSetup τ ε) :
    (s.spawn k p count origin setup).Valid := by
  let cells (w : Ledger × τ) := w.1.cells
  have keeps := v.spawners p (List.mem_of_getElem? here)
  obtain ⟨ended, between⟩ := Slots.moments_between setup.run cells origin p.spawner.playhead
    (R := fun a b => a.1.Writes b.1) (fun _ => .refl) .trans setup.writes
    (min count (p.spawner.slotCount - p.spawner.playhead)) 0 p.spawner.slots (s.ledger, s.world)
  have world := p.spawner.world_trySpawn count origin setup.run cells (s.ledger, s.world)
  have writes : s.ledger.Writes (s.spawn k p count origin setup).ledger := by
    have ledger : (s.spawn k p count origin setup).ledger = _ := congrArg Prod.fst world
    rw [ledger]
    exact ended
  refine v.rearrange writes rfl rfl (fun _ _ => id) (fun _ _ => Or.inl) (fun _ => id) ?_
  intro p' mem
  rcases List.mem_or_eq_of_mem_set mem with old | rfl
  · exact Or.inl old
  right
  have time := p.spawner.time_trySpawn count origin setup.run cells (s.ledger, s.world)
  refine ⟨?_, ?_, ?_⟩
  · intro u source
    exact keeps.time u (time.symm.trans source)
  · obtain ⟨maxParticles, safetySize, history⟩ := keeps.history
    refine ⟨maxParticles, safetySize, ?_⟩
    have placed := p.spawner.map_moments count origin setup.run cells (s.ledger, s.world)
    have spawned := p.spawner.trySpawn_spawned count origin setup.run cells (s.ledger, s.world)
    rw [List.map_append, List.map_map]
    exact placed ▸ history.spawned spawned
  · intro q mem
    rcases List.mem_append.mp mem with old | new
    · have grown : s.Extends (s.spawn k p count origin setup) :=
        ⟨fun _ _ held => held, List.prefix_rfl, writes.log_prefix⟩
      exact v.timed grown (keeps.timed q old)
    · obtain ⟨entry, listed, rfl⟩ := List.mem_map.mp new
      obtain ⟨before, after⟩ := between entry listed
      refine ⟨keeps.time, ?_, ?_⟩
      · have ledger : (s.spawn k p count origin setup).ledger = _ := congrArg Prod.fst world
        rw [ledger]
        exact after.log_prefix
      · have now := Slots.now_of_moments setup.run cells origin p.spawner.playhead _ 0
          p.spawner.slots (s.ledger, s.world) entry listed
        exact now.trans (v.currentTime p.spawner.mesh keeps.time before)

theorem Valid.step (v : s.Valid) (call : Call τ) : (s.step call).Valid := by
  cases call with
  | compile g config root =>
    simp only [Scene.step]
    cases compiled : g.compile config root with
    | error e => exact v
    | ok shader =>
      simp only [Material.allocate, UniformTable.allocate_eq]
      refine v.allocate (Graph.uniforms_ordered compiled) rfl rfl rfl rfl ?_
        (fun _ _ => Or.inl) ?_
      · rintro n u (alone | ⟨m, listed, entry⟩)
        · exact Or.inl alone
        · exact Or.inr ⟨m, List.mem_append_left _ listed, entry⟩
      · intro n m listed
        rcases List.mem_append.mp listed with old | new
        · exact Or.inl old
        · cases List.mem_singleton.mp new
          refine Or.inr ⟨rfl, rfl, fun u entry => ?_⟩
          obtain ⟨⟨d, k⟩, zipped, rfl⟩ := List.mem_map.mp entry
          obtain ⟨above, at_k⟩ := List.mk_mem_zipIdx_iff_le_and_getElem?_sub.mp zipped
          refine ⟨_, d, at_k, ?_⟩
          rw [← v.accurate.size, Nat.add_sub_cancel' above]
  | declare d =>
    simp only [Scene.step, Uniform.allocate_eq]
    refine v.allocate (List.pairwise_singleton _ d) rfl rfl rfl rfl ?_ ?_ (fun _ _ => Or.inl)
    · rintro n u (alone | shaded)
      · exact Or.inl (List.mem_append_left _ alone)
      · exact Or.inr shaded
    · intro n u alone
      rcases List.mem_append.mp alone with old | new
      · exact Or.inl old
      · cases List.mem_singleton.mp new
        exact Or.inr ⟨rfl, 0, d, rfl, by rw [v.accurate.size, Nat.add_zero]⟩
  | clone source =>
    refine v.rearrange .refl rfl rfl ?_ ?_ (fun _ => id) (fun p => Or.inl)
    · rintro n u (alone | shaded)
      · exact Or.inl (List.mem_append_left _ alone)
      · exact Or.inr shaded
    · intro n u alone
      rcases List.mem_append.mp alone with old | new
      · exact Or.inl old
      · exact held_of_find? (Option.mem_toList.mp new)
  | cloneMaterial material =>
    refine v.rearrange .refl rfl rfl ?_ (fun _ _ => Or.inl) ?_ (fun p => Or.inl)
    · rintro n u (alone | ⟨m, listed, entry⟩)
      · exact Or.inl alone
      · exact Or.inr ⟨m, List.mem_append_left _ listed, entry⟩
    · intro entry listed
      rcases List.mem_append.mp listed with old | new
      · exact old
      · exact List.mem_of_getElem? (Option.mem_toList.mp new)
  | write source op =>
    simp only [Scene.step]
    cases found : s.find? source with
    | none => exact v
    | some held =>
      have inside := v.inside (held_of_find? found)
      exact v.rearrange (.write .refl inside) rfl rfl (fun _ _ => id) (fun _ _ => Or.inl)
        (fun _ => id) (fun p => Or.inl)
  | update material delta =>
    simp only [Scene.step]
    cases found : s.materials[material]? with
    | none => exact v
    | some shaded =>
      have inside : ∀ u ∈ shaded.2.uniforms.entries, u.cell < s.ledger.cells.size :=
        fun u entry => v.inside (Or.inr ⟨shaded.2, List.mem_of_getElem? found, entry⟩)
      exact v.rearrange (Ledger.writes_advance delta inside) rfl rfl (fun _ _ => id)
        (fun _ _ => Or.inl) (fun _ => id) (fun p => Or.inl)
  | spawner capacity time maxParticles safetySize =>
    exact v.add capacity maxParticles safetySize fun u => held_of_timeSource
  | spawnerFor material capacity maxParticles safetySize =>
    simp only [Scene.step]
    cases found : s.materials[material]? with
    | none => exact v
    | some shaded =>
      refine v.add capacity maxParticles safetySize fun u time => ?_
      exact ⟨shaded.1, Or.inr ⟨shaded.2, List.mem_of_getElem? found,
        List.mem_of_find?_eq_some time⟩⟩
  | setTime k time =>
    simp only [Scene.step]
    cases found : s.spawners[k]? with
    | none => exact v
    | some p =>
      have keeps := v.spawners p (List.mem_of_getElem? found)
      exact v.replace (keeps.setTime fun u => held_of_timeSource) k
  | spawn k count origin setup =>
    simp only [Scene.step]
    cases found : s.spawners[k]? with
    | none => exact v
    | some p => exact v.spawn found count origin setup
  | clearDirty k =>
    simp only [Scene.step]
    cases found : s.spawners[k]? with
    | none => exact v
    | some p => exact v.replace (v.spawners p (List.mem_of_getElem? found)).clearDirty k

theorem valid_start (world : τ) : (start world).Valid := by
  have nothing (n : Nat) (u : Uniform) : ¬ (start world).Held n u := by
    rintro (alone | ⟨m, listed, _⟩)
    · cases alone
    · cases listed
  refine ⟨⟨rfl, by simp [start], by simp [start]⟩, ?_, by simp [start], by simp [start],
    by simp [start], by simp [start]⟩
  intro n u held
  exact absurd held (nothing n u)

theorem valid_run (world : τ) (calls : List (Call τ)) : (run world calls).Valid := by
  unfold run
  generalize started : start world = s
  have v : s.Valid := started ▸ valid_start world
  clear started
  induction calls generalizing s with
  | nil => exact v
  | cons call calls ih => exact ih _ (v.step call)

/-- Storage is shared by handles of one call and one name and by no others. Every handle reads the
initial value of its declaration with the writes to its storage applied in their order. Every
particle was stamped with the time that its mesh read then, and its item says so until another
particle takes its slot. -/
theorem shared_along_handles (world : τ) (calls : List (Call τ)) :
    let s := run world calls
    (∀ n u, s.Held n u → ∃ d, s.origins[u.cell]? = some (n, d) ∧ u = d.handle u.cell ∧
      u.get s.ledger.cells = Write.replay u d.initial s.ledger.log) ∧
    (∀ n m u v, s.Held n u → s.Held m v →
      (u.sharesStorage v = true ↔ n = m ∧ u.name = v.name)) ∧
    (∀ n m, (n, m) ∈ s.materials → ∀ u ∈ m.uniforms.entries,
      ∃ d ∈ m.shader.uniforms, s.origins[u.cell]? = some (n, d)) ∧
    ∀ p ∈ s.spawners, (∀ u, p.spawner.mesh.time = some u → ∃ n, s.Held n u) ∧
      ∀ (j : Nat) (q : Stamp), p.stamps[j]? = some q → s.Timed q ∧
        ((∀ (k : Nat) (r : Stamp), j < k → p.stamps[k]? = some r →
            r.placement.slot ≠ q.placement.slot) →
          (p.spawner.arrays.get .time).get? q.placement.slot =
            some [q.placement.now + q.placement.record.delay,
              q.placement.now + q.placement.record.lifetime]) := by
  intro s
  have valid : s.Valid := valid_run world calls
  refine ⟨?_, ?_, valid.tables, ?_⟩
  · intro n u held
    obtain ⟨d, origin, same⟩ := valid.issued n u held
    exact ⟨d, origin, same, valid.accurate.value u n d origin⟩
  · intro n m u v held held'
    obtain ⟨d, origin, same⟩ := valid.issued n u held
    obtain ⟨e, origin', same'⟩ := valid.issued m v held'
    have name : u.name = d.name := congrArg Uniform.name same
    have name' : v.name = e.name := congrArg Uniform.name same'
    rw [name, name', Uniform.sharesStorage, decide_eq_true_iff]
    constructor
    · intro cell
      rw [cell, origin'] at origin
      cases origin
      exact ⟨rfl, rfl⟩
    · rintro ⟨rfl, names⟩
      exact valid.distinct _ _ n d e origin origin' names
  · intro p mem
    have keeps := valid.spawners p mem
    refine ⟨keeps.time, ?_⟩
    intro j q at_j
    refine ⟨keeps.timed q (List.mem_of_getElem? at_j), ?_⟩
    intro last
    obtain ⟨maxParticles, safetySize, history⟩ := keeps.history
    have held : p.spawner.slots.Holds q.placement := by
      refine history.keeps j q.placement ?_ ?_
      · exact List.getElem?_map.trans (congrArg (Option.map _) at_j)
      · intro k r later at_k
        obtain ⟨r', here, rfl⟩ := Option.map_eq_some_iff.mp (List.getElem?_map.symm.trans at_k)
        exact last k r' later here
    exact held.items .time

/-- A shader that reads the time, compiled twice. The first is copied, a handle is taken from the
copy, and the time is set through it. -/
def twin : List (Call Unit) :=
  let g : Graph := ⟨⟨#[some ⟨Library.time, []⟩]⟩⟩
  let config : CompilerConfig := ⟨[⟨.vertex, "gl_Position = vec4(\x7bvalue\x7d);"⟩], false⟩
  [.compile g config ⟨0⟩, .compile g config ⟨0⟩, .cloneMaterial 0, .clone (.entry 2 "u_time"),
    .write (.handle 0) (.set (.float 2))]

/-- The time of a spawner is set before it writes a particle. -/
def timed : List (Call Unit) :=
  let setup : HandleSetup Unit Empty := ⟨fun _ record w => (.ok record, w), fun _ _ _ => .refl⟩
  [.declare Library.elapsedTime, .spawner 5 (some (.handle 0)) 3 2,
    .write (.handle 0) (.set (.float 2)), .spawn 0 1 none setup]

/-- The two compilations have a time each, and the handle sets that of the first. The particle has
the time that was set. -/
theorem shared_along_handles_twin :
    (let s := run () twin
      ∃ first second handle, s.find? (.entry 0 "u_time") = some (0, first) ∧
        s.find? (.entry 1 "u_time") = some (1, second) ∧
        s.find? (.handle 0) = some (0, handle) ∧
        handle.sharesStorage first = true ∧ handle.sharesStorage second ≠ true ∧
        first.get s.ledger.cells = .float 2 ∧ second.get s.ledger.cells = .float 0) ∧
    let s := run () timed
    ∃ p q, s.spawners[0]? = some p ∧ p.stamps[0]? = some q ∧ s.Timed q ∧ q.placement.now = 2 := by
  constructor
  · have first : (run () twin).find? (.entry 0 "u_time") =
        some (0, Library.elapsedTime.handle 0) := by cbv
    have second : (run () twin).find? (.entry 1 "u_time") =
        some (1, Library.elapsedTime.handle 1) := by cbv
    have handle : (run () twin).find? (.handle 0) =
        some (0, Library.elapsedTime.handle 0) := by cbv
    have value : (Library.elapsedTime.handle 0).get (run () twin).ledger.cells = .float 2 := by cbv
    have other : (Library.elapsedTime.handle 1).get (run () twin).ledger.cells = .float 0 := by cbv
    obtain ⟨_, shared, _⟩ := shared_along_handles () twin
    refine ⟨_, _, _, first, second, handle, ?_, ?_, value, other⟩
    · exact (shared _ _ _ _ (held_of_find? handle) (held_of_find? first)).mpr ⟨rfl, rfl⟩
    · intro same
      cases ((shared _ _ _ _ (held_of_find? handle) (held_of_find? second)).mp same).1
  · have stamped : ((run () timed).spawners[0]?.bind fun p => p.stamps[0]?).map
        (·.placement.now) = some 2 := by decide +kernel
    obtain ⟨q, here, now⟩ := Option.map_eq_some_iff.mp stamped
    obtain ⟨p, at_0, at_q⟩ := Option.bind_eq_some_iff.mp here
    obtain ⟨_, _, _, spawners⟩ := shared_along_handles () timed
    obtain ⟨told, _⟩ := (spawners p (List.mem_of_getElem? at_0)).2 0 q at_q
    exact ⟨p, q, at_0, at_q, told, now⟩

end Scene

end ParticleShading
