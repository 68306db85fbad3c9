import ParticleShading.Particle.Emitter
import ParticleShading.Proofs.Particle.Drawn
import Mathlib.Algebra.Ring.Nat

/-!
# What an emitter has emitted

The counts that an emitter gives out are kept in a list that a reset empties.
Whatever the steps in time are, the emitter knows their sum, held at the largest
size, and with a limit the sum never passes it. A spawner splits each count into
the particles it writes and those it discards.
-/

namespace ParticleShading

namespace Spawner

variable {σ ε : Type}

/-- A report accounts for every particle that was asked for. -/
theorem count_of_trySpawn {s : Spawner} {count : Nat} {origin : Option (Transform Single)}
    {setup : Setup σ ε} {cells : σ → Cells} {world : σ} {report : SpawnReport}
    (h : (s.trySpawn count origin setup cells world).1 = .ok report) :
    report.written + report.discarded = count := by
  cases outcome : (s.filled count origin setup cells world).refusal with
  | none =>
    have bounds := Slots.written_fill setup cells origin s.playhead
      (min count (s.slotCount - s.playhead)) 0 s.slots world
    rw [trySpawn_of_accepted outcome] at h
    cases h
    simp only [commit, filled]
    omega
  | some e =>
    rw [trySpawn_of_refused outcome] at h
    cases h

/-- A setup that cannot refuse gets a report. -/
theorem exists_report (s : Spawner) (count : Nat) (origin : Option (Transform Single))
    (setup : Setup σ Empty) (cells : σ → Cells) (world : σ) :
    ∃ report, (s.trySpawn count origin setup cells world).1 = .ok report := by
  cases outcome : (s.trySpawn count origin setup cells world).1 with
  | error impossible => exact impossible.elim
  | ok report => exact ⟨report, rfl⟩

end Spawner

namespace Emitter

/-- The ways to make an emitter. A machine word holds the limit. -/
inductive Made : Emitter → Prop where
  | create {rate : Single} {limit : Option UInt64} {e : Emitter}
      (accepted : Emitter.create rate (limit.map UInt64.toNat) = .ok e) : Made e
  | burst (count : UInt64) : Made (Emitter.burst count.toNat)

/-- What is counted when the particles that are due are asked for. -/
structure Asked (e : Emitter) (count : Nat) (after : Emitter) : Prop where
  rate : after.rate = e.rate
  limit : after.limit = e.limit
  within : count ≤ e.remaining
  emitted : after.emitted = saturatingAdd e.emitted count

variable {e : Emitter} {dt : Single} {limit : Nat}

theorem create_eq_ok {rate : Single} {bound : Option Nat}
    (accepted : Emitter.create rate bound = .ok e) : e = ⟨rate, bound, 0, 0⟩ := by
  unfold Emitter.create at accepted
  split at accepted
  · cases accepted
  · cases accepted
    rfl

theorem Made.emitted (made : e.Made) : e.emitted = 0 := by
  cases made with
  | create accepted => rw [create_eq_ok accepted]
  | burst count => rfl

theorem Made.limit_le (made : e.Made) (limited : e.limit = some limit) : limit ≤ maxSize := by
  have word (n : UInt64) : n.toNat ≤ maxSize := Nat.le_sub_one_of_lt n.toNat_lt
  cases made with
  | create accepted =>
    rw [create_eq_ok accepted] at limited
    obtain ⟨n, _, rfl⟩ := Option.map_eq_some_iff.mp limited
    exact word n
  | burst count =>
    cases limited
    exact word count

theorem remaining_of_limit (limited : e.limit = some limit) :
    e.remaining = limit - e.emitted := by
  rw [remaining, limited]

theorem asked_due (counted : e.emitted ≤ maxSize) (dt : Single) :
    e.Asked (e.due dt).1 (e.due dt).2 := by
  have nothing : e.Asked 0 e :=
    ⟨rfl, rfl, Nat.zero_le _, (saturatingAdd_eq (b := 0) counted).symm⟩
  unfold due
  split
  · exact nothing
  · split
    · exact ⟨rfl, rfl, Nat.le_refl _, rfl⟩
    · split
      · exact nothing
      · exact ⟨rfl, rfl, Nat.min_le_right _ _, rfl⟩

/-- Nothing is due once the limit is reached. -/
theorem due_of_remaining (spent : e.remaining = 0) (dt : Single) : e.due dt = (0, e) :=
  if_pos spent

/-- An infinite rate gives out all that is left. -/
theorem due_of_isInf (infinite : e.rate.isInf = true) (dt : Single) :
    (e.due dt).1 = e.remaining := by
  unfold due
  split
  · rename_i spent
    exact spent.symm
  · rfl

/-- What may happen around an emitter. The spawner may be given other work in between. -/
inductive Call (σ : Type) where
  | due (dt : Single)
  | emit (dt : Single) (origin : Option (Transform Single)) (setup : Setup σ Empty)
  | reset
  | elapse (change : Spawner × σ → Spawner × σ)

/-- What a call has given out: a count, or a count with the report of the spawner and the particles
that were written. -/
inductive Yield where
  | asked (count : Nat)
  | spawned (count : Nat) (outcome : Except Empty SpawnReport) (placed : List Placement)

namespace Yield

def count : Yield → Nat
  | asked count => count
  | spawned count _ _ => count

def placed : Yield → List Placement
  | asked _ => []
  | spawned _ _ placed => placed

/-- The report tells the particles that were written from those that were discarded, and together
they are the count. -/
def Accounted : Yield → Prop
  | asked _ => True
  | spawned count outcome placed => ∃ report, outcome = .ok report ∧
      report.written + report.discarded = count ∧ report.written = placed.length

theorem Accounted.length_le {y : Yield} (accounted : y.Accounted) : y.placed.length ≤ y.count := by
  cases y with
  | asked count => exact Nat.zero_le count
  | spawned count outcome placed =>
    obtain ⟨report, _, total, written⟩ := accounted
    simp only [Yield.placed, Yield.count]
    omega

end Yield

/-- An emitter with a spawner, its surroundings, and what was given out since the last reset. -/
structure Tally (σ : Type) where
  emitter : Emitter
  spawner : Spawner
  world : σ
  yields : List Yield

namespace Tally

variable {σ : Type}

def counts (t : Tally σ) : List Nat := t.yields.map Yield.count

/-- The particles written since the last reset. -/
def placed (t : Tally σ) : List Placement := t.yields.flatMap Yield.placed

def step (cells : σ → Cells) (t : Tally σ) : Call σ → Tally σ
  | .due dt =>
    let (count, emitter) := t.emitter.due dt
    { t with emitter, yields := t.yields ++ [.asked count] }
  | .emit dt origin setup =>
    let count := (t.emitter.due dt).1
    let (emitter, outcome, spawner, world) :=
      t.emitter.emit dt t.spawner origin setup cells t.world
    let placed := t.spawner.placements count origin setup cells t.world
    ⟨emitter, spawner, world, t.yields ++ [.spawned count outcome placed]⟩
  | .reset => { t with emitter := t.emitter.reset, yields := [] }
  | .elapse change =>
    let (spawner, world) := change (t.spawner, t.world)
    { t with spawner, world }

def run (cells : σ → Cells) (e : Emitter) (spawner : Spawner) (world : σ)
    (calls : List (Call σ)) : Tally σ :=
  calls.foldl (step cells) ⟨e, spawner, world, []⟩

/-- What holds between any two calls. -/
structure Valid (e : Emitter) (t : Tally σ) : Prop where
  rate : t.emitter.rate = e.rate
  limit : t.emitter.limit = e.limit
  emitted : t.emitter.emitted = min t.counts.sum maxSize
  within : ∀ limit, e.limit = some limit → t.counts.sum ≤ limit
  accounted : ∀ y ∈ t.yields, y.Accounted

variable {t : Tally σ} {cells : σ → Cells}

/-- One more count, given out by the emitter and accounted for. -/
theorem Valid.yield (v : t.Valid e) (fits : ∀ limit, e.limit = some limit → limit ≤ maxSize)
    {y : Yield} (count : y.count = (t.emitter.due dt).1) (accounted : y.Accounted)
    (spawner : Spawner) (world : σ) :
    Valid e ⟨(t.emitter.due dt).2, spawner, world, t.yields ++ [y]⟩ := by
  have emitted := v.emitted
  have asked := asked_due (e := t.emitter) (by omega) dt
  rw [← count] at asked
  have sum : (counts ⟨(t.emitter.due dt).2, spawner, world, t.yields ++ [y]⟩).sum =
      t.counts.sum + y.count := by
    simp [counts]
  refine ⟨asked.rate.trans v.rate, asked.limit.trans v.limit, ?_, ?_, ?_⟩
  · rw [sum]
    refine asked.emitted.trans ?_
    unfold saturatingAdd
    omega
  · intro limit limited
    rw [sum]
    have within := asked.within
    rw [remaining_of_limit (v.limit.trans limited)] at within
    have := v.within limit limited
    have := fits limit limited
    omega
  · intro other mem
    rcases List.mem_append.mp mem with older | latest
    · exact v.accounted other older
    · cases List.mem_singleton.mp latest
      exact accounted

theorem Valid.step (v : t.Valid e) (fits : ∀ limit, e.limit = some limit → limit ≤ maxSize)
    (call : Call σ) : (t.step cells call).Valid e := by
  cases call with
  | due dt =>
    have accounted : Yield.Accounted (.asked (t.emitter.due dt).1) := trivial
    exact v.yield fits rfl accounted t.spawner t.world
  | emit dt origin setup =>
    obtain ⟨report, reported⟩ :=
      t.spawner.exists_report (t.emitter.due dt).1 origin setup cells t.world
    have accounted : Yield.Accounted (.spawned (t.emitter.due dt).1 _
        (t.spawner.placements (t.emitter.due dt).1 origin setup cells t.world)) :=
      ⟨report, reported, Spawner.count_of_trySpawn reported,
        (Spawner.written_of_trySpawn reported).2⟩
    exact v.yield fits rfl accounted _ _
  | reset => exact ⟨v.rate, v.limit, rfl, fun _ _ => Nat.zero_le _, by simp [Tally.step]⟩
  | elapse change => exact ⟨v.rate, v.limit, v.emitted, v.within, v.accounted⟩

theorem valid_run (made : e.Made) (cells : σ → Cells) (spawner : Spawner) (world : σ)
    (calls : List (Call σ)) : (run cells e spawner world calls).Valid e := by
  have start : Valid e ⟨e, spawner, world, []⟩ :=
    ⟨rfl, rfl, made.emitted, fun _ _ => Nat.zero_le _, by simp⟩
  unfold run
  generalize (⟨e, spawner, world, []⟩ : Tally σ) = t at start ⊢
  induction calls generalizing t with
  | nil => exact start
  | cons call calls ih => exact ih _ (start.step (fun _ => made.limit_le) call)

/-- Where nothing is left, a call other than a reset gives out no count but zero. -/
theorem step_of_remaining (cells : σ → Cells) (spent : t.emitter.remaining = 0) {call : Call σ}
    (going : call ≠ .reset) :
    (t.step cells call).emitter = t.emitter ∧
      ∃ n, (t.step cells call).counts = t.counts ++ List.replicate n 0 := by
  cases call with
  | due dt =>
    simp only [Tally.step, due_of_remaining spent]
    exact ⟨trivial, 1, by simp [counts, Yield.count]⟩
  | emit dt origin setup =>
    simp only [Tally.step, emit, due_of_remaining spent]
    exact ⟨trivial, 1, by simp [counts, Yield.count]⟩
  | reset => exact absurd rfl going
  | elapse change => exact ⟨rfl, 0, by simp [Tally.step, counts]⟩

theorem foldl_of_remaining (spent : t.emitter.remaining = 0) {later : List (Call σ)}
    (going : .reset ∉ later) :
    ∃ n, (later.foldl (step cells) t).counts = t.counts ++ List.replicate n 0 := by
  induction later generalizing t with
  | nil => exact ⟨0, by simp⟩
  | cons call later ih =>
    obtain ⟨other, going⟩ := not_or.mp (mt List.mem_cons.mpr going)
    obtain ⟨same, n, counts⟩ := step_of_remaining cells spent (Ne.symm other)
    obtain ⟨m, more⟩ := ih (t := t.step cells call) (by rw [same]; exact spent) going
    refine ⟨n + m, ?_⟩
    rw [List.foldl_cons, more, counts, List.append_assoc, List.replicate_append_replicate]

theorem length_placed_le (accounted : ∀ y ∈ t.yields, y.Accounted) :
    t.placed.length ≤ t.counts.sum := by
  unfold placed counts
  generalize t.yields = yields at accounted ⊢
  induction yields with
  | nil => exact Nat.le_refl 0
  | cons y yields ih =>
    have first := (accounted y List.mem_cons_self).length_le
    have rest := ih fun other mem => accounted other (List.mem_cons_of_mem _ mem)
    simp only [List.flatMap_cons, List.length_append, List.map_cons, List.sum_cons]
    omega

end Tally

/-- Whatever is asked of an emitter, it counts what it gave out since the last reset, and every
particle of it was written or reported as discarded. A limit is never passed, an infinite rate gives
out all that is left of it at once, and once it is reached nothing more comes until a reset. -/
theorem conserved {σ : Type} (made : e.Made) (cells : σ → Cells) (spawner : Spawner) (world : σ)
    (calls : List (Call σ)) :
    let t := Tally.run cells e spawner world calls
    t.emitter.emitted = min t.counts.sum maxSize ∧
    (∀ y ∈ t.yields, y.Accounted) ∧
    ∀ limit, e.limit = some limit →
      t.emitter.emitted = t.counts.sum ∧ t.emitter.emitted ≤ limit ∧ t.placed.length ≤ limit ∧
      (e.rate.isInf = true → ∀ dt, (t.emitter.due dt).1 = limit - t.emitter.emitted) ∧
      (t.emitter.emitted = limit → ∀ later : List (Call σ), .reset ∉ later →
        ∃ n, (later.foldl (Tally.step cells) t).counts = t.counts ++ List.replicate n 0) := by
  intro t
  have v : t.Valid e := Tally.valid_run made cells spawner world calls
  refine ⟨v.emitted, v.accounted, ?_⟩
  intro limit limited
  have emitted := v.emitted
  have within := v.within limit limited
  have fits := made.limit_le limited
  have remaining := remaining_of_limit (v.limit.trans limited)
  have placed := Tally.length_placed_le v.accounted
  refine ⟨by omega, by omega, by omega, ?_, ?_⟩
  · intro infinite dt
    rw [← remaining]
    exact due_of_isInf (by rw [v.rate]; exact infinite) dt
  · intro reached later going
    exact Tally.foldl_of_remaining (by omega) going

/-- A burst on a step that is no number, one more step, and the same again after a reset. -/
def burstCalls : List (Call Unit) :=
  let setup : Setup Unit Empty := fun _ record world => (.ok record, world)
  [.emit .undefined none setup, .due 1, .reset, .emit .undefined none setup, .due 1]

/-- Seven particles do not fit into the five slots, in either pass. -/
theorem conserved_burst :
    let t := Tally.run (fun _ => .empty) (burst 7) Spawner.smallRing () burstCalls
    t.counts = [7, 0] ∧ t.emitter.emitted = 7 ∧ t.placed.length = 5 ∧
      (∃ y ∈ t.yields, y.count = 7 ∧ y.placed.length = 5 ∧ y.Accounted) ∧
      ∀ dt, (t.emitter.due dt).1 = 0 := by
  intro t
  have made : (burst 7).Made := .burst 7
  have counts : t.counts = [7, 0] := by decide +kernel
  have latest : t.yields.head?.map (fun y => (y.count, y.placed.length)) = some (7, 5) := by
    decide +kernel
  have placed : t.placed.length = 5 := by decide +kernel
  have infinite : (burst 7).rate.isInf = true := by decide +kernel
  obtain ⟨_, accounted, limited⟩ := conserved made (fun _ => .empty) Spawner.smallRing () burstCalls
  obtain ⟨emitted, _, _, rest, _⟩ := limited 7 rfl
  have seven : t.emitter.emitted = 7 := by
    rw [emitted, counts]
    rfl
  obtain ⟨y, first, same⟩ := Option.map_eq_some_iff.mp latest
  have mem : y ∈ t.yields := List.mem_of_head? first
  refine ⟨counts, seven, placed, ⟨y, mem, ?_, ?_, accounted y mem⟩, ?_⟩
  · exact congrArg Prod.fst same
  · exact congrArg Prod.snd same
  · intro dt
    rw [rest infinite dt, seven]

end Emitter

end ParticleShading
