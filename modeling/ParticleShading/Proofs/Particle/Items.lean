import ParticleShading.Particle.Attributes

/-!
# Items of attribute sets

The arrays of a set are seven lists of items that do not touch each other. A
call reaches the slots of its index only, in the arrays of the kinds that it has
floats for (`Call.sets?`), and an item is what the last call that reached it
left there. Each array is its items laid end to end.
-/

namespace ParticleShading

/-! ## Arrays as items -/

theorem take_eq_flatMap {α : Type} (xs : List α) (size count : Nat) :
    xs.take (count * size) =
      (List.range count).flatMap fun slot => (xs.drop (slot * size)).take size := by
  induction count with
  | zero => simp
  | succ count ih =>
    rw [Nat.succ_mul, List.take_add, ih, List.range_succ, List.flatMap_append,
      List.flatMap_singleton]

namespace AttributeArray

variable {a : AttributeArray} {count : Nat}

theorem capacity_eq (whole : a.data.size = count * a.kind.itemSize) : a.capacity = count := by
  rw [capacity, whole, Nat.mul_div_cancel _ a.kind.itemSize_pos]

/-- An array of whole items is its items, one after another. -/
theorem exists_items (whole : a.data.size = count * a.kind.itemSize) :
    ∃ items : List (List Single), items.length = count ∧ (∀ slot, a.get? slot = items[slot]?) ∧
      a.data.toList = items.flatten := by
  let item (slot : Nat) := (a.data.toList.drop (slot * a.kind.itemSize)).take a.kind.itemSize
  have read (slot : Nat) : (a.data.extract (slot * a.kind.itemSize)
      ((slot + 1) * a.kind.itemSize)).toList = item slot := by
    rw [Array.toList_extract, List.extract_eq_take_drop, Nat.succ_mul, Nat.add_sub_cancel_left]
  refine ⟨(List.range count).map item, by simp, ?_, ?_⟩
  · intro slot
    by_cases inside : slot < count
    · have fits := end_le_size_iff.2 (Nat.lt_of_lt_of_eq inside (capacity_eq whole).symm)
      simp only [get?, if_pos fits, read]
      simp [inside]
    · have beyond : count ≤ slot := Nat.le_of_not_lt inside
      rw [get?_eq_none_iff.2 (Nat.le_trans (Nat.le_of_eq (capacity_eq whole)) beyond),
        List.getElem?_eq_none (by simpa using beyond)]
  · rw [← List.flatMap_def, ← take_eq_flatMap, ← whole, ← Array.length_toList, List.take_length]

end AttributeArray

namespace ParticleAttributes

/-! ## Calls -/

/-- What can be done to the items. -/
inductive Call where
  | set (kind : AttributeKind) (index : Nat) (values : List Single)
  | setXY (kind : AttributeKind) (index : Nat) (x y : Single)
  | setXYZ (kind : AttributeKind) (index : Nat) (x y z : Single)
  | setXYZW (kind : AttributeKind) (index : Nat) (x y z w : Single)
  | write (index : Nat) (record : ParticleRecord) (now : Single)

def step (a : ParticleAttributes) : Call → ParticleAttributes
  | .set kind index values => a.modify kind (·.set index values)
  | .setXY kind index x y => a.modify kind (·.setXY index x y)
  | .setXYZ kind index x y z => a.modify kind (·.setXYZ index x y z)
  | .setXYZW kind index x y z w => a.modify kind (·.setXYZW index x y z w)
  | .write index record now => a.write index record now

/-- A fresh set after some calls. -/
def run (maxParticles safetySize : Nat) (calls : List Call) : ParticleAttributes :=
  calls.foldl step (zeros maxParticles safetySize)

namespace Call

def index : Call → Nat
  | .set _ index _ | .setXY _ index _ _ | .setXYZ _ index _ _ _ | .setXYZW _ index _ _ _ _
  | .write index _ _ => index

/-- The floats that a call has for the array of a kind. -/
def values? (call : Call) (kind : AttributeKind) : Option (List Single) :=
  match call with
  | .set target _ values => if kind = target then some values else none
  | .setXY target _ x y => if kind = target then some [x, y] else none
  | .setXYZ target _ x y z => if kind = target then some [x, y, z] else none
  | .setXYZW target _ x y z w => if kind = target then some [x, y, z, w] else none
  | .write _ record now => some (encode record now kind)

/-- The floats that a call has for one slot of a kind. -/
def sets? (call : Call) (kind : AttributeKind) (slot : Nat) : Option (List Single) :=
  if slot = call.index then call.values? kind else none

/-- The floats of a call are those of a whole item at least; a record has all of them. -/
def Ample : Call → Prop
  | .set kind _ values => kind.itemSize ≤ values.length
  | .setXY kind _ _ _ => kind.itemSize ≤ 2
  | .setXYZ kind _ _ _ _ => kind.itemSize ≤ 3
  | .setXYZW kind _ _ _ _ _ => kind.itemSize ≤ 4
  | .write _ _ _ => True

theorem Ample.le_length {call : Call} {kind : AttributeKind} {values : List Single}
    (ample : call.Ample) (given : call.values? kind = some values) :
    kind.itemSize ≤ values.length := by
  cases call with
  | write index record now =>
    cases given
    exact Nat.le_of_eq (length_encode record now kind).symm
  | _ target =>
    simp only [values?] at given
    split at given
    · rename_i same
      cases given
      exact same ▸ ample
    · cases given

end Call

section Step

variable {a : ParticleAttributes} {call : Call} {kind : AttributeKind} {slot capacity : Nat}
variable {values : List Single}

/-- A call sets its slot in the arrays that it has floats for. -/
theorem get_step (a : ParticleAttributes) (call : Call) (kind : AttributeKind) :
    (a.step call).get kind =
      match call.values? kind with
      | some values => (a.get kind).set call.index values
      | none => a.get kind := by
  cases call with
  | write index record now => exact get_write ..
  | _ target =>
    by_cases same : kind = target <;>
      simp [step, get_modify, Call.values?, Call.index, AttributeArray.setXY,
        AttributeArray.setXYZ, AttributeArray.setXYZW, same]

/-- A slot that a call has no floats for is left alone. -/
theorem get?_step_of_unset (unset : call.sets? kind slot = none) :
    ((a.step call).get kind).get? slot = (a.get kind).get? slot := by
  rw [get_step]
  cases given : call.values? kind with
  | none => rfl
  | some values =>
    have apart : slot ≠ call.index := by
      intro here
      simp [Call.sets?, here, given] at unset
    exact AttributeArray.get?_set_of_ne values apart

theorem kind_step (a : ParticleAttributes) (call : Call) (kind : AttributeKind) :
    ((a.step call).get kind).kind = (a.get kind).kind := by
  rw [get_step]
  cases call.values? kind with
  | none => rfl
  | some values => exact AttributeArray.kind_set ..

theorem size_step (a : ParticleAttributes) (call : Call) (kind : AttributeKind) :
    ((a.step call).get kind).data.size = (a.get kind).data.size := by
  rw [get_step]
  cases call.values? kind with
  | none => rfl
  | some values => exact AttributeArray.size_set ..

theorem dirty_step (a : ParticleAttributes) (call : Call) (kind : AttributeKind) :
    ((a.step call).get kind).dirty = (a.get kind).dirty := by
  rw [get_step]
  cases call.values? kind with
  | none => rfl
  | some values => exact AttributeArray.dirty_set ..

/-- Every kind has its array, of `capacity` items. -/
structure Shaped (a : ParticleAttributes) (capacity : Nat) : Prop where
  kinds : ∀ kind, (a.get kind).kind = kind
  sizes : ∀ kind, (a.get kind).data.size = capacity * kind.itemSize

theorem Shaped.whole (shaped : a.Shaped capacity) (kind : AttributeKind) :
    (a.get kind).data.size = capacity * (a.get kind).kind.itemSize := by
  rw [shaped.sizes kind, shaped.kinds kind]

theorem Shaped.capacity_eq (shaped : a.Shaped capacity) (kind : AttributeKind) :
    (a.get kind).capacity = capacity :=
  AttributeArray.capacity_eq (shaped.whole kind)

theorem Shaped.step (shaped : a.Shaped capacity) (call : Call) : (a.step call).Shaped capacity :=
  ⟨fun kind => (kind_step a call kind).trans (shaped.kinds kind),
    fun kind => (size_step a call kind).trans (shaped.sizes kind)⟩

/-- A slot that a call has floats for reads as the leading ones. -/
theorem Shaped.get?_step (shaped : a.Shaped capacity) (inside : slot < capacity)
    (sets : call.sets? kind slot = some values) (enough : kind.itemSize ≤ values.length) :
    ((a.step call).get kind).get? slot = some (values.take kind.itemSize) := by
  obtain ⟨rfl, given⟩ : slot = call.index ∧ call.values? kind = some values := by
    simpa [Call.sets?] using sets
  have inside : call.index < (a.get kind).capacity := by rwa [shaped.capacity_eq]
  have enough : (a.get kind).kind.itemSize ≤ values.length := by rwa [shaped.kinds]
  rw [get_step, given]
  exact (AttributeArray.get?_set_self inside enough).trans (by rw [shaped.kinds])

theorem modify_eq_self {f : AttributeArray → AttributeArray}
    (same : f (a.get kind) = a.get kind) : a.modify kind f = a := by
  cases kind <;> simp only [modify, get] at same ⊢ <;> rw [same]

/-- Past the end nothing is set. -/
theorem Shaped.step_eq_self (shaped : a.Shaped capacity) (beyond : capacity ≤ call.index) :
    a.step call = a := by
  have unset (kind : AttributeKind) (values : List Single) :
      a.modify kind (·.set call.index values) = a := by
    apply modify_eq_self
    apply AttributeArray.set_of_capacity_le
    rwa [shaped.capacity_eq]
  cases call with
  | write index record now =>
    simp only [Call.index] at unset
    simp only [ParticleAttributes.step, write, AttributeKind.all, List.foldl_cons, List.foldl_nil,
      unset]
  | _ kind => exact unset kind _

end Step

section Run

variable {a : ParticleAttributes} {calls : List Call} {kind : AttributeKind} {slot capacity : Nat}

theorem Shaped.foldl_step (shaped : a.Shaped capacity) (calls : List Call) :
    (calls.foldl ParticleAttributes.step a).Shaped capacity := by
  induction calls generalizing a with
  | nil => exact shaped
  | cons call calls ih => exact ih (shaped.step call)

theorem get?_foldl_of_unset (unset : ∀ call ∈ calls, call.sets? kind slot = none) :
    ((calls.foldl step a).get kind).get? slot = (a.get kind).get? slot := by
  induction calls generalizing a with
  | nil => rfl
  | cons call calls ih =>
    obtain ⟨first, rest⟩ := List.forall_mem_cons.mp unset
    exact (ih rest).trans (get?_step_of_unset first)

theorem shaped_zeros (maxParticles safetySize : Nat) :
    (zeros maxParticles safetySize).Shaped (saturatingAdd maxParticles safetySize) := by
  constructor
  · intro kind
    rw [get_zeros, AttributeArray.zeros]
  · intro kind
    rw [get_zeros, AttributeArray.zeros, Array.size_replicate]

theorem shaped_run (maxParticles safetySize : Nat) (calls : List Call) :
    (run maxParticles safetySize calls).Shaped (saturatingAdd maxParticles safetySize) :=
  (shaped_zeros maxParticles safetySize).foldl_step calls

end Run

/-- After any calls that have whole items for the arrays they reach: a slot below the capacity has
the leading floats of the last call that set it, or zeros; an array has its items one after
another, and none beyond the capacity. A further call changes nothing if its index is not below the
capacity, and else nothing but its slot in the arrays that it has floats for. -/
theorem items_apart {calls : List Call} (ample : ∀ call ∈ calls, call.Ample)
    (maxParticles safetySize : Nat) :
    let capacity := saturatingAdd maxParticles safetySize
    let a := run maxParticles safetySize calls
    (∀ kind slot, slot < capacity →
      ((∀ call ∈ calls, call.sets? kind slot = none) →
        (a.get kind).get? slot = some (List.replicate kind.itemSize 0)) ∧
      ∀ before call after values, calls = before ++ call :: after →
        call.sets? kind slot = some values → (∀ later ∈ after, later.sets? kind slot = none) →
        (a.get kind).get? slot = some (values.take kind.itemSize)) ∧
    (∀ kind, (a.get kind).kind = kind ∧ (a.get kind).data.size = capacity * kind.itemSize ∧
      ∃ items : List (List Single), items.length = capacity ∧
        (∀ slot, (a.get kind).get? slot = items[slot]?) ∧
        (a.get kind).data.toList = items.flatten) ∧
    ∀ call : Call,
      (capacity ≤ call.index → a.step call = a) ∧
      ∀ kind, (call.values? kind = none → (a.step call).get kind = a.get kind) ∧
        ((a.step call).get kind).data.size = (a.get kind).data.size ∧
        ((a.step call).get kind).dirty = (a.get kind).dirty ∧
        ∀ slot, slot ≠ call.index →
          ((a.step call).get kind).get? slot = (a.get kind).get? slot := by
  intro capacity a
  have fresh := shaped_zeros maxParticles safetySize
  have shaped : a.Shaped capacity := shaped_run maxParticles safetySize calls
  refine ⟨?_, ?_, ?_⟩
  · intro kind slot inside
    constructor
    · intro unset
      refine (get?_foldl_of_unset unset).trans ?_
      rw [get_zeros]
      exact AttributeArray.get?_zeros inside
    · intro before call after values split sets unset
      have given : slot = call.index ∧ call.values? kind = some values := by
        simpa [Call.sets?] using sets
      have enough := (ample call (by simp [split])).le_length given.2
      have ran : a =
          after.foldl step ((before.foldl step (zeros maxParticles safetySize)).step call) := by
        simp only [a, run, split, List.foldl_append, List.foldl_cons]
      rw [ran, get?_foldl_of_unset unset]
      exact (fresh.foldl_step before).get?_step inside sets enough
  · intro kind
    exact ⟨shaped.kinds kind, shaped.sizes kind, AttributeArray.exists_items (shaped.whole kind)⟩
  · intro call
    refine ⟨shaped.step_eq_self, ?_⟩
    intro kind
    refine ⟨?_, size_step a call kind, dirty_step a call kind, ?_⟩
    · intro none
      rw [get_step, none]
    · intro slot apart
      exact get?_step_of_unset (if_neg apart)

/-- An item that is set, overwritten with a record and set again, one of another kind, and one past
the end. -/
def mixed : List Call :=
  [.set .velocity 1 [⟨1⟩, ⟨2⟩, ⟨3⟩, ⟨4⟩], .setXY .time 2 ⟨5⟩ ⟨6⟩, .write 1 .standard 0,
    .setXYZ .velocity 1 ⟨7⟩ ⟨8⟩ ⟨9⟩, .setXYZW .color0 3 ⟨1⟩ ⟨1⟩ ⟨1⟩ ⟨1⟩]

theorem items_apart_mixed :
    (∀ call ∈ mixed, call.Ample) ∧
      ((run 2 1 mixed).get .velocity).get? 1 = some [⟨7⟩, ⟨8⟩, ⟨9⟩] ∧
      ((run 2 1 mixed).get .acceleration).get? 1 = some (encode .standard 0 .acceleration) ∧
      ((run 2 1 mixed).get .velocity).get? 2 = some [0, 0, 0] ∧
      ((run 2 1 mixed).get .color0).data.size = 12 ∧
      (run 2 1 mixed).step (.setXY .time 3 ⟨1⟩ ⟨1⟩) = run 2 1 mixed := by
  have ample : ∀ call ∈ mixed, call.Ample := by
    simp only [mixed, List.forall_mem_cons, Call.Ample]
    exact ⟨by decide, by decide, trivial, by decide, by decide, by simp⟩
  obtain ⟨items, arrays, further⟩ := items_apart ample 2 1
  refine ⟨ample, ?_, ?_, ?_, (arrays .color0).2.1, (further (.setXY .time 3 ⟨1⟩ ⟨1⟩)).1 (by decide)⟩
  · exact (items .velocity 1 (by decide)).2 (mixed.take 3) _ (mixed.drop 4) _ rfl rfl (by decide)
  · exact (items .acceleration 1 (by decide)).2 (mixed.take 2) _ (mixed.drop 3) _ rfl rfl
      (by decide)
  · exact (items .velocity 2 (by decide)).1 (by decide)

end ParticleAttributes

end ParticleShading
