import ParticleShading.Arena
import Mathlib.Data.List.Basic
import Mathlib.Data.List.Induction
import Mathlib.Data.List.Nodup
import Mathlib.Data.List.Range

/-!
# Slots are written once

A fresh arena under calls with any handles, foreign ones included. Handles are
handed out in order, and a slot has the value of the call that created it or of
the first definition after that: which value this is can be told from the calls
alone (`Gives`). What is there is never changed, since an empty slot is the only
one that is filled. The defined slots are listed in the order of their handles.
-/

namespace ParticleShading.Arena

variable {α : Type}

inductive Call (α : Type) where
  | insert (value : α)
  | reserve
  | define (h : Handle) (value : α)

/-- The number of slots that a call creates. -/
def Call.slots : Call α → Nat
  | .insert _ | .reserve => 1
  | .define _ _ => 0

/-- The number of slots that calls create. -/
def created : List (Call α) → Nat
  | [] => 0
  | call :: calls => call.slots + created calls

/-- An arena with the handles that it has handed out, the oldest first. -/
structure Journal (α : Type) where
  arena : Arena α
  issued : List Handle

/-- A definition that is refused leaves the arena as it is. -/
def Journal.step (j : Journal α) : Call α → Journal α
  | .insert value =>
    let (h, arena) := j.arena.insert value
    ⟨arena, j.issued ++ [h]⟩
  | .reserve =>
    let (h, arena) := j.arena.reserve
    ⟨arena, j.issued ++ [h]⟩
  | .define h value =>
    match j.arena.define h value with
    | .ok arena => ⟨arena, j.issued⟩
    | .error _ => j

/-- A fresh arena after some calls. -/
def run (calls : List (Call α)) : Journal α := calls.foldl Journal.step ⟨.empty, []⟩

/-- The handle of a slot was handed out without a value, and nothing was defined under it since. -/
def Reserved (calls : List (Call α)) (h : Handle) : Prop :=
  ∃ before after, calls = before ++ .reserve :: after ∧ (run before).arena.reserve.1 = h ∧
    ∀ value, .define h value ∉ after

/-- The calls give a handle its value: with its slot, or by the first definition of the slot. -/
inductive Gives (calls : List (Call α)) (h : Handle) (value : α) : Prop where
  | insert {before after : List (Call α)} (split : calls = before ++ .insert value :: after)
      (issues : ((run before).arena.insert value).1 = h)
  | define {before after : List (Call α)} (split : calls = before ++ .define h value :: after)
      (first : Reserved before h)

/-! ## One call -/

/-- A slot without a value. -/
def Awaits (a : Arena α) (h : Handle) : Prop := a.contains h = true ∧ a.get? h = none

section Slots

variable {a b : Arena α} {h : Handle} {value : α}

theorem define_eq_error_iff {e : ArenaError} : a.define h value = .error e ↔
    a.size ≤ h.toNat ∧ e = .unknownHandle h.toNat ∨
      (∃ held, a.get? h = some held) ∧ e = .alreadyDefined h.toNat := by
  unfold define get? size
  cases slot : a.slots[h.toNat]? with
  | none =>
    have beyond : a.slots.size ≤ h.toNat := Array.getElem?_eq_none_iff.mp slot
    simp [beyond, eq_comm]
  | some content =>
    have inside : ¬ a.slots.size ≤ h.toNat := by
      have := (Array.getElem?_eq_some_iff.mp slot).1
      omega
    cases content <;> simp [inside, eq_comm]

theorem awaits_of_define (done : a.define h value = .ok b) : Awaits a h := by
  have inside := contains_iff.mp (contains_of_get? (get?_define_self done))
  rw [size_define done] at inside
  exact ⟨contains_iff.mpr inside, get?_of_define done⟩

/-- The handle of the next slot is the one with its position. -/
theorem nextHandle_eq (here : h.toNat = a.size) : a.nextHandle = h := by
  have narrow : a.size < UInt32.size := here ▸ h.index.toNat_lt
  exact Handle.toNat_inj.mp ((toNat_nextHandle narrow).trans here.symm)

theorem get?_insert_self (room : a.size < UInt32.size) (value : α) :
    (a.insert value).2.get? (a.insert value).1 = some value :=
  (get?_insert ..).trans (if_pos (toNat_nextHandle room))

theorem awaits_reserve (room : a.size < UInt32.size) : Awaits a.reserve.2 a.reserve.1 := by
  have index : a.reserve.1.toNat = a.size := toNat_nextHandle room
  constructor
  · rw [contains_iff, size_reserve]
    omega
  · exact (get?_reserve ..).trans (get?_of_size_le (by omega))

end Slots

/-- What a call can do. -/
inductive Move (j : Journal α) : Call α → Journal α → Prop where
  | insert (value : α) :
    Move j (.insert value) ⟨(j.arena.insert value).2, j.issued ++ [j.arena.nextHandle]⟩
  | reserve : Move j .reserve ⟨j.arena.reserve.2, j.issued ++ [j.arena.nextHandle]⟩
  | fill {h : Handle} {value : α} {b : Arena α} (awaits : Awaits j.arena h)
      (done : j.arena.define h value = .ok b) :
    Move j (.define h value) ⟨b, j.issued⟩
  | refuse {h : Handle} (value : α) (full : ¬ Awaits j.arena h) : Move j (.define h value) j

theorem move_step (j : Journal α) (call : Call α) : Move j call (j.step call) := by
  cases call with
  | insert value => exact .insert value
  | reserve => exact .reserve
  | define h value =>
    cases done : j.arena.define h value with
    | ok b =>
      simp only [Journal.step, done]
      exact .fill (awaits_of_define done) done
    | error e =>
      simp only [Journal.step, done]
      refine .refuse value ?_
      rintro ⟨issued, empty⟩
      obtain ⟨b, filled⟩ := exists_define issued empty value
      simp [filled] at done

namespace Move

variable {j j' : Journal α} {h : Handle} {value : α} {call : Call α}

theorem size (move : Move j call j') : j'.arena.size = j.arena.size + call.slots := by
  cases move with
  | insert value => exact size_insert ..
  | reserve => exact size_reserve ..
  | fill _ done => exact size_define done
  | refuse => rfl

theorem issued (move : Move j call j') :
    j'.issued = j.issued ++ List.replicate call.slots j.arena.nextHandle := by
  cases move with
  | insert | reserve => rfl
  | fill | refuse => exact (List.append_nil _).symm

/-- A value stays. -/
theorem held (move : Move j call j') (held : j.arena.get? h = some value) :
    j'.arena.get? h = some value := by
  have inside := contains_iff.mp (contains_of_get? held)
  cases move with
  | insert other => exact (get?_insert ..).trans ((if_neg (by omega)).trans held)
  | reserve => exact (get?_reserve ..).trans held
  | fill _ done => exact held_define done held
  | refuse => exact held

/-- A slot stays empty until something is defined under its handle. -/
theorem awaits (move : Move j call j') (awaits : Awaits j.arena h)
    (other : ∀ value, call ≠ .define h value) : Awaits j'.arena h := by
  obtain ⟨issued, empty⟩ := awaits
  have inside := contains_iff.mp issued
  have size := move.size
  refine ⟨contains_iff.mpr (by omega), ?_⟩
  cases move with
  | insert value => exact (get?_insert ..).trans ((if_neg (by omega)).trans empty)
  | reserve => exact (get?_reserve ..).trans empty
  | @fill k value _ _ done =>
    have apart : h ≠ k := fun same => other value (same ▸ rfl)
    exact (get?_define_of_ne done apart).trans empty
  | refuse => exact empty

/-- A value is there already, or comes with its slot, or fills an empty one. -/
theorem origin (move : Move j call j') (held : j'.arena.get? h = some value) :
    j.arena.get? h = some value ∨ (call = .insert value ∧ j.arena.nextHandle = h) ∨
      call = .define h value ∧ Awaits j.arena h := by
  cases move with
  | insert other =>
    rw [get?_insert] at held
    split at held
    · rename_i here
      cases held
      exact Or.inr (Or.inl ⟨rfl, nextHandle_eq here⟩)
    · exact Or.inl held
  | reserve => exact Or.inl ((get?_reserve j.arena h).symm.trans held)
  | fill awaits done =>
    rw [get?_define done] at held
    split at held
    · rename_i same
      obtain rfl := Handle.toNat_inj.mp same
      cases held
      exact Or.inr (Or.inr ⟨rfl, awaits⟩)
    · exact Or.inl held
  | refuse => exact Or.inl held

/-- An empty slot is a new one that is reserved, or an old one that is not defined now. -/
theorem reserved (move : Move j call j') (awaits : Awaits j'.arena h) :
    (call = .reserve ∧ j.arena.nextHandle = h) ∨
      Awaits j.arena h ∧ ∀ value, call ≠ .define h value := by
  obtain ⟨issued, empty⟩ := awaits
  have inside := contains_iff.mp issued
  have old : j.arena.get? h = none := by
    by_contra held
    obtain ⟨value, held⟩ := Option.ne_none_iff_exists'.mp held
    simp [move.held held] at empty
  rw [move.size] at inside
  have before (within : h.toNat < j.arena.size) : Awaits j.arena h :=
    ⟨contains_iff.mpr within, old⟩
  cases move with
  | insert value =>
    have apart : h.toNat ≠ j.arena.size := by
      intro here
      rw [get?_insert, if_pos here] at empty
      cases empty
    simp only [Call.slots] at inside
    exact Or.inr ⟨before (by omega), by simp⟩
  | reserve =>
    simp only [Call.slots] at inside
    by_cases here : h.toNat = j.arena.size
    · exact Or.inl ⟨rfl, nextHandle_eq here⟩
    · exact Or.inr ⟨before (by omega), by simp⟩
  | fill _ done =>
    refine Or.inr ⟨before inside, ?_⟩
    rintro _ same
    cases same
    rw [get?_define_self done] at empty
    cases empty
  | refuse _ full =>
    refine Or.inr ⟨before inside, ?_⟩
    rintro _ same
    cases same
    exact full (before inside)

end Move

/-! ## Runs -/

section Run

variable {calls before later : List (Call α)} {h : Handle} {value : α}

theorem created_append (calls later : List (Call α)) :
    created (calls ++ later) = created calls + created later := by
  induction calls with
  | nil => exact (Nat.zero_add _).symm
  | cons call calls ih => rw [List.cons_append, created, created, ih, Nat.add_assoc]

theorem created_concat (calls : List (Call α)) (call : Call α) :
    created (calls ++ [call]) = created calls + call.slots := created_append ..

theorem run_append (calls later : List (Call α)) :
    run (calls ++ later) = later.foldl Journal.step (run calls) := List.foldl_append

theorem run_concat (calls : List (Call α)) (call : Call α) :
    run (calls ++ [call]) = (run calls).step call := run_append ..

theorem size_run (calls : List (Call α)) : (run calls).arena.size = created calls := by
  induction calls using List.reverseRecOn with
  | nil => rfl
  | append_singleton calls call ih =>
    rw [run_concat, (move_step _ call).size, ih, created_concat]

theorem held_run (held : (run calls).arena.get? h = some value) (later : List (Call α)) :
    (run (calls ++ later)).arena.get? h = some value := by
  rw [run_append]
  generalize run calls = j at held
  induction later generalizing j with
  | nil => exact held
  | cons call later ih => exact ih _ ((move_step j call).held held)

theorem awaits_run (awaits : Awaits (run calls).arena h)
    (other : ∀ value, .define h value ∉ later) : Awaits (run (calls ++ later)).arena h := by
  rw [run_append]
  generalize run calls = j at awaits
  induction later generalizing j with
  | nil => exact awaits
  | cons call later ih =>
    simp only [List.mem_cons, not_or] at other
    exact ih (fun value => (other value).2) _
      ((move_step j call).awaits awaits fun value => Ne.symm (other value).1)

/-- There is room for every slot that is created. -/
theorem size_lt_of_split {call : Call α} (split : calls = before ++ call :: later)
    (creates : call.slots = 1) (bound : created calls ≤ UInt32.size) :
    (run before).arena.size < UInt32.size := by
  have total : created calls = created before + (call.slots + created later) := by
    rw [split, created_append]
    rfl
  rw [size_run]
  omega

theorem Reserved.awaits (reserved : Reserved calls h) (bound : created calls ≤ UInt32.size) :
    Awaits (run calls).arena h := by
  obtain ⟨before, after, split, issues, other⟩ := reserved
  have room := size_lt_of_split split rfl bound
  have fresh : Awaits (run (before ++ [.reserve])).arena h := by
    rw [run_concat, ← issues]
    exact awaits_reserve room
  rw [split, List.append_cons]
  exact awaits_run fresh other

/-- The value that the calls give is there. -/
theorem Gives.held (gives : Gives calls h value) (bound : created calls ≤ UInt32.size) :
    (run calls).arena.get? h = some value := by
  cases gives with
  | @insert before after split issues =>
    have room := size_lt_of_split split rfl bound
    have fresh : (run (before ++ [.insert value])).arena.get? h = some value := by
      rw [run_concat, ← issues]
      exact get?_insert_self room value
    rw [split, List.append_cons]
    exact held_run fresh after
  | @define before after split first =>
    have earlier : created before ≤ UInt32.size := by
      rw [split, created_append] at bound
      omega
    obtain ⟨issued, empty⟩ := first.awaits earlier
    obtain ⟨b, done⟩ := exists_define issued empty value
    have fresh : (run (before ++ [.define h value])).arena.get? h = some value := by
      simp only [run_concat, Journal.step, done]
      exact get?_define_self done
    rw [split, List.append_cons]
    exact held_run fresh after

theorem Reserved.concat {call : Call α} (reserved : Reserved calls h)
    (other : ∀ value, call ≠ .define h value) : Reserved (calls ++ [call]) h := by
  obtain ⟨before, after, rfl, issues, quiet⟩ := reserved
  refine ⟨before, after ++ [call], by simp, issues, ?_⟩
  intro value mem
  rcases List.mem_append.mp mem with older | latest
  · exact quiet value older
  · exact other value (List.mem_singleton.mp latest).symm

theorem Gives.concat (gives : Gives calls h value) (call : Call α) :
    Gives (calls ++ [call]) h value := by
  cases gives with
  | insert split issues => exact .insert (by rw [split, List.append_assoc, List.cons_append]) issues
  | define split first => exact .define (by rw [split, List.append_assoc, List.cons_append]) first

/-- What the calls say of a slot, from what is in it. -/
structure Explained (calls : List (Call α)) : Prop where
  gives : ∀ h value, (run calls).arena.get? h = some value → Gives calls h value
  reserved : ∀ h, Awaits (run calls).arena h → Reserved calls h

theorem Explained.step (e : Explained calls) (call : Call α) : Explained (calls ++ [call]) := by
  constructor
  · intro h value held
    rw [run_concat] at held
    rcases (move_step _ call).origin held with older | ⟨rfl, issues⟩ | ⟨rfl, awaits⟩
    · exact (e.gives h value older).concat call
    · exact .insert rfl issues
    · exact .define rfl (e.reserved h awaits)
  · intro h awaits
    rw [run_concat] at awaits
    rcases (move_step _ call).reserved awaits with ⟨rfl, issues⟩ | ⟨older, other⟩
    · exact ⟨calls, [], rfl, issues, fun _ => List.not_mem_nil⟩
    · exact (e.reserved h older).concat other

theorem explained_run (calls : List (Call α)) : Explained calls := by
  induction calls using List.reverseRecOn with
  | nil =>
    constructor
    · intro h value held
      simp [run, empty, get?] at held
    · intro h awaits
      exact absurd (contains_iff.mp awaits.1) (Nat.not_lt_zero _)
  | append_singleton calls call ih => exact ih.step call

/-- Handles are handed out in order. -/
theorem issued_run (bound : created calls ≤ UInt32.size) :
    (run calls).issued.map Handle.toNat = List.range (created calls) := by
  induction calls using List.reverseRecOn with
  | nil => rfl
  | append_singleton calls call ih =>
    rw [created_concat] at bound ⊢
    rw [run_concat, (move_step _ call).issued, List.map_append, List.map_replicate, ih (by omega)]
    have slots : call.slots = 0 ∨ call.slots = 1 := by cases call <;> simp [Call.slots]
    rcases slots with none | one
    · rw [none, List.replicate_zero, List.append_nil, Nat.add_zero]
    · have room : (run calls).arena.size < UInt32.size := by
        rw [size_run]
        omega
      rw [one, List.replicate_one, toNat_nextHandle room, size_run, List.range_succ]

theorem mem_issued_iff (bound : created calls ≤ UInt32.size) :
    h ∈ (run calls).issued ↔ h.toNat < created calls := by
  rw [← List.mem_range, ← issued_run bound, List.mem_map]
  constructor
  · intro issued
    exact ⟨h, issued, rfl⟩
  · rintro ⟨other, issued, same⟩
    exact Handle.toNat_inj.mp same ▸ issued

end Run

/-! ## Slots in order -/

section InOrder

variable {a : Arena α} {h : Handle} {value : α}

/-- The position of a slot is the index of its handle. -/
theorem toNat_position (narrow : a.size ≤ UInt32.size) {slot : Option α} {index : Nat}
    (there : a.slots.toList[index]? = some slot) :
    (Handle.mk (UInt32.ofNat index)).toNat = index := by
  have inside : index < a.slots.toList.length := (List.getElem?_eq_some_iff.mp there).1
  exact UInt32.toNat_ofNat_of_lt' (Nat.lt_of_lt_of_le inside narrow)

theorem mem_toList_iff (narrow : a.size ≤ UInt32.size) :
    (h, value) ∈ a.toList ↔ a.get? h = some value := by
  have held : a.get? h = some value ↔ a.slots.toList[h.toNat]? = some (some value) := by
    rw [get?, Array.getElem?_toList]
    cases a.slots[h.toNat]? <;> simp
  simp only [toList, List.mem_filterMap, List.mem_zipIdx_iff_getElem?, Prod.exists, held]
  constructor
  · rintro ⟨slot, index, there, listed⟩
    obtain ⟨content, rfl, same⟩ := Option.map_eq_some_iff.mp listed
    cases same
    rwa [toNat_position narrow there]
  · intro there
    refine ⟨some value, h.toNat, there, ?_⟩
    rw [Option.map_some, Handle.toNat, UInt32.ofNat_toNat]

/-- The listed slots ascend. -/
theorem pairwise_toList (narrow : a.size ≤ UInt32.size) :
    (a.toList.map (·.1.toNat)).Pairwise (· < ·) := by
  have ascending : (a.slots.toList.zipIdx.map Prod.snd).Pairwise (· < ·) := by
    rw [List.zipIdx_map_snd]
    exact List.pairwise_lt_range' ..
  rw [List.pairwise_map, toList, List.pairwise_filterMap]
  refine (List.pairwise_map.mp ascending).imp_of_mem ?_
  rintro ⟨slot, i⟩ ⟨slot', j⟩ at_i at_j before first listed second listed'
  obtain ⟨_, _, rfl⟩ := Option.map_eq_some_iff.mp listed
  obtain ⟨_, _, rfl⟩ := Option.map_eq_some_iff.mp listed'
  rwa [toNat_position narrow (List.mem_zipIdx_iff_getElem?.mp at_i),
    toNat_position narrow (List.mem_zipIdx_iff_getElem?.mp at_j)]

/-- A slot is defined or reserved. -/
theorem length_toList (a : Arena α) : a.toList.length + a.reservedCount = a.size := by
  have defined : a.toList.length = a.slots.toList.countP Option.isSome := by
    rw [toList, List.length_filterMap_eq_countP]
    simp only [Option.isSome_map]
    rw [← Function.comp_def Option.isSome Prod.fst, ← List.countP_map, List.zipIdx_map_fst]
  have reserved : a.reservedCount = a.slots.toList.countP fun slot => ¬ slot.isSome = true := by
    rw [reservedCount, ← Array.countP_toList]
    congr 1
    funext slot
    cases slot <;> rfl
  rw [defined, reserved, ← List.length_eq_countP_add_countP, Array.length_toList, size]

end InOrder

/-- After any calls that create no more slots than there are handles: handles are handed out in
order, so no two are alike; a handle has the value that the calls give to it, from then on, and has
none if it was not handed out; a definition is refused for a handle that was not handed out and for
one with a value, with the error of that kind, and leaves everything as it was; the defined slots
are listed in order with their values, and all other slots are reserved. -/
theorem written_once {calls : List (Call α)} (bound : created calls ≤ UInt32.size) :
    let j := run calls
    (j.issued.map Handle.toNat = List.range (created calls) ∧ j.issued.Nodup) ∧
    ((∀ h value, j.arena.get? h = some value ↔ Gives calls h value) ∧
      (∀ h value, j.arena.get? h = some value →
        ∀ later, (run (calls ++ later)).arena.get? h = some value) ∧
      ∀ h, h ∉ j.issued → j.arena.get? h = none) ∧
    (∀ h value,
      (j.arena.define h value = .error (.unknownHandle h.toNat) ↔ h ∉ j.issued) ∧
      (j.arena.define h value = .error (.alreadyDefined h.toNat) ↔
        ∃ held, j.arena.get? h = some held) ∧
      ∀ e, j.arena.define h value = .error e →
        (e = .unknownHandle h.toNat ∨ e = .alreadyDefined h.toNat) ∧
          run (calls ++ [.define h value]) = j) ∧
    ((∀ h value, (h, value) ∈ j.arena.toList ↔ j.arena.get? h = some value) ∧
      (j.arena.toList.map (·.1.toNat)).Pairwise (· < ·)) ∧
    j.arena.toList.length + j.arena.reservedCount = j.arena.size ∧
      j.arena.size = created calls := by
  intro j
  have narrow : j.arena.size ≤ UInt32.size := (size_run calls).trans_le bound
  have foreign (h : Handle) : h ∉ j.issued ↔ j.arena.size ≤ h.toNat := by
    rw [mem_issued_iff bound, ← size_run calls, Nat.not_lt]
  refine ⟨⟨issued_run bound, ?_⟩, ⟨?_, ?_, ?_⟩, ?_, ⟨?_, ?_⟩, length_toList _, size_run calls⟩
  · exact List.Nodup.of_map _ (issued_run bound ▸ List.nodup_range)
  · intro h value
    exact ⟨(explained_run calls).gives h value, fun gives => gives.held bound⟩
  · intro h value held later
    exact held_run held later
  · intro h unissued
    exact get?_of_size_le ((foreign h).mp unissued)
  · intro h value
    refine ⟨?_, ?_, ?_⟩
    · simp [define_eq_error_iff, foreign]
    · simp [define_eq_error_iff]
    · intro e refused
      constructor
      · rcases define_eq_error_iff.mp refused with ⟨_, unknown⟩ | ⟨_, defined⟩
        · exact Or.inl unknown
        · exact Or.inr defined
      · rw [run_concat]
        have refused : (run calls).arena.define h value = .error e := refused
        simp only [Journal.step, refused]
        rfl
  · exact fun h value => mem_toList_iff narrow
  · exact pairwise_toList narrow

/-- A handle that is tried before it is handed out, one that is defined twice, and one that is still
without a value. -/
def forward : List (Call Nat) :=
  [.reserve, .define ⟨1⟩ 7, .insert 20, .define ⟨0⟩ 30, .define ⟨0⟩ 40, .define ⟨1⟩ 50, .reserve]

theorem written_once_forward :
    created forward ≤ UInt32.size ∧ (run forward).issued.map Handle.toNat = [0, 1, 2] ∧
      Gives forward ⟨0⟩ 30 ∧ Gives forward ⟨1⟩ 20 ∧ ¬ Gives forward ⟨1⟩ 7 ∧
      (run forward).arena.define ⟨0⟩ 60 = .error (.alreadyDefined 0) ∧
      (run forward).arena.define ⟨3⟩ 60 = .error (.unknownHandle 3) ∧
      (run forward).arena.toList = [(⟨0⟩, 30), (⟨1⟩, 20)] ∧
      (run forward).arena.toList.length + (run forward).arena.reservedCount = 3 := by
  have bound : created forward ≤ UInt32.size := by decide
  obtain ⟨⟨issued, _⟩, ⟨gives, _, _⟩, refused, _, counted, size⟩ := written_once bound
  refine ⟨bound, issued, (gives ⟨0⟩ 30).mp rfl, (gives ⟨1⟩ 20).mp rfl, ?_, ?_, ?_, rfl, ?_⟩
  · intro early
    cases (gives ⟨1⟩ 7).mpr early
  · exact (refused ⟨0⟩ 60).2.1.mpr ⟨30, rfl⟩
  · exact (refused ⟨3⟩ 60).1.mpr (by decide)
  · rw [counted, size]
    rfl

end ParticleShading.Arena
