import ParticleShading.DirtyRange
import Mathlib.Data.List.Basic
import Mathlib.Data.List.Induction
import Mathlib.Order.Bounds.Basic

/-!
# The hull of the marks

A range begins at the first and ends at the last of the slots marked since the
last clear. Only which marks these are counts: their order does not, nor how
often they were made, and a mark of no slots is none. A mark and a clear keep
the range the hull (`Hull.mark`, `hull_clear`), so it is the hull after every
run.
-/

namespace ParticleShading.DirtyRange

inductive Call where
  | mark (offset count : Nat)
  | clear

def step (r : DirtyRange) : Call → DirtyRange
  | .mark offset count => r.mark offset count
  | .clear => clean

/-- A fresh range after some calls. -/
def run (calls : List Call) : DirtyRange := calls.foldl step clean

/-- Slots were marked, and the range was not cleared since. -/
def Marked (calls : List Call) (offset count : Nat) : Prop :=
  0 < count ∧ ∃ before after, calls = before ++ .mark offset count :: after ∧ .clear ∉ after

/-- Where marks begin. -/
def Offsets (calls : List Call) : Set Nat := {offset | ∃ count, Marked calls offset count}

/-- Where marks end: the slots right behind them. -/
def Stops (calls : List Call) : Set Nat :=
  {stop | ∃ offset count, Marked calls offset count ∧ stop = offset + count}

/-! ## Marks that count -/

section Marked

variable {calls : List Call} {offset count m n : Nat}

theorem concat_eq_split_iff {α : Type} {xs before after : List α} {x y : α} :
    xs ++ [y] = before ++ x :: after ↔
      xs = before ∧ y = x ∧ after = [] ∨
        ∃ later, xs = before ++ x :: later ∧ after = later ++ [y] := by
  rcases List.eq_nil_or_concat' after with rfl | ⟨later, last, rfl⟩
  · simp
  · rw [← List.cons_append, ← List.append_assoc, List.append_singleton_inj]
    simp only [List.append_eq_nil_iff, List.cons_ne_self, and_false, false_or,
      List.append_singleton_inj]
    constructor
    · rintro ⟨rfl, rfl⟩
      exact ⟨later, rfl, rfl, rfl⟩
    · rintro ⟨_, rfl, rfl, rfl⟩
      exact ⟨rfl, rfl⟩

theorem not_marked_clear : ¬ Marked (calls ++ [.clear]) offset count := by
  rintro ⟨_, before, after, split, uncleared⟩
  rcases concat_eq_split_iff.mp split with ⟨_, same, _⟩ | ⟨later, _, rfl⟩
  · cases same
  · exact uncleared (List.mem_append_right _ (List.mem_singleton_self _))

theorem marked_mark_iff : Marked (calls ++ [.mark m n]) offset count ↔
    Marked calls offset count ∨ 0 < n ∧ offset = m ∧ count = n := by
  constructor
  · rintro ⟨some, before, after, split, uncleared⟩
    rcases concat_eq_split_iff.mp split with ⟨_, same, _⟩ | ⟨later, here, rfl⟩
    · cases same
      exact Or.inr ⟨some, rfl, rfl⟩
    · exact Or.inl ⟨some, before, later, here, fun mem => uncleared (List.mem_append_left _ mem)⟩
  · rintro (⟨some, before, after, rfl, uncleared⟩ | ⟨some, rfl, rfl⟩)
    · refine ⟨some, before, after ++ [.mark m n], by simp, ?_⟩
      simpa using uncleared
    · exact ⟨some, calls, [], rfl, List.not_mem_nil⟩

/-- A mark of no slots is none. -/
theorem marked_mark_zero_iff :
    Marked (calls ++ [.mark m 0]) offset count ↔ Marked calls offset count := by
  simp [marked_mark_iff]

theorem offsets_mark (m : Nat) (some : 0 < n) :
    Offsets (calls ++ [.mark m n]) = insert m (Offsets calls) := by
  ext offset
  simp only [Offsets, marked_mark_iff, Set.mem_ofPred_eq, Set.mem_insert_iff, some, true_and,
    exists_or, exists_and_left, exists_eq, and_true]
  exact Or.comm

theorem stops_mark (m : Nat) (some : 0 < n) :
    Stops (calls ++ [.mark m n]) = insert (m + n) (Stops calls) := by
  ext stop
  simp only [Stops, marked_mark_iff, Set.mem_ofPred_eq, Set.mem_insert_iff, some, true_and]
  constructor
  · rintro ⟨offset, count, marked | ⟨rfl, rfl⟩, rfl⟩
    · exact Or.inr ⟨offset, count, marked, rfl⟩
    · exact Or.inl rfl
  · rintro (rfl | ⟨offset, count, marked, rfl⟩)
    · exact ⟨m, n, Or.inr ⟨rfl, rfl⟩, rfl⟩
    · exact ⟨offset, count, Or.inl marked, rfl⟩

end Marked

/-! ## What every run keeps -/

/-- The range is clean if nothing is marked, and else it begins and ends with the marks. -/
structure Hull (calls : List Call) (r : DirtyRange) : Prop where
  clean : (∀ offset count, ¬ Marked calls offset count) → r = clean
  least : ∀ offset count, Marked calls offset count → IsLeast (Offsets calls) r.start
  greatest : ∀ offset count, Marked calls offset count → IsGreatest (Stops calls) r.stop

section Hull

variable {calls : List Call} {r : DirtyRange} {offset count : Nat}

theorem hull_of_not_marked (unmarked : ∀ offset count, ¬ Marked calls offset count) :
    Hull calls .clean :=
  ⟨fun _ => rfl, fun _ _ marked => absurd marked (unmarked _ _),
    fun _ _ marked => absurd marked (unmarked _ _)⟩

/-- Marks lie between the ends. -/
theorem Hull.bounds (hull : Hull calls r) (marked : Marked calls offset count) :
    r.start ≤ offset ∧ offset + count ≤ r.stop :=
  ⟨(hull.least _ _ marked).2 ⟨count, marked⟩,
    (hull.greatest _ _ marked).2 ⟨offset, count, marked, rfl⟩⟩

theorem Hull.isDirty_iff (hull : Hull calls r) :
    r.isDirty = true ↔ ∃ offset count, Marked calls offset count := by
  constructor
  · intro dirty
    by_contra unmarked
    simp only [not_exists] at unmarked
    rw [hull.clean unmarked] at dirty
    cases dirty
  · rintro ⟨offset, count, marked⟩
    have some : 0 < count := marked.1
    have bounds := hull.bounds marked
    exact DirtyRange.isDirty_iff.mpr (by omega)

/-- The ends move out to a mark, or to it if it is the first. -/
theorem Hull.mark (hull : Hull calls r) (m n : Nat) :
    Hull (calls ++ [.mark m n]) (r.mark m n) := by
  rcases Nat.eq_zero_or_pos n with rfl | some
  · rw [mark_zero]
    constructor
    · simpa only [marked_mark_zero_iff] using hull.clean
    · simpa only [Offsets, marked_mark_zero_iff] using hull.least
    · simpa only [Stops, marked_mark_zero_iff] using hull.greatest
  have marked : Marked (calls ++ [.mark m n]) m n := marked_mark_iff.mpr (Or.inr ⟨some, rfl, rfl⟩)
  have ends : IsLeast (insert m (Offsets calls)) (r.mark m n).start ∧
      IsGreatest (insert (m + n) (Stops calls)) (r.mark m n).stop := by
    rw [DirtyRange.mark, if_neg (Nat.ne_of_gt some)]
    by_cases dirty : r.isDirty = true
    · obtain ⟨offset, count, earlier⟩ := hull.isDirty_iff.mp dirty
      rw [if_pos dirty]
      constructor
      · change IsLeast _ (min r.start m)
        rw [min_comm]
        exact (hull.least _ _ earlier).insert m
      · change IsGreatest _ (max r.stop (m + n))
        rw [max_comm]
        exact (hull.greatest _ _ earlier).insert (m + n)
    · have unmarked : ∀ offset count, ¬ Marked calls offset count := by
        simpa only [hull.isDirty_iff, not_exists] using dirty
      have offsets : Offsets calls = ∅ := by simp [Offsets, unmarked]
      have stops : Stops calls = ∅ := by simp [Stops, unmarked]
      rw [if_neg dirty, offsets, stops, insert_empty_eq, insert_empty_eq]
      exact ⟨isLeast_singleton, isGreatest_singleton⟩
  refine ⟨fun unmarked => absurd marked (unmarked m n), ?_, ?_⟩
  · intro _ _ _
    rw [offsets_mark m some]
    exact ends.1
  · intro _ _ _
    rw [stops_mark m some]
    exact ends.2

theorem Hull.step (hull : Hull calls r) (call : Call) : Hull (calls ++ [call]) (r.step call) := by
  cases call with
  | mark offset count => exact hull.mark offset count
  | clear => exact hull_of_not_marked fun _ _ => not_marked_clear

/-- The ends are told by which marks there are. -/
theorem Hull.unique {other : List Call} {r' : DirtyRange} (hull : Hull calls r)
    (hull' : Hull other r')
    (same : ∀ offset count, Marked calls offset count ↔ Marked other offset count) : r = r' := by
  by_cases marked : ∃ offset count, Marked calls offset count
  · obtain ⟨offset, count, marked⟩ := marked
    have offsets : Offsets calls = Offsets other := by simp only [Offsets, same]
    have stops : Stops calls = Stops other := by simp only [Stops, same]
    have start := (hull.least _ _ marked).unique
      (offsets ▸ hull'.least _ _ ((same _ _).mp marked))
    have stop := (hull.greatest _ _ marked).unique
      (stops ▸ hull'.greatest _ _ ((same _ _).mp marked))
    cases r
    cases r'
    cases start
    cases stop
    rfl
  · simp only [not_exists] at marked
    rw [hull.clean marked, hull'.clean fun _ _ mark => marked _ _ ((same _ _).mpr mark)]

/-- The slots between the ends are those from some mark on and before the end of some mark. -/
theorem Hull.contains_iff (hull : Hull calls r) (index : Nat) :
    r.contains index = true ↔
      (∃ offset ∈ Offsets calls, offset ≤ index) ∧ ∃ stop ∈ Stops calls, index < stop := by
  rw [DirtyRange.contains_iff]
  constructor
  · rintro ⟨low, high⟩
    obtain ⟨offset, count, marked⟩ := hull.isDirty_iff.mp (DirtyRange.isDirty_iff.mpr (by omega))
    exact ⟨⟨r.start, (hull.least _ _ marked).1, low⟩, ⟨r.stop, (hull.greatest _ _ marked).1, high⟩⟩
  · rintro ⟨⟨offset, ⟨count, first⟩, low⟩, ⟨_, ⟨offset', count', last, rfl⟩, high⟩⟩
    have before := hull.bounds first
    have behind := hull.bounds last
    omega

end Hull

/-- Two marks after a clear, as of a ring that goes on at its start, and one of no slots between
them. -/
def wrapped : List Call := [.mark 40 7, .clear, .mark 90 10, .mark 200 0, .mark 0 4]

end ParticleShading.DirtyRange
