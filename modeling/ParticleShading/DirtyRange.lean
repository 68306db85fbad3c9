/-!
# Dirty ranges

One window of modified slots. Marks before an upload merge into the smallest
window around all of them.
-/

namespace ParticleShading

/-- The slots from `start` up to `stop`; nothing is dirty if the two agree. -/
structure DirtyRange where
  start : Nat
  stop : Nat
  start_le_stop : start ≤ stop := by omega
  deriving DecidableEq

namespace DirtyRange

def clean : DirtyRange := ⟨0, 0, Nat.le_refl 0⟩

def isDirty (r : DirtyRange) : Bool := r.start < r.stop

def offset (r : DirtyRange) : Nat := r.start

def count (r : DirtyRange) : Nat := r.stop - r.start

def contains (r : DirtyRange) (index : Nat) : Bool := r.start ≤ index && index < r.stop

/-- Adds `count` slots from `offset` on; an empty mark adds nothing. -/
def mark (r : DirtyRange) (offset count : Nat) : DirtyRange :=
  if count = 0 then r
  else if r.isDirty then
    ⟨min r.start offset, max r.stop (offset + count), by have := r.start_le_stop; omega⟩
  else ⟨offset, offset + count, by omega⟩

/-- The window in scalars, as offset and count, for items of `itemSize`. -/
def scaled (r : DirtyRange) (itemSize : Nat) : Nat × Nat :=
  (r.start * itemSize, r.count * itemSize)

def inspect (r : DirtyRange) : String :=
  "DirtyRange \x7b start: " ++ toString r.start ++ ", end: " ++ toString r.stop ++ " \x7d"

theorem isDirty_iff {r : DirtyRange} : r.isDirty = true ↔ r.start < r.stop := decide_eq_true_iff

theorem contains_iff {r : DirtyRange} {index : Nat} :
    r.contains index = true ↔ r.start ≤ index ∧ index < r.stop := by simp [contains]

@[simp] theorem mark_zero (r : DirtyRange) (offset : Nat) : r.mark offset 0 = r := rfl

theorem isDirty_mark (r : DirtyRange) (offset : Nat) {count : Nat} (h : 0 < count) :
    (r.mark offset count).isDirty = true := by
  unfold mark
  rw [if_neg (by omega)]
  split <;> simp only [isDirty, decide_eq_true_eq] <;> omega

/-- A mark keeps what was marked before it and takes in its own slots. -/
theorem contains_mark {r : DirtyRange} {offset count index : Nat}
    (h : r.contains index = true ∨ offset ≤ index ∧ index < offset + count) :
    (r.mark offset count).contains index = true := by
  unfold mark
  split
  · rename_i hc
    rcases h with h | h
    · exact h
    · omega
  · split <;> simp only [contains_iff, isDirty, decide_eq_true_eq] at * <;> omega

theorem scaled_end (r : DirtyRange) (size : Nat) :
    (r.scaled size).1 + (r.scaled size).2 = r.stop * size := by
  rw [scaled, ← Nat.add_mul, count, Nat.add_sub_cancel' r.start_le_stop]

/-- The scalars of the window are those of the items in the range. -/
theorem scaled_iff (r : DirtyRange) (size scalar : Nat) :
    (r.scaled size).1 ≤ scalar ∧ scalar < (r.scaled size).1 + (r.scaled size).2 ↔
      ∃ index, r.contains index = true ∧ index * size ≤ scalar ∧ scalar < (index + 1) * size := by
  rw [scaled_end]
  simp only [scaled, contains_iff]
  constructor
  · rintro ⟨low, high⟩
    have positive : 0 < size := Nat.pos_of_ne_zero fun zero => by simp [zero] at high
    refine ⟨scalar / size, ⟨?_, ?_⟩, Nat.div_mul_le_self .., ?_⟩
    · exact (Nat.le_div_iff_mul_le positive).mpr low
    · exact (Nat.div_lt_iff_lt_mul positive).mpr high
    · exact (Nat.div_lt_iff_lt_mul positive).mp (Nat.lt_succ_self _)
  · rintro ⟨index, ⟨low, high⟩, from_item, to_item⟩
    exact ⟨Nat.le_trans (Nat.mul_le_mul_right size low) from_item,
      Nat.lt_of_lt_of_le to_item (Nat.mul_le_mul_right size high)⟩

end DirtyRange

end ParticleShading
