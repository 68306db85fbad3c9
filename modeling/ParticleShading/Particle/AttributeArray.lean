import ParticleShading.DirtyRange
import ParticleShading.Particle.Attribute

/-!
# Attribute arrays

One flat array of floats per attribute, an item per slot. An array has a fixed
size and keeps the window of items written since the last upload. Setting a slot
changes that slot and nothing else (`AttributeArray.get?_set`).
-/

namespace ParticleShading

/-- Overwrites consecutive floats. -/
def overwrite (data : Array Single) (offset : Nat) : List Single → Array Single
  | [] => data
  | x :: rest => overwrite (data.setIfInBounds offset x) (offset + 1) rest

@[simp] theorem size_overwrite (data : Array Single) (offset : Nat) (xs : List Single) :
    (overwrite data offset xs).size = data.size := by
  induction xs generalizing data offset with
  | nil => rfl
  | cons x rest ih => simp [overwrite, ih]

theorem getElem?_overwrite (data : Array Single) (offset : Nat) (xs : List Single) (i : Nat) :
    (overwrite data offset xs)[i]? =
      if offset ≤ i ∧ i < offset + xs.length ∧ i < data.size then xs[i - offset]? else data[i]? := by
  induction xs generalizing data offset with
  | nil => simp only [overwrite, List.length_nil]; rw [if_neg (by omega)]
  | cons x rest ih =>
    rw [overwrite, ih, Array.size_setIfInBounds, Array.getElem?_setIfInBounds, List.length_cons]
    by_cases hi : i = offset
    · subst hi
      rw [if_neg (by omega), if_pos rfl]
      by_cases hs : i < data.size
      · rw [if_pos hs, if_pos ⟨Nat.le_refl _, by omega, hs⟩]
        simp
      · rw [if_neg hs, if_neg (by omega), Array.getElem?_eq_none (by omega)]
    · rw [if_neg (Ne.symm hi)]
      by_cases hin : offset ≤ i ∧ i < offset + (rest.length + 1) ∧ i < data.size
      · rw [if_pos hin, if_pos (by omega), show i - offset = i - (offset + 1) + 1 by omega,
          List.getElem?_cons_succ]
      · rw [if_neg hin, if_neg (by omega)]

structure AttributeArray where
  kind : AttributeKind
  data : Array Single
  dirty : DirtyRange

namespace AttributeArray

/-- An array of `capacity` items, all zero. -/
def zeros (kind : AttributeKind) (capacity : Nat) : AttributeArray :=
  ⟨kind, Array.replicate (capacity * kind.itemSize) 0, .clean⟩

def capacity (a : AttributeArray) : Nat := a.data.size / a.kind.itemSize

/-- The floats of one item. -/
def get? (a : AttributeArray) (index : Nat) : Option (List Single) :=
  let size := a.kind.itemSize
  if (index + 1) * size ≤ a.data.size then
    some (a.data.extract (index * size) ((index + 1) * size)).toList
  else none

/-- Overwrites one item with the leading floats of `values`. A slot past the end
is left out. -/
def set (a : AttributeArray) (index : Nat) (values : List Single) : AttributeArray :=
  let size := a.kind.itemSize
  if (index + 1) * size ≤ a.data.size then
    { a with data := overwrite a.data (index * size) (values.take size) }
  else a

def setXY (a : AttributeArray) (index : Nat) (x y : Single) : AttributeArray := a.set index [x, y]

def setXYZ (a : AttributeArray) (index : Nat) (x y z : Single) : AttributeArray :=
  a.set index [x, y, z]

def setXYZW (a : AttributeArray) (index : Nat) (x y z w : Single) : AttributeArray :=
  a.set index [x, y, z, w]

/-- The window awaiting upload in floats, as offset and count. -/
def updateRange (a : AttributeArray) : Nat × Nat := a.dirty.scaled a.kind.itemSize

def mark (a : AttributeArray) (offset count : Nat) : AttributeArray :=
  { a with dirty := a.dirty.mark offset count }

def clear (a : AttributeArray) : AttributeArray := { a with dirty := .clean }

@[simp] theorem kind_set (a : AttributeArray) (index : Nat) (values : List Single) :
    (a.set index values).kind = a.kind := by
  simp only [set]
  split <;> rfl

@[simp] theorem size_set (a : AttributeArray) (index : Nat) (values : List Single) :
    (a.set index values).data.size = a.data.size := by
  simp only [set]
  split <;> simp

@[simp] theorem dirty_set (a : AttributeArray) (index : Nat) (values : List Single) :
    (a.set index values).dirty = a.dirty := by
  simp only [set]
  split <;> rfl

theorem capacity_zeros (kind : AttributeKind) (capacity : Nat) :
    (zeros kind capacity).capacity = capacity := by
  simp [zeros, AttributeArray.capacity, Nat.mul_div_cancel _ kind.itemSize_pos]

/-- An item ends inside the array exactly if its slot is below the capacity. -/
theorem end_le_size_iff {a : AttributeArray} {index : Nat} :
    (index + 1) * a.kind.itemSize ≤ a.data.size ↔ index < a.capacity :=
  (Nat.le_div_iff_mul_le a.kind.itemSize_pos).symm

theorem get?_eq_none_iff {a : AttributeArray} {slot : Nat} :
    a.get? slot = none ↔ a.capacity ≤ slot := by
  simp only [get?, end_le_size_iff]
  split <;> simp <;> omega

theorem get?_zeros {kind : AttributeKind} {capacity slot : Nat} (inside : slot < capacity) :
    (zeros kind capacity).get? slot = some (List.replicate kind.itemSize 0) := by
  have fits : (slot + 1) * kind.itemSize ≤ capacity * kind.itemSize :=
    Nat.mul_le_mul_right _ inside
  have width : (slot + 1) * kind.itemSize - slot * kind.itemSize = kind.itemSize := by
    rw [Nat.succ_mul]
    omega
  simp [zeros, get?, fits, width]

/-- A slot reads alike in arrays that agree on its floats. -/
theorem get?_congr {a b : AttributeArray} {slot : Nat} (kind : b.kind = a.kind)
    (size : b.data.size = a.data.size)
    (floats : ∀ i, i / a.kind.itemSize = slot → b.data[i]? = a.data[i]?) :
    b.get? slot = a.get? slot := by
  have items : (b.data.extract (slot * a.kind.itemSize) ((slot + 1) * a.kind.itemSize)).toList =
      (a.data.extract (slot * a.kind.itemSize) ((slot + 1) * a.kind.itemSize)).toList := by
    apply List.ext_getElem?
    intro k
    rw [Array.getElem?_toList, Array.getElem?_toList, Array.getElem?_extract,
      Array.getElem?_extract, size]
    split
    · rename_i inside
      have low : slot * a.kind.itemSize ≤ slot * a.kind.itemSize + k := Nat.le_add_right ..
      have high : slot * a.kind.itemSize + k < (slot + 1) * a.kind.itemSize := by omega
      exact floats _ (Nat.div_eq_of_lt_le low high)
    · rfl
  simp only [get?, kind, size, items]

section Set

variable {a : AttributeArray} {index slot i : Nat} {values : List Single}

/-- A slot past the end is left out. -/
theorem set_of_capacity_le (beyond : a.capacity ≤ index) (values : List Single) :
    a.set index values = a := by
  have outside : ¬ (index + 1) * a.kind.itemSize ≤ a.data.size := by
    rw [end_le_size_iff]
    omega
  simp only [set, if_neg outside]

/-- Setting a slot changes the floats of that slot only. -/
theorem getElem?_set_of_ne (values : List Single) (apart : i / a.kind.itemSize ≠ index) :
    (a.set index values).data[i]? = a.data[i]? := by
  have length : (values.take a.kind.itemSize).length ≤ a.kind.itemSize := List.length_take_le ..
  have outside : ¬ (index * a.kind.itemSize ≤ i ∧
      i < index * a.kind.itemSize + (values.take a.kind.itemSize).length) := by
    rintro ⟨low, high⟩
    apply apart
    apply Nat.div_eq_of_lt_le low
    rw [Nat.succ_mul]
    omega
  unfold set
  dsimp only
  split
  · rw [getElem?_overwrite, if_neg]
    rintro ⟨low, high, _⟩
    exact outside ⟨low, high⟩
  · rfl

theorem get?_set_of_ne (values : List Single) (apart : slot ≠ index) :
    (a.set index values).get? slot = a.get? slot := by
  apply get?_congr (a.kind_set index values) (a.size_set index values)
  rintro i rfl
  exact getElem?_set_of_ne values apart

/-- The slot that was set reads as the leading floats. -/
theorem get?_set_self (inside : index < a.capacity) (enough : a.kind.itemSize ≤ values.length) :
    (a.set index values).get? index = some (values.take a.kind.itemSize) := by
  have fits := end_le_size_iff.2 inside
  have width : (index + 1) * a.kind.itemSize = index * a.kind.itemSize + a.kind.itemSize :=
    Nat.succ_mul ..
  have item : ((overwrite a.data (index * a.kind.itemSize) (values.take a.kind.itemSize)).extract
      (index * a.kind.itemSize) ((index + 1) * a.kind.itemSize)).toList =
        values.take a.kind.itemSize := by
    apply List.ext_getElem?
    intro k
    rw [Array.getElem?_toList, Array.getElem?_extract, size_overwrite, Nat.min_eq_left fits, width,
      Nat.add_sub_cancel_left]
    by_cases hk : k < a.kind.itemSize
    · rw [if_pos hk, getElem?_overwrite, if_pos (by rw [List.length_take]; omega),
        Nat.add_sub_cancel_left]
    · rw [if_neg hk, List.getElem?_take, if_neg hk]
  simp only [set, get?, if_pos fits, size_overwrite, item]

/-- The slot that was set reads as the leading floats, and every other slot as before. -/
theorem get?_set (enough : a.kind.itemSize ≤ values.length) (slot : Nat) :
    (a.set index values).get? slot =
      if slot = index ∧ index < a.capacity then some (values.take a.kind.itemSize)
      else a.get? slot := by
  by_cases here : slot = index ∧ index < a.capacity
  · rw [if_pos here, here.1, get?_set_self here.2 enough]
  · rw [if_neg here]
    by_cases inside : index < a.capacity
    · exact get?_set_of_ne values fun same => here ⟨same, inside⟩
    · rw [set_of_capacity_le (Nat.le_of_not_lt inside)]

end Set

end AttributeArray

end ParticleShading
