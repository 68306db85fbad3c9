/-!
# Arenas

A list of slots that are filled at most once. A slot may be reserved before its
value exists; a handle is the position of a slot.
-/

namespace ParticleShading

/-- The position of a slot. A handle may be foreign to an arena. -/
structure Handle where
  index : UInt32
  deriving DecidableEq

namespace Handle

def toNat (h : Handle) : Nat := h.index.toNat

def text (h : Handle) : String := "#" ++ toString h.toNat

theorem toNat_inj {a b : Handle} : a.toNat = b.toNat ↔ a = b := by
  constructor
  · intro h
    cases a
    cases b
    exact congrArg Handle.mk (UInt32.toNat_inj.mp h)
  · exact congrArg Handle.toNat

end Handle

inductive ArenaError where
  | unknownHandle (index : Nat)
  | alreadyDefined (index : Nat)
  deriving DecidableEq

def ArenaError.message : ArenaError → String
  | .unknownHandle index => "unknown arena handle " ++ toString index
  | .alreadyDefined index => "arena slot " ++ toString index ++ " is already defined"

def ArenaError.kind : ArenaError → String
  | .unknownHandle _ => "UnknownHandle"
  | .alreadyDefined _ => "AlreadyDefined"

/-- Slots in the order of their creation; a reserved slot holds nothing. -/
structure Arena (α : Type) where
  slots : Array (Option α)

namespace Arena

variable {α : Type}

def empty : Arena α := ⟨#[]⟩

def size (a : Arena α) : Nat := a.slots.size

/-- The handle of the next slot. Handles are 32 bits wide and stop at the last. -/
def nextHandle (a : Arena α) : Handle := ⟨UInt32.ofNat (min a.size (UInt32.size - 1))⟩

/-- Appends a slot with a value. -/
def insert (a : Arena α) (value : α) : Handle × Arena α :=
  (a.nextHandle, ⟨a.slots.push (some value)⟩)

/-- Appends a slot whose value comes later. -/
def reserve (a : Arena α) : Handle × Arena α :=
  (a.nextHandle, ⟨a.slots.push none⟩)

/-- The value of a slot, if the slot exists and has one. -/
def get? (a : Arena α) (h : Handle) : Option α :=
  match a.slots[h.toNat]? with
  | some slot => slot
  | none => none

def contains (a : Arena α) (h : Handle) : Bool := h.toNat < a.size

def isDefined (a : Arena α) (h : Handle) : Bool := (a.get? h).isSome

/-- Fills a reserved slot. -/
def define (a : Arena α) (h : Handle) (value : α) : Except ArenaError (Arena α) :=
  match a.slots[h.toNat]? with
  | none => .error (.unknownHandle h.toNat)
  | some (some _) => .error (.alreadyDefined h.toNat)
  | some none => .ok ⟨a.slots.setIfInBounds h.toNat (some value)⟩

/-- The number of slots without a value. -/
def reservedCount (a : Arena α) : Nat := a.slots.countP Option.isNone

/-- The defined slots in the order of their positions. -/
def toList (a : Arena α) : List (Handle × α) :=
  a.slots.toList.zipIdx.filterMap fun (slot, index) =>
    slot.map fun value => (⟨UInt32.ofNat index⟩, value)

/-- The defined slots as a map from handles to values. -/
def inspect (text : α → String) (a : Arena α) : String :=
  let entries := a.toList.map fun (h, value) => h.text ++ ": " ++ text value
  "\x7b" ++ ", ".intercalate entries ++ "\x7d"

theorem toNat_nextHandle {a : Arena α} (h : a.size < UInt32.size) :
    a.nextHandle.toNat = a.size := by
  have hsize : UInt32.size = 4294967296 := rfl
  simp only [nextHandle, Handle.toNat, UInt32.toNat_ofNat']
  omega

@[simp] theorem size_insert (a : Arena α) (value : α) : (a.insert value).2.size = a.size + 1 :=
  Array.size_push _

@[simp] theorem size_reserve (a : Arena α) : a.reserve.2.size = a.size + 1 := Array.size_push _

theorem size_define {a b : Arena α} {h : Handle} {value : α} (hb : a.define h value = .ok b) :
    b.size = a.size := by
  unfold define at hb
  split at hb <;> cases hb
  simp [size]

/-- A fresh slot reads as its value and changes no other. -/
theorem get?_insert (a : Arena α) (value : α) (h : Handle) :
    (a.insert value).2.get? h = if h.toNat = a.size then some value else a.get? h := by
  by_cases hs : h.toNat = a.slots.size <;> simp [get?, insert, size, Array.getElem?_push, hs]

/-- A reserved slot reads as nothing, as it did before it was there. -/
theorem get?_reserve (a : Arena α) (h : Handle) : a.reserve.2.get? h = a.get? h := by
  by_cases hs : h.toNat = a.slots.size <;> simp [get?, reserve, Array.getElem?_push, hs]

theorem get?_define {a b : Arena α} {h : Handle} {value : α} (hb : a.define h value = .ok b)
    (k : Handle) : b.get? k = if k.toNat = h.toNat then some value else a.get? k := by
  unfold define at hb
  split at hb
  · cases hb
  · cases hb
  · rename_i hslot
    cases hb
    obtain ⟨hlt, -⟩ := Array.getElem?_eq_some_iff.1 hslot
    by_cases hk : k.toNat = h.toNat
    · simp [get?, hk, hlt]
    · simp [get?, hk, Ne.symm hk]

theorem get?_define_self {a b : Arena α} {h : Handle} {value : α}
    (hb : a.define h value = .ok b) : b.get? h = some value :=
  (get?_define hb h).trans (if_pos rfl)

theorem get?_define_of_ne {a b : Arena α} {h k : Handle} {value : α}
    (hb : a.define h value = .ok b) (apart : k ≠ h) : b.get? k = a.get? k :=
  (get?_define hb k).trans (if_neg (mt Handle.toNat_inj.1 apart))

/-- Only an empty slot is filled. -/
theorem get?_of_define {a b : Arena α} {h : Handle} {value : α} (hb : a.define h value = .ok b) :
    a.get? h = none := by
  rw [define] at hb
  split at hb
  · cases hb
  · cases hb
  · rename_i slot
    rw [get?, slot]

/-- A value stays. -/
theorem held_define {a b : Arena α} {h k : Handle} {value other : α}
    (hb : a.define h value = .ok b) (held : a.get? k = some other) : b.get? k = some other := by
  have apart : k ≠ h := by
    rintro rfl
    simp [get?_of_define hb] at held
  exact (get?_define_of_ne hb apart).trans held

theorem contains_iff {a : Arena α} {h : Handle} : a.contains h = true ↔ h.toNat < a.size :=
  decide_eq_true_iff

/-- A reserved slot can be filled. -/
theorem exists_define {a : Arena α} {h : Handle} (issued : a.contains h = true)
    (empty : a.get? h = none) (value : α) : ∃ b, a.define h value = .ok b := by
  have inside : h.toNat < a.slots.size := contains_iff.1 issued
  cases slot : a.slots[h.toNat] with
  | none => simp [define, inside, slot]
  | some other => simp [get?, inside, slot] at empty

theorem isDefined_iff {a : Arena α} {h : Handle} :
    a.isDefined h = true ↔ ∃ value, a.get? h = some value := Option.isSome_iff_exists

/-- Only slots of the arena are defined. -/
theorem contains_of_get? {a : Arena α} {h : Handle} {value : α} (hv : a.get? h = some value) :
    a.contains h = true := by
  unfold get? at hv
  split at hv
  · rename_i hslot
    obtain ⟨hlt, -⟩ := Array.getElem?_eq_some_iff.1 hslot
    exact decide_eq_true hlt
  · cases hv

theorem get?_of_size_le {a : Arena α} {h : Handle} (beyond : a.size ≤ h.toNat) :
    a.get? h = none := by
  cases held : a.get? h with
  | none => rfl
  | some value =>
    have inside := contains_iff.1 (contains_of_get? held)
    omega

end Arena

end ParticleShading
