/-!
# Single precision numbers

A single precision number is its bit pattern, so that storing it and handing it
on keeps every bit, the sign and the payload of a NaN included. Arithmetic rounds
to nearest. An operation on a NaN hands on the first one it was given, made
quiet; an operation that has no result gives one NaN of its own.
-/

namespace ParticleShading

structure Single where
  bits : UInt32
  deriving DecidableEq

namespace Single

/-- The bits without the sign. -/
def magnitude (x : Single) : UInt32 := x.bits &&& 0x7FFFFFFF

def isNaN (x : Single) : Bool := 0x7F800000 < x.magnitude

def isInf (x : Single) : Bool := x.magnitude = 0x7F800000

def isFinite (x : Single) : Bool := x.magnitude < 0x7F800000

/-- A number is finite, infinite or a NaN. -/
theorem isFinite_iff (x : Single) : x.isFinite = true ↔ x.isNaN = false ∧ x.isInf = false := by
  simp only [isFinite, isNaN, isInf, decide_eq_true_eq, decide_eq_false_iff_not,
    UInt32.lt_iff_toNat_lt, ← UInt32.toNat_inj]
  omega

/-- Zero of either sign. -/
def isZero (x : Single) : Bool := x.magnitude = 0

def abs (x : Single) : Single := ⟨x.magnitude⟩

/-- A NaN as operations hand it on, with the first bit of its payload set. -/
def quiet (x : Single) : Single := ⟨x.bits ||| 0x400000⟩

/-- The NaN of an operation without a result, such as the root of a negative
number. -/
def undefined : Single := ⟨0xFFC00000⟩

example : undefined.isNaN ∧ undefined.quiet = undefined := by decide

/-- The number as the machine computes with it. -/
def toMachine (x : Single) : Float32 := Float32.ofBits x.bits

/-- The result of an operation on numbers. -/
def ofMachine (x : Float32) : Single := if x.isNaN then undefined else ⟨x.toBits⟩

/-- The number next to a double precision one. -/
def ofDouble (x : Float) : Single := ofMachine x.toFloat32

/-- The number next to a natural one. -/
def ofNat (n : Nat) : Single := ofMachine (Float32.ofNat n)

/-- The number next to an integer of 64 bits. -/
def ofInt64 (n : Int64) : Single := ofMachine n.toFloat32

/-- The whole part as a size: zero below zero and for a NaN, the largest size
above all sizes. -/
def toSize (x : Single) : Nat := x.toMachine.toUInt64.toNat

/-- An operation on one number. -/
def lift (f : Float32 → Float32) (x : Single) : Single :=
  if x.isNaN then x.quiet else ofMachine (f x.toMachine)

/-- An operation on two numbers. -/
def lift₂ (f : Float32 → Float32 → Float32) (x y : Single) : Single :=
  if x.isNaN then x.quiet
  else if y.isNaN then y.quiet
  else ofMachine (f x.toMachine y.toMachine)

instance (n : Nat) : OfNat Single n := ⟨ofNat n⟩

instance : OfScientific Single := ⟨fun m s e => ofMachine (OfScientific.ofScientific m s e)⟩

instance : Add Single := ⟨lift₂ (· + ·)⟩

instance : Sub Single := ⟨lift₂ (· - ·)⟩

instance : Mul Single := ⟨lift₂ (· * ·)⟩

instance : Div Single := ⟨lift₂ (· / ·)⟩

def sqrt : Single → Single := lift Float32.sqrt

def sin : Single → Single := lift Float32.sin

def cos : Single → Single := lift Float32.cos

def floor : Single → Single := lift Float32.floor

instance : LT Single := ⟨fun x y => x.toMachine < y.toMachine⟩

instance : LE Single := ⟨fun x y => x.toMachine ≤ y.toMachine⟩

instance (x y : Single) : Decidable (x < y) :=
  inferInstanceAs (Decidable (x.toMachine < y.toMachine))

instance (x y : Single) : Decidable (x ≤ y) :=
  inferInstanceAs (Decidable (x.toMachine ≤ y.toMachine))

end Single

end ParticleShading
