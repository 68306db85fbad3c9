import ParticleShading.Geometry.Transform
import Mathlib.Algebra.Ring.Rat
import Mathlib.Tactic.LinearCombination
import Mathlib.Tactic.NormNum
import Mathlib.Tactic.Ring

/-!
# Rotations

A quaternion rotates a point by conjugation: the point is read as a quaternion
without real part and stands between the quaternion and its conjugate. Products
are associative and norms multiply, so a product rotates by one factor after
the other, and a unit quaternion keeps lengths. A composed matrix scales,
rotates in this sense and moves. The formulas are read exactly, over any
commutative ring; nothing is said of rounding.
-/

namespace ParticleShading

attribute [ext] Vec3 Quaternion

variable {R : Type} [CommRing R]

namespace Quaternion

def conj (q : Quaternion R) : Quaternion R := ⟨-q.x, -q.y, -q.z, q.w⟩

/-- A point as a quaternion without real part. -/
def ofPoint (v : Vec3 R) : Quaternion R := ⟨v.x, v.y, v.z, 0⟩

/-- The point without the real part. -/
def point (q : Quaternion R) : Vec3 R := ⟨q.x, q.y, q.z⟩

/-- Conjugation of a point. -/
def rotate (q : Quaternion R) (v : Vec3 R) : Vec3 R := (q * ofPoint v * q.conj).point

variable (a b c q : Quaternion R) (v : Vec3 R)

theorem mul_eq : a * b =
    ⟨a.x * b.w + a.w * b.x + a.y * b.z - a.z * b.y,
     a.y * b.w + a.w * b.y + a.z * b.x - a.x * b.z,
     a.z * b.w + a.w * b.z + a.x * b.y - a.y * b.x,
     a.w * b.w - a.x * b.x - a.y * b.y - a.z * b.z⟩ := rfl

protected theorem mul_assoc : a * b * c = a * (b * c) := by
  ext <;> simp only [mul_eq] <;> ring

theorem conj_mul : (a * b).conj = b.conj * a.conj := by
  ext <;> simp only [mul_eq, conj] <;> ring

theorem normSquared_mul : (a * b).normSquared = a.normSquared * b.normSquared := by
  simp only [mul_eq, normSquared]
  ring

theorem normSquared_conj : q.conj.normSquared = q.normSquared := by
  simp only [conj, normSquared]
  ring

theorem normSquared_ofPoint : (ofPoint v).normSquared = v.lengthSquared := by
  simp only [ofPoint, normSquared, Vec3.lengthSquared, Vec3.dot]
  ring

/-- Conjugation leaves no real part, so nothing is lost with it. -/
theorem ofPoint_rotate : ofPoint (q.rotate v) = q * ofPoint v * q.conj := by
  ext
  · rfl
  · rfl
  · rfl
  · simp only [ofPoint, mul_eq, conj]
    ring

/-- A product rotates by its second factor and then by its first. -/
theorem rotate_mul : (a * b).rotate v = a.rotate (b.rotate v) := by
  have conjugated : a * b * ofPoint v * (a * b).conj = a * (b * ofPoint v * b.conj) * a.conj := by
    simp only [conj_mul, Quaternion.mul_assoc]
  rw [rotate, conjugated, ← ofPoint_rotate]
  rfl

theorem lengthSquared_rotate :
    (q.rotate v).lengthSquared = q.normSquared * q.normSquared * v.lengthSquared := by
  rw [← normSquared_ofPoint, ofPoint_rotate, normSquared_mul, normSquared_mul, normSquared_conj,
    normSquared_ofPoint, mul_right_comm]

theorem lengthSquared_rotate_of_unit (unit : q.normSquared = 1) :
    (q.rotate v).lengthSquared = v.lengthSquared := by
  rw [lengthSquared_rotate, unit, one_mul, one_mul]

end Quaternion

namespace Vec3

variable (u v : Vec3 R)

theorem add_eq : u + v = ⟨u.x + v.x, u.y + v.y, u.z + v.z⟩ := rfl

theorem sub_eq : u - v = ⟨u.x - v.x, u.y - v.y, u.z - v.z⟩ := rfl

protected theorem add_zero : u + zero = u := by
  ext <;> simp only [add_eq, zero, splat] <;> ring

protected theorem add_sub_cancel_right : u + v - v = u := by
  ext <;> simp only [add_eq, sub_eq] <;> ring

theorem one_hadamard : one.hadamard v = v := by
  ext <;> simp only [hadamard, one, splat] <;> ring

end Vec3

namespace Mat4

variable {a b q : Quaternion R} (p s v : Vec3 R)

/-- A composed matrix scales first, then rotates, then moves. -/
theorem transformPoint_compose (unit : q.normSquared = 1) :
    (compose p q s).transformPoint v = q.rotate (s.hadamard v) + p := by
  -- on the diagonal the matrix has the norm replaced by one
  rw [Quaternion.normSquared] at unit
  ext
  · simp only [transformPoint, compose, Quaternion.rotate, Quaternion.point, Quaternion.ofPoint,
      Quaternion.conj, Quaternion.mul_eq, Vec3.hadamard, Vec3.add_eq]
    linear_combination -(s.x * v.x) * unit
  · simp only [transformPoint, compose, Quaternion.rotate, Quaternion.point, Quaternion.ofPoint,
      Quaternion.conj, Quaternion.mul_eq, Vec3.hadamard, Vec3.add_eq]
    linear_combination -(s.y * v.y) * unit
  · simp only [transformPoint, compose, Quaternion.rotate, Quaternion.point, Quaternion.ofPoint,
      Quaternion.conj, Quaternion.mul_eq, Vec3.hadamard, Vec3.add_eq]
    linear_combination -(s.z * v.z) * unit

theorem transformPoint_compose_one (unit : q.normSquared = 1) :
    (compose p q .one).transformPoint v = q.rotate v + p := by
  rw [transformPoint_compose p .one v unit, Vec3.one_hadamard]

/-- Products of quaternions, composed matrices and images of points agree. For unit quaternions the
matrix of a product maps a point as the matrices of the factors do one after the other, the image
is as far from the position as the point is from the origin, and a scale stretches the point along
the axes before it is rotated. -/
theorem rotations_consistent (unit : a.normSquared = 1) (unit' : b.normSquared = 1)
    (p v : Vec3 R) :
    (compose p (a * b) .one).transformPoint v =
      (compose p a .one).transformPoint ((compose .zero b .one).transformPoint v) ∧
    ((compose p (a * b) .one).transformPoint v - p).lengthSquared = v.lengthSquared ∧
    ∀ s : Vec3 R, (compose p a s).transformPoint v =
      (compose p a .one).transformPoint ⟨s.x * v.x, s.y * v.y, s.z * v.z⟩ := by
  have product : (a * b).normSquared = 1 := by
    rw [Quaternion.normSquared_mul, unit, unit', mul_one]
  refine ⟨?_, ?_, ?_⟩
  · calc (compose p (a * b) .one).transformPoint v
      _ = (a * b).rotate v + p := transformPoint_compose_one p v product
      _ = a.rotate (b.rotate v + .zero) + p := by rw [Quaternion.rotate_mul, Vec3.add_zero]
      _ = a.rotate ((compose .zero b .one).transformPoint v) + p := by
        rw [transformPoint_compose_one _ v unit']
      _ = _ := (transformPoint_compose_one p _ unit).symm
  · rw [transformPoint_compose_one p v product, Vec3.add_sub_cancel_right,
      Quaternion.lengthSquared_rotate_of_unit _ v product]
  · intro s
    rw [transformPoint_compose p s v unit, transformPoint_compose_one p _ unit]
    rfl

end Mat4

namespace Quaternion

/-- A rotation about the third axis, with a rational sine and cosine. -/
def turn : Quaternion ℚ := ⟨0, 0, 3 / 5, 4 / 5⟩

/-- A rotation about the first axis. -/
def tilt : Quaternion ℚ := ⟨5 / 13, 0, 0, 12 / 13⟩

end Quaternion

namespace Mat4

/-- A point is tilted, turned and moved at once or in two steps, and stretched before a turn. -/
theorem rotations_consistent_tilted :
    Quaternion.turn.normSquared = 1 ∧ Quaternion.tilt.normSquared = 1 ∧
      (compose ⟨1, 2, 3⟩ .turn .one).transformPoint
        ((compose .zero .tilt .one).transformPoint ⟨1, -2, 1 / 2⟩) =
          ⟨2512 / 845, 2084 / 845, 653 / 338⟩ ∧
      ((compose ⟨1, 2, 3⟩ (Quaternion.turn * Quaternion.tilt) .one).transformPoint
        ⟨1, -2, 1 / 2⟩ - ⟨1, 2, 3⟩).lengthSquared = 21 / 4 ∧
      (compose ⟨1, 2, 3⟩ .turn ⟨2, 3, 1 / 2⟩).transformPoint ⟨1, -2, 1 / 2⟩ =
        (compose ⟨1, 2, 3⟩ .turn .one).transformPoint ⟨2, -6, 1 / 4⟩ := by
  have unit : Quaternion.turn.normSquared = 1 := by
    norm_num [Quaternion.turn, Quaternion.normSquared]
  have unit' : Quaternion.tilt.normSquared = 1 := by
    norm_num [Quaternion.tilt, Quaternion.normSquared]
  obtain ⟨twice, length, scaled⟩ := rotations_consistent unit unit' ⟨1, 2, 3⟩ ⟨1, -2, 1 / 2⟩
  refine ⟨unit, unit', ?_, ?_, ?_⟩
  · rw [← twice]
    norm_num [compose, transformPoint, Quaternion.mul_eq, Quaternion.turn, Quaternion.tilt,
      Vec3.one, Vec3.splat]
  · rw [length]
    norm_num [Vec3.lengthSquared, Vec3.dot]
  · rw [scaled]
    norm_num

end Mat4

end ParticleShading
