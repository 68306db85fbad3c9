import ParticleShading.Shader.Value
import ParticleShading.Proofs.Decimal.Places
import Mathlib.Data.List.Basic

/-!
# Literals in shader text

The grammar of literals: a scalar has digits on both sides of a point, and any
other literal calls its type with as many scalars as the type has components.
Every value with finite components is written as a literal of its type.
-/

namespace ParticleShading

/-- Digits, a point and digits, perhaps behind a minus sign. -/
structure ScalarText (sign whole fraction : List Char) : Prop where
  signed : sign = [] ∨ sign = ['-']
  whole_ne_nil : whole ≠ []
  fraction_ne_nil : fraction ≠ []
  digits : ∀ c ∈ whole ++ fraction, c.isDigit = true

/-- A scalar as the shading language reads it. -/
def IsScalar (text : String) : Prop :=
  ∃ sign whole fraction, ScalarText sign whole fraction ∧
    text.toList = sign ++ whole ++ '.' :: fraction

/-- A literal of a type: a scalar, or a call of the type with a scalar for each component. -/
inductive ValueType.IsLiteral : ValueType → String → Prop where
  | scalar {text : String} (scalar : IsScalar text) : IsLiteral .float text
  | call {type : ValueType} {parts : List String} (composite : type ≠ .float)
      (count : parts.length = type.size) (scalars : ∀ part ∈ parts, IsScalar part) :
    IsLiteral type (type.glslName ++ "(" ++ ", ".intercalate parts ++ ")")

/-! ## Scalars -/

theorem ScalarText.withSign {whole fraction : List Char} (scalar : ScalarText [] whole fraction)
    (negative : Bool) : ScalarText (if negative then ['-'] else []) whole fraction := by
  refine ⟨?_, scalar.whole_ne_nil, scalar.fraction_ne_nil, scalar.digits⟩
  cases negative
  · exact Or.inl rfl
  · exact Or.inr rfl

namespace Decimal

variable {d : Decimal}

/-- The digits of a decimal around a point. Without the point they are those of the decimal and a
zero for each place that the point has moved. -/
structure Pointed (d : Decimal) (whole fraction : List Char) : Prop where
  scalar : ScalarText [] whole fraction
  text : (d.positional true).toList = whole ++ '.' :: fraction
  moved : 0 ≤ d.exponent + fraction.length
  digits : Nat.ofDigitChars 10 (whole ++ fraction) 0 =
    10 ^ (d.exponent + fraction.length).toNat * d.digits

theorem isDigit_of_mem_padded {n : Nat} {c : Char}
    (mem : c ∈ List.replicate n '0' ++ Nat.toDigits 10 d.digits) : c.isDigit = true := by
  rcases List.mem_append.mp mem with zero | digit
  · rw [List.eq_of_mem_replicate zero]
    decide
  · exact Nat.isDigit_of_mem_toDigits (by decide) (by decide) digit

theorem pointed_of_integral (integral : 0 ≤ d.exponent) :
    d.Pointed (Nat.toDigits 10 d.digits ++ List.replicate d.exponent.toNat '0') ['0'] := by
  have places : (d.exponent + (['0'].length : ℕ)).toNat = d.exponent.toNat + 1 := by
    rw [List.length_singleton]
    omega
  refine ⟨⟨Or.inl rfl, ?_, by simp, ?_⟩, by simp [positional, integral], by simp; omega, ?_⟩
  · simp [Nat.toDigits_ne_nil]
  · intro c mem
    rcases List.mem_append.mp mem with mem | mem
    · exact isDigit_of_mem_padded (List.mem_append.mpr (List.mem_append.mp mem).symm)
    · rw [List.mem_singleton.mp mem]
      decide
  · rw [places, List.append_assoc, ← List.replicate_succ', Nat.ofDigitChars_append,
      Nat.ofDigitChars_ten_toDigits, Nat.ofDigitChars_replicate_zero]

theorem exists_pointed_of_fractional (fractional : ¬ 0 ≤ d.exponent) :
    ∃ whole fraction, d.Pointed whole fraction := by
  let places := (-d.exponent).toNat
  let digits := Nat.toDigits 10 d.digits
  let padded := List.replicate (places + 1 - digits.length) '0' ++ digits
  have behind : 0 < places := by omega
  have length : places + 1 ≤ padded.length := by
    rw [List.length_append, List.length_replicate]
    omega
  have fraction : (padded.drop (padded.length - places)).length = places := by
    rw [List.length_drop]
    omega
  have unmoved : (d.exponent + (places : ℕ)).toNat = 0 := by omega
  refine ⟨padded.take (padded.length - places), padded.drop (padded.length - places),
    ⟨Or.inl rfl, ?_, ?_, ?_⟩, by simp [positional, fractional, padded, digits, places],
    by omega, ?_⟩
  · rw [← List.length_pos_iff_ne_nil, List.length_take]
    omega
  · rw [← List.length_pos_iff_ne_nil, fraction]
    exact behind
  · rw [List.take_append_drop]
    exact fun c mem => isDigit_of_mem_padded mem
  · rw [List.take_append_drop, fraction, unmoved, Nat.ofDigitChars_append,
      Nat.ofDigitChars_replicate_zero, Nat.mul_zero, Nat.ofDigitChars_ten_toDigits, pow_zero,
      one_mul]

theorem exists_pointed (d : Decimal) : ∃ whole fraction, d.Pointed whole fraction := by
  by_cases integral : 0 ≤ d.exponent
  · exact ⟨_, _, pointed_of_integral integral⟩
  · exact exists_pointed_of_fractional integral

end Decimal

/-- A finite number is written with its sign and the digits of its decimal. -/
theorem Value.exists_glslFloat {x : Single} (finite : x.isFinite = true) :
    ∃ whole fraction, (Decimal.atPlace x.place).Pointed whole fraction ∧
      (glslFloat x).toList = (if x.isNegative then ['-'] else []) ++ whole ++ '.' :: fraction := by
  obtain ⟨whole, fraction, pointed⟩ := (Decimal.atPlace x.place).exists_pointed
  refine ⟨whole, fraction, pointed, ?_⟩
  rw [glslFloat, FloatLayout.write_pointed finite, String.toList_append, pointed.text]
  cases x.isNegative <;> simp

theorem Value.isScalar_glslFloat {x : Single} (finite : x.isFinite = true) :
    IsScalar (glslFloat x) := by
  obtain ⟨whole, fraction, pointed, text⟩ := exists_glslFloat finite
  exact ⟨_, whole, fraction, pointed.scalar.withSign x.isNegative, text⟩

/-- A value is written as a literal of its type. -/
theorem Value.isLiteral_toGlsl {v : Value} (finite : ∀ x ∈ v.toList, x.isFinite = true) :
    v.type.IsLiteral v.toGlsl := by
  have scalars : ∀ part ∈ v.toList.map glslFloat, IsScalar part := by
    intro part mem
    obtain ⟨x, listed, rfl⟩ := List.mem_map.mp mem
    exact isScalar_glslFloat (finite x listed)
  have count : (v.toList.map glslFloat).length = v.type.size := by simp [toList]
  rw [toGlsl]
  split
  · rename_i type
    rw [type] at count
    obtain ⟨part, only⟩ := List.length_eq_one_iff.mp count
    rw [type, only]
    apply ValueType.IsLiteral.scalar
    simpa using scalars part (only ▸ List.mem_cons_self)
  · rename_i composite
    exact .call composite count scalars

end ParticleShading
