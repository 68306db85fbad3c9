import ParticleShading.Shader.Program

/-!
# Names of globals

A label is a letter and a number, so the first underscore of a global name ends
its label whatever the output is called. Two names agree only if position and
output agree, and no varying has the name of a global.
-/

namespace ParticleShading.Program

theorem toList_globalName (k : Nat) (output : String) :
    (globalName (label k) output).toList =
      'n' :: (Nat.toDigits 10 k ++ '_' :: output.toList) := by
  simp [globalName, label]

/-- A text is cut in one way only at the first occurrence of a mark. -/
theorem cut_inj {mark : Char} {x y z w : List Char} (hx : mark ∉ x) (hy : mark ∉ y)
    (h : x ++ mark :: z = y ++ mark :: w) : x = y ∧ z = w := by
  rcases List.append_eq_append_iff.mp h with ⟨between, rfl, tail⟩ | ⟨between, rfl, tail⟩
  · cases between with
    | nil => exact ⟨by simp, by simpa using tail⟩
    | cons first between =>
      obtain rfl := (List.cons.inj tail).1
      exact False.elim (hy (by simp))
  · cases between with
    | nil => exact ⟨by simp, by simpa using tail.symm⟩
    | cons first between =>
      obtain rfl := (List.cons.inj tail).1
      exact False.elim (hx (by simp))

/-- The digits of a number decide it. -/
theorem toDigits_inj {j k : Nat} (h : Nat.toDigits 10 j = Nat.toDigits 10 k) : j = k := by
  rw [← Nat.ofDigitChars_ten_toDigits (n := j), h, Nat.ofDigitChars_ten_toDigits]

theorem globalName_inj {j k : Nat} {a b : String} :
    globalName (label j) a = globalName (label k) b ↔ j = k ∧ a = b := by
  constructor
  · intro h
    have chars := congrArg String.toList h
    rw [toList_globalName, toList_globalName] at chars
    have rest := (List.cons.inj chars).2
    obtain ⟨digits, outputs⟩ :=
      cut_inj Nat.underscore_not_in_toDigits Nat.underscore_not_in_toDigits rest
    exact ⟨toDigits_inj digits, String.toList_inj.mp outputs⟩
  · rintro ⟨rfl, rfl⟩
    rfl

theorem varyingName_inj {j k : Nat} {a b : String} :
    varyingName (label j) a = varyingName (label k) b ↔ j = k ∧ a = b := by
  rw [← globalName_inj]
  constructor
  · intro h
    have chars := congrArg String.toList h
    simpa [varyingName, String.toList_inj] using chars
  · intro h
    rw [varyingName, varyingName, h]

/-- The first letter tells a varying from a global. -/
theorem varyingName_ne_globalName {j k : Nat} {a b : String} :
    varyingName (label j) a ≠ globalName (label k) b := by
  intro h
  have chars := congrArg String.toList h
  rw [toList_globalName] at chars
  simp [varyingName] at chars

end ParticleShading.Program
