import ParticleShading.Proofs.Decimal.RoundTrip
import ParticleShading.Proofs.Shader.Literals
import ParticleShading.Proofs.Shader.Names

/-!
# Values read from literals

A scalar is read as an exact decimal and rounded to single precision, and any
other literal is read scalar by scalar. Every value with finite components is
read from what is written for it, and from no text are two values of one type
read, so that different values are written differently.
-/

namespace ParticleShading

/-! ## Scalars -/

/-- The decimal with the given digits before and behind the point. -/
def decimalValue (whole fraction : List Char) : ℚ :=
  Nat.ofDigitChars 10 (whole ++ fraction) 0 / 10 ^ fraction.length

theorem Decimal.Pointed.value {d : Decimal} {whole fraction : List Char}
    (pointed : d.Pointed whole fraction) : decimalValue whole fraction = d.toRat := by
  have power : (10 : ℚ) ^ (d.exponent + fraction.length).toNat =
      10 ^ d.exponent * 10 ^ fraction.length := by
    rw [← zpow_natCast, Int.toNat_of_nonneg pointed.moved, zpow_add₀ (by norm_num), zpow_natCast]
  rw [decimalValue, pointed.digits, toRat, div_eq_iff (by positivity)]
  push_cast
  rw [power]
  ring

/-- The texts that a number is read from. -/
def Single.ReadFrom (x : Single) (text : String) : Prop :=
  ∃ sign whole fraction, ScalarText sign whole fraction ∧
    text.toList = sign ++ whole ++ '.' :: fraction ∧
    IsRounded (decide (sign = ['-'])) (decimalValue whole fraction) x

/-- Every integer of the shading language has only letters and digits behind its sign. -/
def IntegerLike (text : String) : Prop :=
  ∃ sign digits, (sign = [] ∨ sign = ['-']) ∧ (∀ c ∈ digits, c.isAlphanum = true) ∧
    text.toList = sign ++ digits

theorem not_mem_signed {mark : Char} {sign digits : List Char} (other : mark ≠ '-')
    (signed : sign = [] ∨ sign = ['-']) (bare : mark ∉ digits) : mark ∉ sign ++ digits := by
  rcases signed with rfl | rfl
  · exact bare
  · simpa [other] using bare

theorem ScalarText.not_mem {mark : Char} {sign whole fraction : List Char}
    (scalar : ScalarText sign whole fraction) (other : mark.isDigit = false) :
    mark ∉ whole ++ fraction := by
  intro mem
  rw [scalar.digits mark mem] at other
  cases other

theorem ScalarText.point_not_mem {sign whole fraction : List Char}
    (scalar : ScalarText sign whole fraction) : '.' ∉ sign ++ whole :=
  not_mem_signed (by decide) scalar.signed
    (mt (List.mem_append_left _) (scalar.not_mem (by decide)))

theorem Single.ReadFrom.not_integerLike {x : Single} {text : String} (read : x.ReadFrom text) :
    ¬ IntegerLike text := by
  rintro ⟨sign, digits, signed, alphanum, integer⟩
  obtain ⟨sign', whole, fraction, _, scalar, _⟩ := read
  have point : '.' ∉ digits := fun mem => absurd (alphanum '.' mem) (by decide)
  apply not_mem_signed (by decide) signed point
  rw [← integer, scalar]
  simp

/-- A sign is no digit, so that the text of a scalar is cut in one way only. -/
theorem ScalarText.parts_inj {sign whole fraction sign' whole' fraction' : List Char}
    (scalar : ScalarText sign whole fraction) (scalar' : ScalarText sign' whole' fraction')
    (same : sign ++ whole ++ '.' :: fraction = sign' ++ whole' ++ '.' :: fraction') :
    sign = sign' ∧ whole = whole' ∧ fraction = fraction' := by
  obtain ⟨front, behind⟩ := Program.cut_inj scalar.point_not_mem scalar'.point_not_mem same
  rcases scalar.signed with rfl | rfl
  · rcases scalar'.signed with rfl | rfl
    · exact ⟨rfl, front, behind⟩
    · refine absurd ?_ (scalar.not_mem (show '-'.isDigit = false by decide))
      rw [show whole = '-' :: whole' from front]
      exact List.mem_cons_self
  · rcases scalar'.signed with rfl | rfl
    · refine absurd ?_ (scalar'.not_mem (show '-'.isDigit = false by decide))
      rw [show whole' = '-' :: whole from front.symm]
      exact List.mem_cons_self
    · exact ⟨rfl, List.append_cancel_left front, behind⟩

/-- One number at most is read from a text. -/
theorem Single.ReadFrom.unique {x y : Single} {text : String} (hx : x.ReadFrom text)
    (hy : y.ReadFrom text) : x = y := by
  obtain ⟨sign, whole, fraction, scalar, here, rounded⟩ := hx
  obtain ⟨sign', whole', fraction', scalar', there, rounded'⟩ := hy
  obtain ⟨rfl, rfl, rfl⟩ := scalar.parts_inj scalar' (here.symm.trans there)
  exact rounded.unique rounded'

/-- Every finite number is read from what is written for it. -/
theorem Value.readFrom_glslFloat {x : Single} (finite : x.isFinite = true) :
    x.ReadFrom (glslFloat x) := by
  obtain ⟨whole, fraction, pointed, text⟩ := exists_glslFloat finite
  refine ⟨_, whole, fraction, pointed.scalar.withSign x.isNegative, text, ?_⟩
  have sign : decide ((if x.isNegative then ['-'] else []) = ['-']) = x.isNegative := by
    cases x.isNegative <;> rfl
  rw [sign, pointed.value]
  exact Single.isRounded_atPlace finite

/-! ## Values -/

/-- The texts that a value is read from: a scalar for a scalar, and for any other value a call of
its type with a scalar for each component. -/
inductive Value.ReadFrom (v : Value) : String → Prop where
  | scalar {x : Single} {text : String} (type : v.type = .float) (only : v.toList = [x])
      (read : x.ReadFrom text) : ReadFrom v text
  | call {parts : List String} (composite : v.type ≠ .float)
      (read : List.Forall₂ Single.ReadFrom v.toList parts) :
    ReadFrom v (v.type.glslName ++ "(" ++ ", ".intercalate parts ++ ")")

theorem Value.ext_toList {v w : Value} (type : v.type = w.type) (same : v.toList = w.toList) :
    v = w := by
  obtain ⟨type', components⟩ := v
  obtain ⟨_, components'⟩ := w
  cases type
  exact congrArg (mk type') (Vector.toList_inj.mp same)

/-- Arguments without commas are told apart by the commas between them. -/
theorem intercalate_inj {parts parts' : List (List Char)} (count : parts.length = parts'.length)
    (bare : ∀ part ∈ parts, ',' ∉ part) (bare' : ∀ part ∈ parts', ',' ∉ part)
    (same : [',', ' '].intercalate parts = [',', ' '].intercalate parts') : parts = parts' := by
  induction parts generalizing parts' with
  | nil => exact (List.length_eq_zero_iff.mp count.symm).symm
  | cons part parts ih =>
    obtain ⟨part', parts', rfl⟩ := List.exists_cons_of_length_eq_add_one count.symm
    have counts : parts.length = parts'.length := Nat.succ.inj count
    cases parts with
    | nil =>
      obtain rfl := List.length_eq_zero_iff.mp counts.symm
      rw [List.intercalate_singleton, List.intercalate_singleton] at same
      rw [same]
    | cons next parts =>
      obtain ⟨next', parts', rfl⟩ := List.exists_cons_of_length_eq_add_one counts.symm
      rw [List.intercalate_cons_cons, List.intercalate_cons_cons, List.append_assoc,
        List.append_assoc] at same
      obtain ⟨first, rest⟩ := Program.cut_inj (bare part List.mem_cons_self)
        (bare' part' List.mem_cons_self) same
      rw [first, ih counts (fun p mem => bare p (List.mem_cons_of_mem _ mem))
        (fun p mem => bare' p (List.mem_cons_of_mem _ mem)) (List.cons.inj rest).2]

theorem Single.ReadFrom.comma_not_mem {x : Single} {text : String} (read : x.ReadFrom text) :
    ',' ∉ text.toList := by
  obtain ⟨sign, whole, fraction, scalar, text, _⟩ := read
  have digits : ',' ∉ whole ++ '.' :: fraction := by
    simpa using scalar.not_mem (show ','.isDigit = false by decide)
  rw [text, List.append_assoc]
  exact not_mem_signed (by decide) scalar.signed digits

theorem comma_not_mem_of_read {xs : List Single} {parts : List String}
    (read : List.Forall₂ Single.ReadFrom xs parts) :
    ∀ part ∈ parts.map String.toList, ',' ∉ part := by
  induction read with
  | nil => simp
  | cons head _ ih => exact List.forall_mem_cons.mpr ⟨head.comma_not_mem, ih⟩

/-- The arguments of a call are read in one way. -/
theorem reads_unique {xs ys : List Single} {parts parts' : List String}
    (count : xs.length = ys.length) (hx : List.Forall₂ Single.ReadFrom xs parts)
    (hy : List.Forall₂ Single.ReadFrom ys parts')
    (same : ", ".intercalate parts = ", ".intercalate parts') : xs = ys := by
  have chars := congrArg String.toList same
  rw [String.toList_intercalate, String.toList_intercalate] at chars
  have counts : parts.length = parts'.length := by
    rw [← hx.length_eq, ← hy.length_eq, count]
  have equal := intercalate_inj (by simpa using counts) (comma_not_mem_of_read hx)
    (comma_not_mem_of_read hy) chars
  obtain rfl := List.map_injective_iff.mpr (fun _ _ => String.toList_injective) equal
  exact List.left_unique_forall₂' (fun _ _ _ read read' => read.unique read') hx hy

namespace Value

theorem length_toList (v : Value) : v.toList.length = v.type.size := by simp [toList]

/-- Every value with finite components is read from what is written for it. -/
theorem readFrom_toGlsl {v : Value} (finite : ∀ x ∈ v.toList, x.isFinite = true) :
    v.ReadFrom v.toGlsl := by
  rw [toGlsl]
  split
  · rename_i type
    have count : v.toList.length = 1 := by rw [length_toList, type, ValueType.size]
    obtain ⟨x, only⟩ := List.length_eq_one_iff.mp count
    rw [only]
    refine .scalar type only ?_
    simpa using readFrom_glslFloat (finite x (only ▸ List.mem_cons_self))
  · rename_i composite
    refine .call composite ?_
    rw [List.forall₂_map_right_iff, List.forall₂_same]
    exact fun x mem => readFrom_glslFloat (finite x mem)

/-- One value of a type at most is read from a text. -/
theorem ReadFrom.unique {v w : Value} {text : String} (type : v.type = w.type)
    (hv : v.ReadFrom text) (hw : w.ReadFrom text) : v = w := by
  have count : v.toList.length = w.toList.length := by
    rw [length_toList, length_toList, type]
  refine ext_toList type ?_
  -- both texts are calls, so only the equation between them can be taken apart
  generalize same : text = text' at hw
  cases hv with
  | scalar float only read =>
    cases hw with
    | scalar _ only' read' =>
      subst same
      rw [only, only', read.unique read']
    | call composite => exact absurd (type ▸ float) composite
  | call composite read =>
    cases hw with
    | scalar float => exact absurd (type ▸ float) composite
    | call _ read' =>
      refine reads_unique count read read' (String.toList_inj.mp ?_)
      have chars := congrArg String.toList same
      rw [type] at chars
      simpa using chars

/-- What is written for a value with finite components is read as this value and as no other of its
type, so that it is written for no other; and no scalar in it reads as an integer. -/
theorem toGlsl_decodes {v : Value} (finite : ∀ x ∈ v.toList, x.isFinite = true) :
    v.ReadFrom v.toGlsl ∧
      (∀ w : Value, w.type = v.type → w.ReadFrom v.toGlsl → w = v) ∧
      (∀ w : Value, w.type = v.type → (∀ x ∈ w.toList, x.isFinite = true) →
        (v.toGlsl = w.toGlsl ↔ v = w)) ∧
      ∀ x text, Single.ReadFrom x text → ¬ IntegerLike text := by
  have read := readFrom_toGlsl finite
  refine ⟨read, fun w type other => other.unique type read, fun w type finite' => ?_,
    fun x text read => read.not_integerLike⟩
  constructor
  · intro same
    have other := readFrom_toGlsl finite'
    rw [← same] at other
    exact read.unique type.symm other
  · rintro rfl
    rfl

/-- The negative zero, the least number above zero and the largest one. -/
theorem toGlsl_decodes_extremes :
    let v : Value := ⟨.vec3, #v[⟨0x80000000⟩, ⟨1⟩, ⟨0x7F7FFFFF⟩]⟩
    let w : Value := ⟨.vec3, #v[⟨0⟩, ⟨1⟩, ⟨0x7F7FFFFF⟩]⟩
    v.toGlsl = "vec3(-0.0, 0.000000000000000000000000000000000000000000001, " ++
        "340282350000000000000000000000000000000.0)" ∧
      v.ReadFrom v.toGlsl ∧ ¬ w.ReadFrom v.toGlsl ∧ v.toGlsl ≠ w.toGlsl := by
  intro v w
  have other : v ≠ w := by decide
  obtain ⟨read, unique, same, _⟩ := toGlsl_decodes (v := v) (by decide)
  exact ⟨by decide +kernel, read, fun read' => other (unique w rfl read').symm,
    fun equal => other ((same w rfl (by decide)).mp equal)⟩

end Value

end ParticleShading
