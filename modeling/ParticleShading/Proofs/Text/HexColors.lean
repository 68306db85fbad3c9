import ParticleShading.Color

/-!
# Colors in hexadecimal

The texts that are read as a color. The notation has two digits for a channel,
or one that counts for both, and perhaps a mark in front. What is read is a
little more: an octet may also be a plus sign and one digit, so a text with
signs in place of digits is no error. Without a plus sign exactly the notation
is read.
-/

namespace ParticleShading

namespace Text

/-- The digits in the order of their values. -/
def lowerDigits : List Char := "0123456789abcdef".toList

def upperDigits : List Char := "0123456789ABCDEF".toList

/-- A digit with its value, letters in either case. -/
def HexDigit (c : Char) (value : Nat) : Prop :=
  lowerDigits[value]? = some c ∨ upperDigits[value]? = some c

/-- Two digits, the first one counting sixteens. -/
inductive Octet : Char → Char → Nat → Prop where
  | digits {high low : Char} {x y : Nat} (first : HexDigit high x) (second : HexDigit low y) :
    Octet high low (16 * x + y)

/-- Two digits, or a plus sign and one. -/
inductive SignedOctet : Char → Char → Nat → Prop where
  | digits {high low : Char} {x y : Nat} (first : HexDigit high x) (second : HexDigit low y) :
    SignedOctet high low (16 * x + y)
  | plus {low : Char} {y : Nat} (second : HexDigit low y) : SignedOctet '+' low y

instance (c : Char) (value : Nat) : Decidable (HexDigit c value) :=
  inferInstanceAs (Decidable (_ ∨ _))

theorem hexDigit?_eq_some_iff {c : Char} {value : Nat} :
    hexDigit? c = some value ↔ HexDigit c value := by
  constructor
  · have listed : ∀ code < 103, ∀ value ∈ hexDigit? (Char.ofNat code),
        HexDigit (Char.ofNat code) value := by decide
    intro read
    have small : c.toNat < 103 := by
      rcases Nat.lt_or_ge c.toNat 103 with small | large
      · exact small
      have beyond {d : Char} (below : d.toNat < 103) : ¬ c ≤ d := by
        rw [Char.le_def, UInt32.le_iff_toNat_le]
        exact Nat.not_le_of_lt (Nat.lt_of_lt_of_le below large)
      rw [hexDigit?, if_neg fun range => beyond (by decide) range.2,
        if_neg fun range => beyond (by decide) range.2,
        if_neg fun range => beyond (by decide) range.2] at read
      cases read
    have digit := listed c.toNat small value
    rw [Char.ofNat_toNat] at digit
    exact digit read
  · have listed : ∀ entry ∈ lowerDigits.zipIdx ++ upperDigits.zipIdx,
        hexDigit? entry.1 = some entry.2 := by decide
    rintro (lower | upper)
    · exact listed (c, value)
        (List.mem_append_left _ (List.mk_mem_zipIdx_iff_getElem?.mpr lower))
    · exact listed (c, value)
        (List.mem_append_right _ (List.mk_mem_zipIdx_iff_getElem?.mpr upper))

theorem not_hexDigit_plus {value : Nat} : ¬ HexDigit '+' value := by
  rw [← hexDigit?_eq_some_iff]
  intro read
  cases read

theorem Octet.ne_plus {high low : Char} {value : Nat} (h : Octet high low value) :
    high ≠ '+' ∧ low ≠ '+' := by
  obtain ⟨first, second⟩ := h
  constructor
  · rintro rfl
    exact not_hexDigit_plus first
  · rintro rfl
    exact not_hexDigit_plus second

end Text

namespace Color

variable {digits : List Char} {color : Color}

/-- The color whose channels are octets over 255. -/
def ofOctets (red green blue : Nat) : Color :=
  ⟨Single.ofNat red / 255, Single.ofNat green / 255, Single.ofNat blue / 255⟩

/-- Three octets one after another, each written with two characters or with one for both. -/
inductive Hexadecimal (octet : Char → Char → Nat → Prop) : List Char → Color → Prop where
  | short {r g b : Char} {red green blue : Nat} (first : octet r r red) (second : octet g g green)
      (third : octet b b blue) : Hexadecimal octet [r, g, b] (ofOctets red green blue)
  | long {r r' g g' b b' : Char} {red green blue : Nat} (first : octet r r' red)
      (second : octet g g' green) (third : octet b b' blue) :
    Hexadecimal octet [r, r', g, g', b, b'] (ofOctets red green blue)

/-- The text has these digits, perhaps behind one mark. -/
def Spells (text : String) (digits : List Char) : Prop :=
  text.toList = digits ∨ text.toList = '#' :: digits

theorem octet?_eq_some_iff {high low : Char} {octet : Nat} :
    octet? high low = some octet ↔ Text.SignedOctet high low octet := by
  constructor
  · intro read
    rw [octet?] at read
    split at read
    · rename_i plus
      subst plus
      exact .plus (Text.hexDigit?_eq_some_iff.mp read)
    · obtain ⟨x, first, read⟩ := Option.bind_eq_some_iff.mp read
      obtain ⟨y, second, read⟩ := Option.bind_eq_some_iff.mp read
      cases read
      exact .digits (Text.hexDigit?_eq_some_iff.mp first) (Text.hexDigit?_eq_some_iff.mp second)
  · rintro (⟨first, second⟩ | second)
    · rw [← Text.hexDigit?_eq_some_iff] at first second
      have digit : high ≠ '+' := by
        rintro rfl
        cases first
      simp [octet?, digit, first, second]
    · rw [octet?, if_pos rfl]
      exact Text.hexDigit?_eq_some_iff.mpr second

theorem ofHexDigits?_eq_some_iff :
    ofHexDigits? digits = some color ↔ Hexadecimal Text.SignedOctet digits color := by
  constructor
  · intro read
    unfold ofHexDigits? at read
    split at read
    · obtain ⟨red, first, read⟩ := Option.bind_eq_some_iff.mp read
      obtain ⟨green, second, read⟩ := Option.bind_eq_some_iff.mp read
      obtain ⟨blue, third, read⟩ := Option.bind_eq_some_iff.mp read
      cases read
      exact .short (octet?_eq_some_iff.mp first) (octet?_eq_some_iff.mp second)
        (octet?_eq_some_iff.mp third)
    · obtain ⟨red, first, read⟩ := Option.bind_eq_some_iff.mp read
      obtain ⟨green, second, read⟩ := Option.bind_eq_some_iff.mp read
      obtain ⟨blue, third, read⟩ := Option.bind_eq_some_iff.mp read
      cases read
      exact .long (octet?_eq_some_iff.mp first) (octet?_eq_some_iff.mp second)
        (octet?_eq_some_iff.mp third)
    · cases read
  · rintro (⟨first, second, third⟩ | ⟨first, second, third⟩)
    all_goals
      rw [ofHexDigits?, octet?_eq_some_iff.mpr first, octet?_eq_some_iff.mpr second,
        octet?_eq_some_iff.mpr third]
      rfl

/-- No octet starts with the mark. -/
theorem ne_mark_of_signedOctet {high low : Char} {octet : Nat}
    (h : Text.SignedOctet high low octet) : high ≠ '#' := by
  rintro rfl
  cases h with
  | digits first second =>
    rw [← Text.hexDigit?_eq_some_iff] at first
    cases first

theorem ofHex?_of_spells {text : String} (spells : Spells text digits)
    (unmarked : ∀ rest, digits ≠ '#' :: rest) : ofHex? text = ofHexDigits? digits := by
  unfold ofHex?
  rcases spells with same | same
  · rw [same]
    split
    · exact absurd rfl (unmarked _)
    · rfl
  · rw [same]
    rfl

theorem Hexadecimal.unmarked (h : Hexadecimal Text.SignedOctet digits color) (rest : List Char) :
    digits ≠ '#' :: rest := by
  rintro rfl
  cases h with
  | short first => exact ne_mark_of_signedOctet first rfl
  | long first => exact ne_mark_of_signedOctet first rfl

theorem exists_spells (text : String) :
    ∃ digits, Spells text digits ∧ ofHex? text = ofHexDigits? digits := by
  unfold ofHex?
  split
  · rename_i digits marked
    exact ⟨digits, Or.inr marked, rfl⟩
  · exact ⟨text.toList, Or.inl rfl, rfl⟩

theorem Hexadecimal.imp {octet octet' : Char → Char → Nat → Prop}
    (h : Hexadecimal octet digits color)
    (each : ∀ high ∈ digits, ∀ low value, octet high low value → octet' high low value) :
    Hexadecimal octet' digits color := by
  cases h with
  | short first second third =>
    exact .short (each _ (by simp) _ _ first) (each _ (by simp) _ _ second)
      (each _ (by simp) _ _ third)
  | long first second third =>
    exact .long (each _ (by simp) _ _ first) (each _ (by simp) _ _ second)
      (each _ (by simp) _ _ third)

theorem signedOctet_of_octet {high low : Char} {value : Nat} (h : Text.Octet high low value) :
    Text.SignedOctet high low value := by
  obtain ⟨first, second⟩ := h
  exact .digits first second

theorem octet_of_signedOctet {high low : Char} {value : Nat} (digit : high ≠ '+')
    (h : Text.SignedOctet high low value) : Text.Octet high low value := by
  cases h with
  | digits first second => exact .digits first second
  | plus second => exact absurd rfl digit

theorem ofHex?_eq_some_iff_signed {text : String} :
    ofHex? text = some color ↔
      ∃ digits, Spells text digits ∧ Hexadecimal Text.SignedOctet digits color := by
  constructor
  · intro read
    obtain ⟨digits, spells, same⟩ := exists_spells text
    exact ⟨digits, spells, ofHexDigits?_eq_some_iff.mp (same.symm.trans read)⟩
  · rintro ⟨digits, spells, written⟩
    rw [ofHex?_of_spells spells written.unmarked]
    exact ofHexDigits?_eq_some_iff.mpr written

theorem Hexadecimal.plus_not_mem (h : Hexadecimal Text.Octet digits color) : '+' ∉ digits := by
  cases h with
  | short first second third =>
    simp [first.ne_plus.1.symm, second.ne_plus.1.symm, third.ne_plus.1.symm]
  | long first second third =>
    simp [first.ne_plus.1.symm, first.ne_plus.2.symm, second.ne_plus.1.symm,
      second.ne_plus.2.symm, third.ne_plus.1.symm, third.ne_plus.2.symm]

theorem Spells.plus_mem_iff {text : String} (spells : Spells text digits) :
    '+' ∈ text.toList ↔ '+' ∈ digits := by
  rcases spells with same | same
  · rw [same]
  · rw [same]
    simp

theorem ofHex?_of_hexadecimal {text : String} (spells : Spells text digits)
    (written : Hexadecimal Text.Octet digits color) : ofHex? text = some color :=
  ofHex?_eq_some_iff_signed.mpr ⟨digits, spells, written.imp fun _ _ _ _ => signedOctet_of_octet⟩

/-- What is read and has no plus sign is of the notation. -/
theorem exists_hexadecimal {text : String} (read : ofHex? text = some color)
    (unsigned : '+' ∉ text.toList) :
    ∃ digits, Spells text digits ∧ Hexadecimal Text.Octet digits color := by
  obtain ⟨digits, spells, written⟩ := ofHex?_eq_some_iff_signed.mp read
  refine ⟨digits, spells, written.imp fun high mem _ _ => octet_of_signedOctet ?_⟩
  rintro rfl
  exact unsigned (spells.plus_mem_iff.mpr mem)

/-- A text is read as a color exactly if it has three or six characters, perhaps behind one mark,
that make up three octets, where an octet is two digits or a plus sign and a digit. So what is read
is the notation, with three or six digits and nothing else, except for a text with a plus sign that
is read as well. Three digits are read as if they were doubled. -/
theorem ofHex?_eq_some_iff (text : String) :
    (∀ color, ofHex? text = some color ↔
      ∃ digits, Spells text digits ∧ Hexadecimal Text.SignedOctet digits color) ∧
    ((∀ color, ofHex? text = some color ↔
        ∃ digits, Spells text digits ∧ Hexadecimal Text.Octet digits color) ↔
      ('+' ∈ text.toList → ofHex? text = none)) ∧
    (∀ color digits, Spells text digits → Hexadecimal Text.Octet digits color →
      ofHex? text = some color) ∧
    ∀ r g b x y z, Text.HexDigit r x → Text.HexDigit g y → Text.HexDigit b z →
      ∀ long, Spells text [r, g, b] → Spells long [r, r, g, g, b, b] →
        ofHex? text = ofHex? long ∧
        ofHex? long = some (ofOctets (16 * x + x) (16 * y + y) (16 * z + z)) := by
  refine ⟨fun color => ofHex?_eq_some_iff_signed, ⟨?_, ?_⟩,
    fun color digits => ofHex?_of_hexadecimal, ?_⟩
  · intro agrees plus
    refine Option.eq_none_iff_forall_ne_some.mpr fun color read => ?_
    obtain ⟨digits, spells, written⟩ := (agrees color).mp read
    exact written.plus_not_mem (spells.plus_mem_iff.mp plus)
  · intro refused color
    refine ⟨fun read => exists_hexadecimal read fun plus => ?_, ?_⟩
    · cases read.symm.trans (refused plus)
    · rintro ⟨digits, spells, written⟩
      exact ofHex?_of_hexadecimal spells written
  · intro r g b x y z red green blue long spells spells'
    have first := ofHex?_of_hexadecimal spells
      (.short (.digits red red) (.digits green green) (.digits blue blue))
    have second := ofHex?_of_hexadecimal spells'
      (.long (.digits red red) (.digits green green) (.digits blue blue))
    exact ⟨first.trans second.symm, second⟩

/-- The short form with a mark and the long form without one. -/
theorem ofHex?_eq_some_iff_sky :
    '+' ∉ "#8cF".toList ∧ Spells "#8cF" ['8', 'c', 'F'] ∧
      Spells "88ccFF" ['8', '8', 'c', 'c', 'F', 'F'] ∧ ofHex? "#8cF" = ofHex? "88ccFF" ∧
      ofHex? "88ccFF" = some (ofOctets 136 204 255) ∧
      ∃ digits, Spells "#8cF" digits ∧ Hexadecimal Text.Octet digits (ofOctets 136 204 255) := by
  obtain ⟨_, agrees, _, doubled⟩ := ofHex?_eq_some_iff "#8cF"
  have unsigned : '+' ∉ "#8cF".toList := by decide
  have marked : Spells "#8cF" ['8', 'c', 'F'] := Or.inr rfl
  have plain : Spells "88ccFF" ['8', '8', 'c', 'c', 'F', 'F'] := Or.inl rfl
  obtain ⟨same, sky⟩ :=
    doubled '8' 'c' 'F' 8 12 15 (by decide) (by decide) (by decide) _ marked plain
  have grammar := agrees.mpr fun plus => absurd plus unsigned
  exact ⟨unsigned, marked, plain, same, sky, (grammar _).mp (same.trans sky)⟩

/-- A text without two digits in a row is read as a color. -/
theorem signs_read_as_color :
    ¬ ∀ text color, ofHex? text = some color →
      ∃ digits, Spells text digits ∧ Hexadecimal Text.Octet digits color := by
  intro everywhere
  obtain ⟨digits, spells, written⟩ :=
    everywhere "+f+f+f" ⟨channel 15, channel 15, channel 15⟩ rfl
  exact written.plus_not_mem (spells.plus_mem_iff.mp (by decide))

end Color

end ParticleShading
