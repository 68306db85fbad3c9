import ParticleShading.Single
import ParticleShading.Text.Hex

/-!
# Colors

Linear red, green and blue, and their hexadecimal notation. A channel is two
characters; the short form has one character per channel and doubles it.
-/

namespace ParticleShading

structure Color where
  red : Single
  green : Single
  blue : Single
  deriving DecidableEq

namespace Color

def toList (c : Color) : List Single := [c.red, c.green, c.blue]

def white : Color := ⟨1, 1, 1⟩

def black : Color := ⟨0, 0, 0⟩

/-- A number below 256 in two characters: two hexadecimal digits, or a plus
sign and one. -/
def octet? (high low : Char) : Option Nat := do
  if high = '+' then
    Text.hexDigit? low
  else
    let h ← Text.hexDigit? high
    let l ← Text.hexDigit? low
    return 16 * h + l

/-- A channel runs from zero to one over the 256 octets. -/
def channel (octet : Nat) : Single := Single.ofNat octet / 255

/-- The three channels written one after another. -/
def ofHexDigits? : List Char → Option Color
  | [r, g, b] => do
    return ⟨channel (← octet? r r), channel (← octet? g g), channel (← octet? b b)⟩
  | [r, r', g, g', b, b'] => do
    return ⟨channel (← octet? r r'), channel (← octet? g g'), channel (← octet? b b')⟩
  | _ => none

/-- Reads `rgb` or `rrggbb` with at most one leading `#`. -/
def ofHex? (text : String) : Option Color :=
  match text.toList with
  | '#' :: digits => ofHexDigits? digits
  | digits => ofHexDigits? digits

end Color

end ParticleShading
