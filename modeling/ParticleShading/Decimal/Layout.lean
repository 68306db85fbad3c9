import ParticleShading.Decimal.Shortest

/-!
# Written floats

How a single precision number is written. The digits are the shortest that read
back; a layout says whether an integral number keeps its point and which
magnitudes are written with a power of ten.
-/

namespace ParticleShading

namespace Decimal

/-- The digits with the point in place and no power of ten. -/
def positional (point : Bool) (d : Decimal) : String :=
  let digits := Nat.toDigits 10 d.digits
  if 0 ≤ d.exponent then
    String.ofList (digits ++ List.replicate d.exponent.toNat '0') ++ (if point then ".0" else "")
  else
    let places := (-d.exponent).toNat
    let padded := List.replicate (places + 1 - digits.length) '0' ++ digits
    let whole := padded.length - places
    String.ofList (padded.take whole ++ '.' :: padded.drop whole)

/-- One digit, the others behind a point, and the power of ten. -/
def scientific (d : Decimal) : String :=
  let digits := Nat.toDigits 10 d.digits
  let significant := (digits.reverse.dropWhile (· == '0')).reverse
  let fraction := match significant.drop 1 with
    | [] => []
    | rest => '.' :: rest
  String.ofList (significant.take 1 ++ fraction) ++ "e" ++
    toString (d.exponent + (digits.length - 1 : Nat))

end Decimal

/-- The choices in writing a float. -/
structure FloatLayout where
  /-- Integral numbers end in `.0`. -/
  point : Bool
  /-- The magnitudes written with a power of ten. -/
  scientific : Single → Bool

namespace FloatLayout

/-- Bare digits. -/
def plain : FloatLayout := ⟨false, fun _ => false⟩

/-- Digits that always show a point, so that they never read as an integer. -/
def pointed : FloatLayout := ⟨true, fun _ => false⟩

/-- Digits with a point; nonzero magnitudes below `1e-4` and those from `1e16`
on have a power of ten. -/
def inspected : FloatLayout := ⟨true, fun x => (!x.isZero && x < 1e-4) || 1e16 ≤ x⟩

def write (layout : FloatLayout) (x : Single) : String :=
  match Binary.ofSingle x with
  | .nan => "NaN"
  | .infinite negative => if negative then "-inf" else "inf"
  | .finite negative mantissa exponent =>
    let sign := if negative then "-" else ""
    if mantissa = 0 then sign ++ Decimal.positional layout.point ⟨0, 0⟩
    else
      let d := Decimal.shortest mantissa exponent
      if layout.scientific x.abs then sign ++ d.scientific
      else sign ++ d.positional layout.point

end FloatLayout

end ParticleShading
