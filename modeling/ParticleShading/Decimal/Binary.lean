import ParticleShading.Single

/-!
# Binary expansions

A single precision number read as a sign, a mantissa and a power of two. Every
finite one is `mantissa * 2 ^ exponent` with a mantissa below `2 ^ 24`.
-/

namespace ParticleShading

/-- What a single precision number stands for. -/
inductive Binary where
  | nan
  | infinite (negative : Bool)
  | finite (negative : Bool) (mantissa : Nat) (exponent : Int)
  deriving DecidableEq

namespace Binary

/-- The least exponent, shared by the subnormal numbers and the first binade. -/
def minExponent : Int := -149

/-- The least mantissa of a normal number. -/
def leadingBit : Nat := 0x800000

def ofSingle (x : Single) : Binary :=
  let n := x.bits.toNat
  let negative := decide (n / leadingBit / 256 = 1)
  let biased := n / leadingBit % 256
  let fraction := n % leadingBit
  if biased = 255 then
    if fraction = 0 then .infinite negative else .nan
  else if biased = 0 then .finite negative fraction minExponent
  else .finite negative (leadingBit + fraction) (minExponent + (biased - 1 : Nat))

end Binary

end ParticleShading
