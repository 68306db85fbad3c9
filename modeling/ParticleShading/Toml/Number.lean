import ParticleShading.Toml.Parser
import ParticleShading.Toml.Text

/-!
# Numbers and dates

Integers are signed and have 64 bits. Floats are double precision numbers; one
that is too large upwards is refused. Underscores stand between digits only.
-/

namespace ParticleShading.Toml

open Toml.Parser

def isDigit (c : Char) : Bool := '0' ≤ c && c ≤ '9'

/-- Digits of a class with single underscores between them. -/
def digitRun (p : Char → Bool) : Parser (List Char) := do
  let first ← satisfy p
  let others ← many (satisfy p <|> (char '_' *> satisfy p))
  return first :: others

def ofDigits (base : Nat) (digits : List Char) : Nat :=
  digits.foldl (fun n c => base * n + (Text.hexDigit? c).getD 0) 0

/-- A sign; the answer is whether it is a minus. -/
def sign : Parser Bool := do
  let c ← perhaps (char '+' <|> char '-')
  return c = some '-'

/-- The digits of a decimal integer: a zero, or a run that does not start with
one. -/
def wholeDigits : Parser (List Char) :=
  (do
    let first ← satisfy fun c => isDigit c && c != '0'
    let others ← many (satisfy isDigit <|> (char '_' *> satisfy isDigit))
    return first :: others) <|>
  (do return [← satisfy isDigit])

/-- Integers that fit into 64 bits. -/
def bounded (n : Int) : Parser Int := do
  guard (Int64.minValue.toInt ≤ n ∧ n ≤ Int64.maxValue.toInt)
  return n

/-- An integer in another base, with its mark and without a sign. -/
def basedInteger (mark : Char) (base : Nat) (p : Char → Bool) : Parser Int := do
  text ['0', mark]
  let digits ← digitRun p
  bounded (ofDigits base digits)

def decimalInteger : Parser Int := do
  let negative ← sign
  let n : Int := ofDigits 10 (← wholeDigits)
  bounded (if negative then -n else n)

def integer : Parser Int :=
  basedInteger 'x' 16 (fun c => (Text.hexDigit? c).isSome) <|>
  basedInteger 'o' 8 (fun c => '0' ≤ c && c ≤ '7') <|>
  basedInteger 'b' 2 (fun c => c = '0' || c = '1') <|>
  decimalInteger

/-- The double next to `digits * 10 ^ exponent`. Beyond the magnitudes of double
precision the answer is infinite or zero at once. -/
def nearestDouble (digits : Nat) (exponent : Int) : Float :=
  let size := exponent + (Nat.toDigits 10 digits).length
  if digits = 0 ∨ size < -400 then 0
  else if 400 < size then 1.0 / 0.0
  else Float.ofScientific digits (exponent < 0) exponent.natAbs

def fractionDigits : Parser (List Char) := char '.' *> digitRun isDigit

def exponentPart : Parser Int := do
  discard (char 'e' <|> char 'E')
  let negative ← sign
  let n : Int := ofDigits 10 (← digitRun isDigit)
  return if negative then -n else n

/-- Digits with a fraction, an exponent, or both. -/
def finiteFloat : Parser Float := do
  let negative ← sign
  let whole ← wholeDigits
  let (fraction, exponent) ←
    (do return ([], ← exponentPart)) <|>
    (do
      let fraction ← fractionDigits
      return (fraction, (← perhaps exponentPart).getD 0))
  let magnitude := nearestDouble (ofDigits 10 (whole ++ fraction)) (exponent - fraction.length)
  guard (negative || magnitude.isFinite)
  return if negative then -magnitude else magnitude

def specialFloat : Parser Float := do
  let negative ← sign
  let magnitude ← (text ['i', 'n', 'f'] *> pure (1.0 / 0.0 : Float)) <|>
    (text ['n', 'a', 'n'] *> pure (0.0 / 0.0 : Float))
  return if negative then -magnitude else magnitude

def float : Parser Float := finiteFloat <|> specialFloat

/-- A number of exactly `digits` digits within bounds. -/
def field (digits low high : Nat) : Parser Nat := fun s => do
  let cs := s.take digits
  guard (cs.length = digits ∧ cs.all isDigit)
  let n := ofDigits 10 cs
  guard (low ≤ n ∧ n ≤ high)
  return (n, s.drop digits)

def daysInMonth (year month : Nat) : Nat :=
  if month = 2 then
    if year % 4 = 0 ∧ (year % 100 ≠ 0 ∨ year % 400 = 0) then 29 else 28
  else if month = 4 ∨ month = 6 ∨ month = 9 ∨ month = 11 then 30
  else 31

/-- A day of the calendar. -/
def date : Parser Unit := do
  let year ← field 4 0 9999
  discard (char '-')
  let month ← field 2 1 12
  discard (char '-')
  discard (field 2 1 (daysInMonth year month))

/-- A time of the day; the last minute may have a leap second. -/
def time : Parser Unit := do
  discard (field 2 0 23)
  discard (char ':')
  discard (field 2 0 59)
  discard (char ':')
  discard (field 2 0 60)
  discard (perhaps (char '.' *> satisfy isDigit *> spanned isDigit))

def offset : Parser Unit :=
  discard (char 'Z' <|> char 'z') <|> do
    discard (char '+' <|> char '-')
    discard (field 2 0 23)
    discard (char ':')
    discard (field 2 0 59)

/-- A date, a time, or both with an optional offset. -/
def datetime : Parser Unit :=
  (do
    date
    discard (perhaps do
      discard (char 'T' <|> char 't' <|> char ' ')
      time
      discard (perhaps offset))) <|>
  time

end ParticleShading.Toml
