import ParticleShading.Config
import ParticleShading.Single
import ParticleShading.Toml.Document

/-!
# Decoding

Reads plain data out of configuration values. A record is a table with named
fields or an array with the fields in order. Unknown keys and surplus items of
an array are passed over, integers stand for floats, and nothing else is
converted.
-/

namespace ParticleShading.Toml

namespace Value

def asString? : Value → Option String
  | .string text => some text
  | _ => none

def asBool? : Value → Option Bool
  | .boolean b => some b
  | _ => none

/-- An integer that counts something. -/
def asSize? : Value → Option Nat
  | .integer n => if 0 ≤ n then some n.toNat else none
  | _ => none

/-- A single precision number, rounded once from what is written as an integer
and once more from what is written as a double. -/
def asFloat? : Value → Option Single
  | .integer n => some (.ofInt64 (Int64.ofInt n))
  | .float x => some (.ofDouble x)
  | _ => none

def asArray? : Value → Option (List Value)
  | .array items => some items
  | _ => none

/-- Exactly `count` floats. -/
def asFloats? (count : Nat) (v : Value) : Option (List Single) := do
  let xs ← (← v.asArray?).mapM asFloat?
  guard (xs.length = count)
  return xs

/-- The fields of a record, absent ones as `none`. -/
def fields? (names : List String) : Value → Option (List (Option Value))
  | .table entries => some (names.map fun name => entries.lookup name)
  | .array items => some (names.zipIdx.map fun (_, index) => items[index]?)
  | _ => none

/-- One of several names: a string, or a table with the name as its only key
and nothing in it. -/
def asName? : Value → Option String
  | .string text => some text
  | .table [(name, .table [])] => some name
  | .table [(name, .array [])] => some name
  | _ => none

end Value

/-- A field that has to be there. -/
def required {α : Type} (decode : Value → Option α) : Option Value → Option α
  | some v => decode v
  | none => none

/-- A field that may be absent. -/
def orElse {α : Type} (default : α) (decode : Value → Option α) : Option Value → Option α
  | some v => decode v
  | none => some default

/-- Reads and decodes a document. -/
def load {α : Type} (decode : Value → Option α) (source : ConfigSource) :
    Except ConfigError α := do
  let text ← source.read
  match (parse? text).bind decode with
  | some a => return a
  | none => .error .malformed

end ParticleShading.Toml
