/-!
# Configuration values

The values of a TOML document. Tables keep their keys in the order of their
first appearance. Dates are checked when they are read and then forgotten: no
configuration asks for one.
-/

namespace ParticleShading.Toml

inductive Value where
  | string (text : String)
  | integer (value : Int)
  | float (value : Float)
  | boolean (value : Bool)
  | datetime
  | array (items : List Value)
  | table (entries : List (String × Value))

end ParticleShading.Toml
