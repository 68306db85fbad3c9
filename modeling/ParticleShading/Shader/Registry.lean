import ParticleShading.Shader.Library

/-!
# Registries

Definitions under the keys by which descriptions name them.
-/

namespace ParticleShading

/-- A definition built once. Two factories are the same if one building step
made both, however alike their definitions are. -/
structure Factory where
  stamp : Nat
  definition : Definition

namespace Factory

def same (a b : Factory) : Bool := a.stamp = b.stamp

def inspect (f : Factory) : String := "NodeFactory(" ++ f.definition.name ++ ")"

end Factory

structure Registry where
  entries : List (String × Factory)

namespace Registry

def empty : Registry := ⟨[]⟩

def size (r : Registry) : Nat := r.entries.length

def find? (r : Registry) (key : String) : Option Factory := r.entries.lookup key

/-- Adds a factory or replaces the one under the key. -/
def register (r : Registry) (key : String) (factory : Factory) : Registry :=
  if r.entries.any (·.1 == key) then
    ⟨r.entries.map fun entry => if entry.1 = key then (key, factory) else entry⟩
  else ⟨r.entries ++ [(key, factory)]⟩

/-- Replacing the factory under a key shows at that key alone. -/
theorem lookup_replace (key other : String) (factory : Factory) (entries : List (String × Factory)) :
    (entries.map fun entry => if entry.1 = key then (key, factory) else entry).lookup other =
      if other = key ∧ entries.any (·.1 == key) then some factory else entries.lookup other := by
  induction entries with
  | nil => simp
  | cons entry rest ih =>
    obtain ⟨k, f⟩ := entry
    by_cases hk : k = key
    · subst hk
      by_cases ho : other = k
      · simp [ho]
      · simp [List.lookup_cons, beq_eq_false_iff_ne.2 ho, ho, ih]
    · have hb := beq_eq_false_iff_ne.2 hk
      by_cases ho : other = k
      · subst ho
        simp [hk]
      · simp only [List.map_cons, if_neg hk, List.lookup_cons, beq_eq_false_iff_ne.2 ho, ih,
          List.any_cons, hb, Bool.false_or]

/-- The key now names the factory; the other keys name what they named. -/
theorem find?_register (r : Registry) (key other : String) (factory : Factory) :
    (r.register key factory).find? other = if other = key then some factory else r.find? other := by
  unfold register find?
  split
  · rename_i h
    simp only [lookup_replace, h, and_true]
  · rename_i h
    by_cases ho : other = key
    · have fresh : r.entries.lookup key = none :=
        List.lookup_eq_none_iff.2 fun entry hm => by
          have := fun hk => h (List.any_eq_true.2 ⟨entry, hm, hk⟩)
          grind
      simp [ho, fresh, List.lookup_append]
    · simp [ho, List.lookup_append, List.lookup_cons, beq_eq_false_iff_ne.2 ho]

/-- The types of the arithmetic families. -/
def arithmeticTypes : List ValueType := [.float, .vec2, .vec3, .vec4, .color]

/-- A family has one definition per arithmetic type, its key ending in the name
of the type. -/
def families : List (String × (ValueType → Definition)) :=
  [("add", Library.add), ("subtract", Library.subtract), ("multiply", Library.multiply),
   ("divide", Library.divide), ("scale", Library.scale), ("mix", Library.mix),
   ("pass", Library.passThrough "Pass")]

/-- The definitions that come in one type only, by key. -/
def singles : List (String × Definition) :=
  [("time", Library.time), ("vertex_position", Library.vertexPosition),
   ("vertex_normal", Library.vertexNormal), ("uv", Library.uv), ("sin", Library.sin),
   ("cos", Library.cos), ("sine_wave", Library.sineWave), ("join", Library.join),
   ("split", Library.split), ("fresnel", Library.fresnel), ("master", Library.master)]

/-- The library by key. -/
def builtinDefinitions : List (String × Definition) :=
  singles ++ arithmeticTypes.flatMap fun type =>
    families.map fun (family, definition) => (family ++ "_" ++ type.name, definition type)

/-- The library, every definition built once. -/
def builtin : Registry :=
  ⟨builtinDefinitions.zipIdx.map fun ((key, definition), stamp) => (key, ⟨stamp, definition⟩)⟩

end Registry

end ParticleShading
