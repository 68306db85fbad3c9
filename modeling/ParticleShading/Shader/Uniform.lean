import ParticleShading.Shader.Error
import ParticleShading.Text.Quoted

/-!
# Uniforms

A uniform is a handle to a cell. Handles to one cell see the same value, and
every value lives in an explicit store of cells, so reading, setting and
advancing are plain functions of the store.
-/

namespace ParticleShading

/-- How a value changes with a frame of `delta` seconds. -/
inductive UpdateRule where
  | static
  | elapsed
  | custom (rule : Value → Single → Value)

namespace UpdateRule

/-- The next value. Elapsed time adds up in a `float` and leaves other values. -/
def apply (rule : UpdateRule) (current : Value) (delta : Single) : Value :=
  match rule with
  | .static => current
  | .elapsed =>
    match current.asFloat? with
    | some t => .float (t + delta)
    | none => current
  | .custom f => f current delta

/-- A scalar doubles and gains the delta; other values stay. -/
def doubling : UpdateRule :=
  .custom fun current delta =>
    match current.asFloat? with
    | some v => .float (v * 2 + delta)
    | none => current

/-- Whatever the value was, the next one is a pair of deltas. -/
def deltaPair : UpdateRule := .custom fun _ delta => .vec2 ⟨delta, delta⟩

def inspect : UpdateRule → String
  | .static => "Static"
  | .elapsed => "ElapsedTime"
  | .custom _ => "Custom(..)"

end UpdateRule

/-- A uniform that a shader asks for; the initial value fixes its type. -/
structure UniformDeclaration where
  name : String
  initial : Value
  rule : UpdateRule

def UniformDeclaration.type (d : UniformDeclaration) : ValueType := d.initial.type

/-- The values behind all uniforms, cell by cell. -/
structure Cells where
  values : Array Value

namespace Cells

def empty : Cells := ⟨#[]⟩

def size (cells : Cells) : Nat := cells.values.size

end Cells

/-- A handle to a cell under a name and a declared type. -/
structure Uniform where
  name : String
  type : ValueType
  cell : Nat
  rule : UpdateRule

namespace Uniform

/-- A uniform over a fresh cell. -/
def allocate (d : UniformDeclaration) (cells : Cells) : Uniform × Cells :=
  (⟨d.name, d.type, cells.size, d.rule⟩, ⟨cells.values.push d.initial⟩)

/-- The value in the cell; a cell outside the store reads as zero. -/
def get (u : Uniform) (cells : Cells) : Value := (cells.values[u.cell]?).getD (.zero u.type)

/-- The value if it is a scalar. -/
def float? (u : Uniform) (cells : Cells) : Option Single := (u.get cells).asFloat?

/-- Overwrites the cell with a literal coerced to the declared type. -/
def set (u : Uniform) (value : Value) (cells : Cells) : Except ShaderError Cells :=
  match value.coerce? u.type with
  | none => .error (.typeMismatch "uniform" u.name u.type value.type)
  | some coerced => .ok ⟨cells.values.setIfInBounds u.cell coerced⟩

/-- Applies the update rule once. -/
def advance (u : Uniform) (delta : Single) (cells : Cells) : Cells :=
  ⟨cells.values.setIfInBounds u.cell (u.rule.apply (u.get cells) delta)⟩

/-- Whether two handles have one cell. -/
def sharesStorage (u v : Uniform) : Bool := u.cell = v.cell

def inspect (u : Uniform) (cells : Cells) : String :=
  "Uniform \x7b name: " ++ Text.quote u.name ++ ", value: " ++ (u.get cells).inspect ++
    ", update: " ++ u.rule.inspect ++ " \x7d"

/-- A fresh uniform reads as its initial value. -/
theorem get_allocate (d : UniformDeclaration) (cells : Cells) :
    (allocate d cells).1.get (allocate d cells).2 = d.initial := by
  simp [allocate, get, Cells.size]

/-- A handle to another cell sees no change. -/
theorem get_advance_of_ne {u v : Uniform} (h : ¬ u.sharesStorage v) (delta : Single)
    (cells : Cells) : v.get (u.advance delta cells) = v.get cells := by
  have h : u.cell ≠ v.cell := by simpa [sharesStorage] using h
  simp [get, advance, Array.getElem?_setIfInBounds_ne h]

theorem get_advance {u : Uniform} (delta : Single) {cells : Cells} (h : u.cell < cells.size) :
    u.get (u.advance delta cells) = u.rule.apply (u.get cells) delta := by
  simp only [Cells.size] at h
  simp [get, advance, h]

theorem get_set {u : Uniform} {value coerced : Value} {cells after : Cells}
    (h : u.cell < cells.size) (hs : u.set value cells = .ok after)
    (hc : value.coerce? u.type = some coerced) : u.get after = coerced := by
  simp only [Cells.size] at h
  simp only [set, hc] at hs
  cases hs
  simp [get, h]

end Uniform

/-- The uniforms of one shader in the order of their names. -/
structure UniformTable where
  entries : List Uniform

namespace UniformTable

/-- Gives every declaration a fresh cell. -/
def allocate : List UniformDeclaration → Cells → UniformTable × Cells
  | [], cells => (⟨[]⟩, cells)
  | d :: rest, cells =>
    let (u, cells) := Uniform.allocate d cells
    let (table, cells) := allocate rest cells
    (⟨u :: table.entries⟩, cells)

def find? (table : UniformTable) (name : String) : Option Uniform :=
  table.entries.find? (·.name = name)

/-- The value under a name if it is a scalar. -/
def float? (table : UniformTable) (name : String) (cells : Cells) : Option Single := do
  (← table.find? name).float? cells

/-- Applies every update rule once. -/
def advance (table : UniformTable) (delta : Single) (cells : Cells) : Cells :=
  table.entries.foldl (fun cells u => u.advance delta cells) cells

end UniformTable

end ParticleShading
