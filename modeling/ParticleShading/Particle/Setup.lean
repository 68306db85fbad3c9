import ParticleShading.Particle.Random
import ParticleShading.Particle.Spawner

/-!
# Setups as data

A list of steps that fill in a record one after another: fixed values, values
that grow with the batch index, random draws, and the passing of time.
-/

namespace ParticleShading

inductive RecordField where
  | position
  | rotation
  | velocity
  | acceleration
  | scale0
  | scale1
  | color0
  | color1
  | alpha0
  | alpha1
  | delay
  | lifetime
  deriving DecidableEq

namespace RecordField

def all : List (String × RecordField) :=
  [("position", .position), ("rotation", .rotation), ("velocity", .velocity),
   ("acceleration", .acceleration), ("scale0", .scale0), ("scale1", .scale1),
   ("color0", .color0), ("color1", .color1), ("alpha0", .alpha0), ("alpha1", .alpha1),
   ("delay", .delay), ("lifetime", .lifetime)]

def ofName? (name : String) : Option RecordField := all.lookup name

/-- Three components; a single one stands for all. -/
def vector? : List Single → Option (Vec3 Single)
  | [s] => some (.splat s)
  | [x, y, z] => some ⟨x, y, z⟩
  | _ => none

/-- Sets a field. Components that do not fit the field leave the record alone. -/
def set (field : RecordField) (values : List Single) (r : ParticleRecord) : ParticleRecord :=
  let vector (update : Vec3 Single → ParticleRecord) := ((vector? values).map update).getD r
  let scalar (update : Single → ParticleRecord) :=
    match values with
    | [s] => update s
    | _ => r
  match field with
  | .position => vector fun v => { r with position := v }
  | .velocity => vector fun v => { r with velocity := v }
  | .acceleration => vector fun v => { r with acceleration := v }
  | .scale0 => vector fun v => { r with scale := { r.scale with birth := v } }
  | .scale1 => vector fun v => { r with scale := { r.scale with death := v } }
  | .color0 => vector fun v => { r with color := { r.color with birth := ⟨v.x, v.y, v.z⟩ } }
  | .color1 => vector fun v => { r with color := { r.color with death := ⟨v.x, v.y, v.z⟩ } }
  | .alpha0 => scalar fun s => { r with alpha := { r.alpha with birth := s } }
  | .alpha1 => scalar fun s => { r with alpha := { r.alpha with death := s } }
  | .delay => scalar fun s => { r with delay := s }
  | .lifetime => scalar fun s => { r with lifetime := s }
  | .rotation =>
    match values with
    | [x, y, z, w] => { r with rotation := ⟨x, y, z, w⟩ }
    | _ => r

end RecordField

/-- A draw by name. -/
inductive RandomCall where
  | unit
  | plusMinus (amplitude : Single)
  | between (low high : Single)
  | upTo (high : Single)
  | chance (probability : Single)
  | box (amplitude : Single)
  | direction
  | rotation
  deriving DecidableEq

inductive Drawn where
  | floats (values : List Single)
  | truth (b : Bool)
  deriving DecidableEq

def RandomCall.run : RandomCall → Draw Drawn
  | .unit => do return .floats [← Generator.unit]
  | .plusMinus amplitude => do return .floats [← Generator.plusMinus amplitude]
  | .between low high => do return .floats [← Generator.between low high]
  | .upTo high => do return .floats [← Generator.upTo high]
  | .chance probability => do return .truth (← Generator.chance probability)
  | .box amplitude => do return .floats (← Generator.box amplitude).toList
  | .direction => do return .floats (← Generator.direction).toList
  | .rotation => do return .floats (← Generator.rotation).toList

/-- What a setup can reach besides its record. -/
structure Surroundings where
  cells : Cells
  generators : Array Generator

namespace Surroundings

/-- Draws from the generator at a position; there is none past the end. -/
def draw (s : Surroundings) (generator : Nat) (call : RandomCall) : Option Drawn × Surroundings :=
  match s.generators[generator]? with
  | none => (none, s)
  | some g =>
    let (drawn, g) := call.run.run g
    (some drawn, { s with generators := s.generators.setIfInBounds generator g })

end Surroundings

inductive SetupStep where
  | assign (field : RecordField) (values : List Single)
  /-- `base` plus `step` times the batch index. -/
  | ramp (field : RecordField) (base step : Single)
  | draw (field : RecordField) (generator : Nat) (call : RandomCall)
  | advance (uniform : Uniform) (delta : Single)

/-- One step for the particle at a batch index. -/
def SetupStep.run (index : Nat) (step : SetupStep) (r : ParticleRecord) (s : Surroundings) :
    ParticleRecord × Surroundings :=
  match step with
  | .assign field values => (field.set values r, s)
  | .ramp field base slope => (field.set [base + slope * Single.ofNat index] r, s)
  | .draw field generator call =>
    match s.draw generator call with
    | (some (.floats values), s) => (field.set values r, s)
    | (_, s) => (r, s)
  | .advance uniform delta => (r, { s with cells := uniform.advance delta s.cells })

/-- A setup gave up on the particle at a batch index. -/
structure SetupFailure where
  index : Nat
  deriving DecidableEq

def SetupFailure.message (f : SetupFailure) : String := "setup failed at " ++ toString f.index

namespace Setup

/-- The setup that runs steps in order and never refuses. -/
def ofSteps {ε : Type} (steps : List SetupStep) : Setup Surroundings ε := fun index r s =>
  let (r, s) := steps.foldl (fun (r, s) step => step.run index r s) (r, s)
  (.ok r, s)

/-- The setup that refuses one batch index before doing anything. -/
def failingAt {σ : Type} (k : Nat) (setup : Setup σ SetupFailure) : Setup σ SetupFailure :=
  fun index r s => if index = k then (.error ⟨index⟩, s) else setup index r s

end Setup

end ParticleShading
