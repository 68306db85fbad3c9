import ParticleShading.Particle.Upload
import ParticleShading.Session
import ParticleShading.Proofs.Shader.Search
import ParticleShading.Proofs.Shader.Compilation
import ParticleShading.Proofs.Shader.Evaluation
import ParticleShading.Proofs.Shader.Linearization
import ParticleShading.Proofs.Shader.Names
import ParticleShading.Proofs.Shader.Meaning
import ParticleShading.Proofs.Particle.Placement
import ParticleShading.Proofs.Particle.Ring
import ParticleShading.Proofs.Particle.Drawn
import ParticleShading.Proofs.Particle.Mirror
import ParticleShading.Proofs.Shader.Isomorphism
import ParticleShading.Proofs.Shader.Construction
import ParticleShading.Proofs.Shader.ForwardReferences
import ParticleShading.Proofs.Shader.Bindings
import ParticleShading.Proofs.Shader.Literals
import ParticleShading.Proofs.Shader.Declarations
import ParticleShading.Proofs.Shader.Fallbacks
import ParticleShading.Proofs.Shader.DescriptionSteps
import ParticleShading.Proofs.Shader.Descriptions
import ParticleShading.Proofs.Shader.Matching
import ParticleShading.Proofs.Shader.Layouts
import ParticleShading.Proofs.Shader.DeclarationOrder
import ParticleShading.Proofs.Shader.Persistence
import ParticleShading.Proofs.Shader.Stages
import ParticleShading.Proofs.Shader.Storage
import ParticleShading.Proofs.Shader.PostOrder
import ParticleShading.Proofs.Shader.Cycles
import ParticleShading.Proofs.Shader.DefaultTrees
import ParticleShading.Proofs.Shader.Insertion
import ParticleShading.Proofs.Shader.References
import ParticleShading.Proofs.Particle.Emission
import ParticleShading.Proofs.Particle.Moments
import ParticleShading.Proofs.Particle.Scene
import ParticleShading.Proofs.Particle.Splitting
import ParticleShading.Proofs.Shader.UniformMerge
import ParticleShading.Proofs.Shader.FileScope
import ParticleShading.Proofs.Shader.Stacks
import ParticleShading.Proofs.Shader.StackFailures
import ParticleShading.Proofs.Shader.DeclaredTypes
import ParticleShading.Proofs.Shader.LiteralValues
import ParticleShading.Proofs.Text.HexColors
import ParticleShading.Proofs.Geometry.Rotation
import ParticleShading.Proofs.Shader.Iterations
import ParticleShading.Proofs.Text.Placeholders
import ParticleShading.Proofs.Shader.Agreement
import ParticleShading.Proofs.Shader.Assembly
import ParticleShading.Proofs.DirtyHull
import ParticleShading.Proofs.WriteOnce
import ParticleShading.Proofs.Particle.Items
