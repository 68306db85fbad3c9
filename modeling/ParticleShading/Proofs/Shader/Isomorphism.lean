import ParticleShading.Proofs.Shader.Compilation
import ParticleShading.Proofs.Shader.Renaming
import Mathlib.Data.List.Flatten

/-!
# Isomorphic graphs compile alike

A source names nodes by their positions in dependency order, never by their
ids. `Program.SameText` lists what the text of a program depends on; a program
with all ids renamed agrees with it there. So isomorphic graphs compile to the
same text, or neither compiles.
-/

namespace ParticleShading

/-- What a compilation hands out: the text of both sources, the uniforms and the number of nodes. -/
def CompiledShader.written (shader : CompiledShader) :
    String × String × List UniformDeclaration × Nat :=
  (shader.vertex.text, shader.fragment.text, shader.uniforms, shader.nodeCount)

namespace Program

/-- The statements of `main` in one stage. -/
def main (p : Program) (stage : Stage) (annotate : Bool) : List Statement :=
  p.labeled.flatMap fun (label, node) => p.statements stage annotate label node

/-- The sources are put around the injected lines once all checks are done. -/
theorem compile_eq (p : Program) (config : CompilerConfig) :
    p.compile config = do
      let uniforms ← p.uniforms
      let vertex ← p.injectedLines .vertex config.injections
      let fragment ← p.injectedLines .fragment config.injections
      return ⟨p.sourceAround config uniforms .vertex vertex,
        p.sourceAround config uniforms .fragment fragment, uniforms, p.nodes.length⟩ := by
  unfold compile
  simp only [source_eq]
  cases p.uniforms with
  | error e => rfl
  | ok uniforms =>
    cases p.injectedLines .vertex config.injections with
    | error e => rfl
    | ok vertex => cases p.injectedLines .fragment config.injections <;> rfl

/-- Programs that are written alike. -/
structure SameText (p p' : Program) : Prop where
  length : p'.nodes.length = p.nodes.length
  declarations : p'.declarations = p.declarations
  rootOutput : p'.rootOutput = p.rootOutput
  varyings : p'.varyings = p.varyings
  headers : p'.headers = p.headers
  globals : p'.globals = p.globals
  main : ∀ stage annotate, (p'.main stage annotate).map (Statement.text stage) =
    (p.main stage annotate).map (Statement.text stage)

namespace SameText

variable {p p' : Program} {injections : List Injection} {lines : List String}
variable {uniforms : List UniformDeclaration}

theorem injectedLines (same : p.SameText p') (stage : Stage) :
    p'.injectedLines stage injections = p.injectedLines stage injections := by
  induction injections with
  | nil => rfl
  | cons first rest ih => rw [Program.injectedLines, Program.injectedLines, same.rootOutput, ih]

theorem text (same : p.SameText p') (config : CompilerConfig) (stage : Stage) :
    (p'.sourceAround config uniforms stage lines).text =
      (p.sourceAround config uniforms stage lines).text := by
  have main := same.main stage config.annotate
  simp only [Program.main] at main
  simp only [sourceAround, Source.text, same.varyings, same.headers, same.globals, main]

/-- Programs that are written alike compile alike. -/
theorem compile (same : p.SameText p') (config : CompilerConfig) :
    (p'.compile config).toOption.map CompiledShader.written =
      (p.compile config).toOption.map CompiledShader.written := by
  have uniforms : p'.uniforms = p.uniforms := by
    rw [Program.uniforms, Program.uniforms, same.declarations]
  rw [compile_eq, compile_eq, uniforms, same.injectedLines, same.injectedLines]
  cases p.uniforms with
  | error e => rfl
  | ok table =>
    cases p.injectedLines .vertex config.injections with
    | error e => rfl
    | ok vertex =>
      cases p.injectedLines .fragment config.injections with
      | error e => rfl
      | ok fragment =>
        apply congrArg some
        simp only [CompiledShader.written, same.text, same.length]

end SameText

/-! ## Programs with renamed nodes -/

def rename (f : NodeId → NodeId) (p : Program) : Program :=
  ⟨p.nodes.map (Node.renameEntry f)⟩

/-- The nodes of a program and those they read keep their labels when they are renamed. -/
structure KeepsLabels (p : Program) (f : NodeId → NodeId) : Prop where
  listed : ∀ id node, (id, node) ∈ p.nodes → (p.rename f).labelOf (f id) = p.labelOf id
  read : ∀ id node, (id, node) ∈ p.nodes → ∀ input source, node.Reads input source →
    (p.rename f).labelOf (f source.node) = p.labelOf source.node

section Rename

variable {p : Program} {f : NodeId → NodeId}

theorem labeled_rename :
    (p.rename f).labeled = p.labeled.map fun (label, node) => (label, node.rename f) := by
  simp only [labeled, rename, List.zipIdx_map, List.map_map]
  rfl

theorem declarations_rename : (p.rename f).declarations = p.declarations :=
  List.flatMap_map ..

theorem varyings_rename : (p.rename f).varyings = p.varyings := by
  rw [varyings, labeled_rename]
  exact List.flatMap_map ..

theorem globals_rename : (p.rename f).globals = p.globals := by
  rw [globals, labeled_rename]
  exact List.flatMap_map ..

theorem headers_rename : (p.rename f).headers = p.headers := by
  funext stage
  simp only [headers, rename, List.filterMap_map]
  rfl

theorem mem_of_mem_labeled {label : String} {node : Node} (mem : (label, node) ∈ p.labeled) :
    ∃ id, (id, node) ∈ p.nodes := by
  obtain ⟨⟨⟨id, other⟩, k⟩, listed, same⟩ := List.mem_map.mp mem
  obtain ⟨rfl, rfl⟩ := Prod.mk.inj same
  exact ⟨id, List.fst_mem_of_mem_zipIdx listed⟩

/-- The lines that read the inputs of a node. -/
theorem inputLines_eq (node : Node) :
    node.definition.inputs.zipWith Block.inputLine (node.bindings.map p.reading) =
      node.inputs.map fun (input, binding) => Block.inputLine input (p.reading binding) := by
  rw [List.zipWith_map_right, Node.inputs, List.map_zip_eq_zipWith]
  rfl

end Rename

namespace KeepsLabels

variable {p : Program} {f : NodeId → NodeId} {id : NodeId} {node : Node} {label : String}
variable {stage : Stage}

theorem rootOutput (keeps : p.KeepsLabels f) : (p.rename f).rootOutput = p.rootOutput := by
  funext output
  have last : (p.rename f).nodes.getLast? = p.nodes.getLast?.map (Node.renameEntry f) :=
    List.getLast?_map ..
  rw [Program.rootOutput, Program.rootOutput, last]
  cases root : p.nodes.getLast? with
  | none => rfl
  | some entry =>
    have label := keeps.listed entry.1 entry.2 (List.mem_of_getLast? root)
    simp only [Option.map_some, Node.renameEntry, label]
    rfl

theorem inputLines (keeps : p.KeepsLabels f) (listed : (id, node) ∈ p.nodes) :
    node.definition.inputs.zipWith Block.inputLine
        ((node.rename f).bindings.map (p.rename f).reading) =
      node.definition.inputs.zipWith Block.inputLine (node.bindings.map p.reading) := by
  have renamed := inputLines_eq (p := p.rename f) (node.rename f)
  rw [Node.inputs_rename, Search.Pending.rename, List.map_map] at renamed
  refine renamed.trans (Eq.trans ?_ (inputLines_eq node).symm)
  apply List.map_congr_left
  rintro ⟨input, binding⟩ mem
  cases binding with
  | literal value => rfl
  | expr source => rfl
  | output source =>
    have label := keeps.read id node listed input source mem
    simp only [Function.comp, Binding.rename, OutputRef.rename, reading, label]

theorem blockText (keeps : p.KeepsLabels f) (listed : (id, node) ∈ p.nodes) :
    Block.text stage ⟨label, node.definition, (node.rename f).bindings.map (p.rename f).reading⟩ =
      Block.text stage ⟨label, node.definition, node.bindings.map p.reading⟩ := by
  simp only [Block.text, keeps.inputLines listed]

theorem statements (keeps : p.KeepsLabels f) (listed : (id, node) ∈ p.nodes) (annotate : Bool) :
    ((p.rename f).statements stage annotate label (node.rename f)).map (Statement.text stage) =
      (p.statements stage annotate label node).map (Statement.text stage) := by
  have block : Statement.text stage (.block ⟨label, node.definition,
        (node.rename f).bindings.map (p.rename f).reading⟩) =
      Statement.text stage (.block ⟨label, node.definition, node.bindings.map p.reading⟩) :=
    keeps.blockText listed
  have definition : (node.rename f).definition = node.definition := rfl
  have name : (node.rename f).name = node.name := rfl
  simp only [Program.statements, definition, name]
  cases node.definition.varying with
  | false => simp only [List.map_append, List.map_cons, block]
  | true =>
    cases stage with
    | vertex => simp only [List.map_append, List.map_cons, block]
    | fragment => rfl

theorem main (keeps : p.KeepsLabels f) (annotate : Bool) :
    ((p.rename f).main stage annotate).map (Statement.text stage) =
      (p.main stage annotate).map (Statement.text stage) := by
  simp only [Program.main, labeled_rename, List.map_flatMap, List.flatMap_map]
  refine List.flatMap_congr fun (label, node) mem => ?_
  obtain ⟨id, listed⟩ := mem_of_mem_labeled mem
  exact keeps.statements listed annotate

theorem sameText (keeps : p.KeepsLabels f) : p.SameText (p.rename f) where
  length := List.length_map ..
  declarations := declarations_rename
  rootOutput := keeps.rootOutput
  varyings := varyings_rename
  headers := headers_rename
  globals := globals_rename
  main _ annotate := keeps.main annotate

end KeepsLabels

end Program

/-! ## Isomorphic graphs -/

namespace Graph

/-- What a compilation hands out depends on the program that the root gives. -/
theorem written_compile (g : Graph) (config : CompilerConfig) (root : NodeId) :
    (g.compile config root).toOption.map CompiledShader.written =
      (g.linearize root).toOption.bind fun nodes =>
        ((Program.mk nodes).compile config).toOption.map CompiledShader.written := by
  rw [Graph.compile]
  cases g.linearize root with
  | error e => rfl
  | ok nodes => cases hc : (Program.mk nodes).compile config <;> simp [Except.toOption, hc]

namespace Isomorphism

variable {g g' : Graph} {root root' id : NodeId} {f : NodeId → NodeId}
variable {nodes : List (NodeId × Node)}

/-- Positions in dependency order do not move. -/
theorem labelOf (order : g.DependencyOrder root nodes)
    (order' : g'.DependencyOrder root' (nodes.map (Node.renameEntry f)))
    (reached : g.Reaches root id) :
    ((Program.mk nodes).rename f).labelOf (f id) = (Program.mk nodes).labelOf id := by
  obtain ⟨k, node, at_k⟩ := order.exists_position reached
  have renamed : (nodes.map (Node.renameEntry f))[k]? = some (f id, node.rename f) := by
    rw [List.getElem?_map, at_k]
    rfl
  exact (order'.labelOf renamed).trans (order.labelOf at_k).symm

theorem keepsLabels (order : g.DependencyOrder root nodes)
    (order' : g'.DependencyOrder root' (nodes.map (Node.renameEntry f))) :
    (Program.mk nodes).KeepsLabels f where
  listed id _ listed :=
    labelOf order order' ((order.mem_iff id).mp (List.mem_map_of_mem listed))
  read id node listed _ _ reads := by
    have reached := (order.mem_iff id).mp (List.mem_map_of_mem listed)
    exact labelOf order order' (reached.reads (order.held id node listed) reads)

/-- Isomorphic graphs compile to the same, or neither compiles. -/
theorem compile (iso : g.Isomorphism g' root root' f) (config : CompilerConfig) :
    (g'.compile config root').toOption.map CompiledShader.written =
      (g.compile config root).toOption.map CompiledShader.written := by
  have orders := iso.linearize
  rw [written_compile, written_compile, orders]
  cases linearized : g.linearize root with
  | error e => rfl
  | ok nodes =>
    rw [linearized] at orders
    have linearized' : g'.linearize root' = .ok (nodes.map (Node.renameEntry f)) := by
      cases found : g'.linearize root' with
      | error e => simp [found, Except.toOption] at orders
      | ok nodes' =>
        simp only [found, Except.toOption, Option.map_some, Option.some.injEq] at orders
        rw [orders]
    have keeps : (Program.mk nodes).KeepsLabels f :=
      keepsLabels (dependencyOrder_of_linearize linearized)
        (dependencyOrder_of_linearize linearized')
    exact keeps.sameText.compile config

end Isomorphism

/-- The compiled text depends on the shape of what the root reaches and not on its ids. -/
theorem compile_isomorphic {g g' : Graph} {root root' : NodeId} {f : NodeId → NodeId}
    (iso : g.Isomorphism g' root root' f) (config : CompilerConfig) :
    ((∃ shader, g.compile config root = .ok shader) ↔
      ∃ shader, g'.compile config root' = .ok shader) ∧
    ∀ shader shader', g.compile config root = .ok shader →
      g'.compile config root' = .ok shader' →
        shader'.vertex.text = shader.vertex.text ∧ shader'.fragment.text = shader.fragment.text ∧
          shader'.uniforms = shader.uniforms ∧ shader'.nodeCount = shader.nodeCount := by
  have same := iso.compile config
  constructor
  · cases compiled : g.compile config root <;> cases compiled' : g'.compile config root' <;>
      simp [compiled, compiled', Except.toOption] at same ⊢
  · intro shader shader' compiled compiled'
    rw [compiled, compiled'] at same
    have written : shader'.written = shader.written := Option.some.inj same
    simpa only [CompiledShader.written, Prod.mk.injEq] using written

/-- The diamond with its nodes inserted in the opposite order. -/
def diamondReversed : Graph :=
  ⟨⟨#[some ⟨Library.time, []⟩,
    some ⟨Library.vertexNormal, []⟩,
    some ⟨Library.scale .vec3, [.node ⟨1⟩, .expr "0.5"]⟩,
    some ⟨Library.scale .vec3, [.node ⟨1⟩, .node ⟨0⟩]⟩,
    some ⟨Library.add .vec3, [.node ⟨3⟩, .node ⟨2⟩]⟩]⟩⟩

theorem linearize_diamondReversed : diamondReversed.linearize ⟨4⟩ = .ok
    [(⟨1⟩, ⟨Library.vertexNormal, []⟩), (⟨0⟩, ⟨Library.time, []⟩),
      (⟨3⟩, ⟨Library.scale .vec3, [.node ⟨1⟩, .node ⟨0⟩]⟩),
      (⟨2⟩, ⟨Library.scale .vec3, [.node ⟨1⟩, .expr "0.5"]⟩),
      (⟨4⟩, ⟨Library.add .vec3, [.node ⟨3⟩, .node ⟨2⟩]⟩)] := by cbv

def reverseId (id : NodeId) : NodeId := ⟨4 - id.index⟩

theorem reverseId_reverseId (id : NodeId) : reverseId (reverseId id) = id := by
  have index : 4 - (4 - id.index) = id.index := by
    rw [UInt32.sub_eq_add_neg, UInt32.neg_sub, UInt32.add_comm, UInt32.sub_add_cancel]
  exact congrArg Handle.mk index

/-- Counting the nodes from the other end is an isomorphism. -/
theorem isomorphism_reverseId : diamond.Isomorphism diamondReversed ⟨0⟩ ⟨4⟩ reverseId := by
  have reached (id : NodeId) : diamond.Reaches ⟨0⟩ id ↔ id ∈ [⟨3⟩, ⟨4⟩, ⟨1⟩, ⟨2⟩, ⟨0⟩] :=
    ((dependencyOrder_of_linearize linearize_diamond).mem_iff id).symm
  have reached' (id : NodeId) :
      diamondReversed.Reaches ⟨4⟩ id ↔ id ∈ [⟨1⟩, ⟨0⟩, ⟨3⟩, ⟨2⟩, ⟨4⟩] :=
    ((dependencyOrder_of_linearize linearize_diamondReversed).mem_iff id).symm
  have forth : ∀ id ∈ ([⟨3⟩, ⟨4⟩, ⟨1⟩, ⟨2⟩, ⟨0⟩] : List NodeId),
      reverseId id ∈ [⟨1⟩, ⟨0⟩, ⟨3⟩, ⟨2⟩, ⟨4⟩] := by decide
  have back : ∀ id ∈ ([⟨1⟩, ⟨0⟩, ⟨3⟩, ⟨2⟩, ⟨4⟩] : List NodeId),
      reverseId id ∈ [⟨3⟩, ⟨4⟩, ⟨1⟩, ⟨2⟩, ⟨0⟩] := by decide
  refine ⟨?_, rfl, ?_, ?_⟩
  · have inverse : Set.InvOn reverseId reverseId {id | diamond.Reaches ⟨0⟩ id}
        {id | diamondReversed.Reaches ⟨4⟩ id} :=
      ⟨fun id _ => reverseId_reverseId id, fun id _ => reverseId_reverseId id⟩
    apply inverse.bijOn
    · intro id mem
      exact (reached' _).mpr (forth id ((reached id).mp mem))
    · intro id mem
      exact (reached _).mpr (back id ((reached' id).mp mem))
  · simp only [reached]
    decide
  · simp only [reached, List.forall_mem_cons]
    exact ⟨rfl, rfl, rfl, rfl, rfl, by simp⟩

/-- Both diamonds give one text. -/
theorem compile_isomorphic_reversed :
    ∃ shader shader',
      diamond.compile ⟨[⟨.fragment, "csm_DiffuseColor = {value};"⟩], true⟩ ⟨0⟩ =
        .ok shader ∧
      diamondReversed.compile ⟨[⟨.fragment, "csm_DiffuseColor = {value};"⟩], true⟩ ⟨4⟩ =
        .ok shader' ∧
      shader'.vertex.text = shader.vertex.text ∧ shader'.fragment.text = shader.fragment.text ∧
      shader'.uniforms = shader.uniforms ∧ shader'.nodeCount = 5 := by
  let config : CompilerConfig := ⟨[⟨.fragment, "csm_DiffuseColor = {value};"⟩], true⟩
  have count : (diamond.compile config ⟨0⟩).toOption.map (·.nodeCount) = some 5 := by cbv
  obtain ⟨succeeds, same⟩ := compile_isomorphic isomorphism_reverseId config
  cases compiled : diamond.compile config ⟨0⟩ with
  | error e => simp [compiled, Except.toOption] at count
  | ok shader =>
    obtain ⟨shader', compiled'⟩ := succeeds.mp ⟨shader, compiled⟩
    obtain ⟨vertex, fragment, uniforms, nodes⟩ := same shader shader' compiled compiled'
    rw [compiled] at count
    exact ⟨shader, shader', rfl, compiled', vertex, fragment, uniforms,
      nodes.trans (Option.some.inj count)⟩

end Graph

end ParticleShading
