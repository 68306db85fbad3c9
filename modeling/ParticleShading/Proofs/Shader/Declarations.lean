import ParticleShading.Proofs.Shader.Bindings
import ParticleShading.Proofs.Shader.Isomorphism
import ParticleShading.Proofs.Shader.Literals

/-!
# Generated declarations

Every input of a block starts from a literal of its own type, from an expression
as it was given, or from a global that an earlier section assigns and that the
file scope declares with the same type. An output without an expression starts
from a literal, and placeholders of injections are replaced by globals of the
root.
-/

namespace ParticleShading

/-! ## Types -/

/-- Types that accept each other are one type in shader text. -/
theorem ValueType.glslName_eq_of_accepts {input source : ValueType}
    (h : input.accepts source = true) : source.glslName = input.glslName := by
  cases input <;> cases source <;> first | rfl | cases h

/-- A line that declares a local name of a type and gives it a value. -/
def declarationLine (type : ValueType) (name value : String) : String :=
  "    " ++ type.glslName ++ " " ++ name ++ " = " ++ value ++ ";\n"

namespace Block

theorem inputLine_eq (input : Input Definition) (reading : Reading) :
    inputLine input reading = declarationLine input.type ("in_" ++ input.name) reading.text := by
  have mark : " in_" = " " ++ "in_" := rfl
  simp only [inputLine, declarationLine, mark, ← String.append_assoc]

/-- An output without an expression starts from a literal of its type. -/
theorem outputLine_of_no_expr {output : Output} (bare : output.expr = none) :
    ∃ value, output.type.IsLiteral value ∧
      outputLine output = declarationLine output.type ("out_" ++ output.name) value := by
  have finite : ∀ x ∈ (Value.zero output.type).toList, x.isFinite = true := by
    intro x mem
    have zero := (Vector.mem_replicate.mp (Vector.mem_toList_iff.mp mem)).2
    rw [zero]
    decide
  have mark : " out_" = " " ++ "out_" := rfl
  refine ⟨(Value.zero output.type).toGlsl, Value.isLiteral_toGlsl finite, ?_⟩
  simp only [outputLine, declarationLine, bare, Option.getD_none, mark, ← String.append_assoc]

end Block

/-! ## Templates -/

namespace Text

variable {ε : Type} {resolve : String → Except ε String} {value : String → String}

/-- The text of a segment once its name is replaced. -/
def Segment.substitute (value : String → String) : Segment → String
  | .plain text => String.ofList text
  | .hole name => value (String.ofList name)

/-- A template with every placeholder replaced. -/
def substitute (value : String → String) (template : String) : String :=
  String.join ((segments template.toList).map (Segment.substitute value))

theorem fill_eq_join {segments : List Segment}
    (known : ∀ name, .hole name ∈ segments →
      resolve (String.ofList name) = .ok (value (String.ofList name))) :
    fill resolve segments = .ok (String.join (segments.map (Segment.substitute value))) := by
  induction segments with
  | nil => rfl
  | cons segment rest ih =>
    have tail := ih fun name mem => known name (List.mem_cons_of_mem _ mem)
    cases segment with
    | plain text =>
      rw [fill, tail, List.map_cons, String.join_cons]
      rfl
    | hole name =>
      rw [fill, tail, known name List.mem_cons_self, List.map_cons, String.join_cons]
      rfl

theorem render_eq_substitute {template : String}
    (known : ∀ name, .hole name ∈ segments template.toList →
      resolve (String.ofList name) = .ok (value (String.ofList name))) :
    render resolve template = .ok (substitute value template) :=
  fill_eq_join known

end Text

/-! ## Sections of `main` -/

/-- A statement gives a name at file scope its value. -/
def Statement.Assigns (name : String) : Statement → Prop
  | .comment _ _ => False
  | .block b => ∃ output ∈ b.definition.outputs, name = Program.globalName b.label output.name
  | .assign target _ => target = name

/-- The file scope declares a name with the keyword of a type. -/
def Source.Declares (s : Source) (type : ValueType) (name : String) : Prop :=
  ∃ d ∈ s.globals, d.name = name ∧ d.type.glslName = type.glslName

namespace Program

/-- The statements of `main`, node by node. -/
def sections (p : Program) (stage : Stage) (annotate : Bool) : List (List Statement) :=
  p.labeled.map fun (label, node) => p.statements stage annotate label node

end Program

/-- What gives a binding its value in the section at position `k`: a literal of the type, the
expression, or a global that has the type and was assigned in an earlier section. -/
inductive Source.Initializes (s : Source) (sections : List (List Statement)) (k : Nat)
    (type : ValueType) : Binding → String → Prop where
  | literal {value : Value} {text : String}
      (written : (∀ x ∈ value.toList, x.isFinite = true) → type.IsLiteral text) :
    Initializes s sections k type (.literal value) text
  | expr {source : String} : Initializes s sections k type (.expr source) source
  | output {source : OutputRef} {j : Nat} (earlier : j < k)
      (declared : s.Declares type (Program.globalName (Program.label j) source.output))
      (assigned : ∃ statements, sections[j]? = some statements ∧ ∃ statement ∈ statements,
        statement.Assigns (Program.globalName (Program.label j) source.output)) :
    Initializes s sections k type (.output source)
      (Program.globalName (Program.label j) source.output)

/-- In the block of a node at position `k` the line of each input declares its type and gives it the
value of its binding, and an output without an expression starts from a literal of its type. -/
structure Source.Types (s : Source) (sections : List (List Statement)) (k : Nat) (node : Node)
    (b : Block) : Prop where
  label : b.label = Program.label k
  definition : b.definition = node.definition
  complete : node.inputs.length = node.definition.inputs.length
  inputs : List.Forall₂ (fun (entry : Input Definition × Binding) line => ∃ value,
      line = declarationLine entry.1.type ("in_" ++ entry.1.name) value ∧
      s.Initializes sections k entry.1.type entry.2 value)
    node.inputs (b.definition.inputs.zipWith Block.inputLine b.readings)
  outputs : ∀ output ∈ b.definition.outputs, output.expr = none → ∃ value,
    output.type.IsLiteral value ∧
      Block.outputLine output = declarationLine output.type ("out_" ++ output.name) value

namespace Program

variable {g : Graph} {root id : NodeId} {nodes : List (NodeId × Node)} {node : Node} {k : Nat}
variable {stage : Stage} {annotate : Bool} {config : CompilerConfig} {output : Output}

theorem getElem?_labeled_of_getElem? (at_k : nodes[k]? = some (id, node)) :
    (Program.mk nodes).labeled[k]? = some (label k, node) := by
  simp [labeled, at_k]

theorem getElem?_sections (at_k : nodes[k]? = some (id, node)) :
    ((Program.mk nodes).sections stage annotate)[k]? =
      some ((Program.mk nodes).statements stage annotate (label k) node) := by
  rw [sections, List.getElem?_map, getElem?_labeled_of_getElem? at_k]
  rfl

/-- A section is that of the node at its position. -/
theorem exists_of_getElem?_sections {statements : List Statement}
    (at_k : ((Program.mk nodes).sections stage annotate)[k]? = some statements) :
    ∃ id node, nodes[k]? = some (id, node) ∧
      statements = (Program.mk nodes).statements stage annotate (label k) node := by
  rw [sections, List.getElem?_map] at at_k
  obtain ⟨⟨name, node⟩, labeled_k, rfl⟩ := Option.map_eq_some_iff.mp at_k
  rw [labeled, List.getElem?_map, List.getElem?_zipIdx] at labeled_k
  obtain ⟨⟨⟨id, other⟩, position⟩, zipped, same⟩ := Option.map_eq_some_iff.mp labeled_k
  obtain ⟨entry, here, same'⟩ := Option.map_eq_some_iff.mp zipped
  cases same
  cases same'
  exact ⟨id, node, here, by rw [Nat.zero_add]⟩

/-- Each output of a node has its global at file scope. -/
theorem mem_globals (at_k : nodes[k]? = some (id, node)) (mem : output ∈ node.definition.outputs) :
    ⟨output.type, globalName (label k) output.name⟩ ∈ (Program.mk nodes).globals :=
  List.mem_flatMap.mpr ⟨_, List.mem_of_getElem? (getElem?_labeled_of_getElem? at_k),
    List.mem_map.mpr ⟨output, mem, rfl⟩⟩

/-- Each output of a node is assigned in the section of the node, in either stage. -/
theorem exists_assigns (p : Program) (stage : Stage) (annotate : Bool) (label : String)
    (mem : output ∈ node.definition.outputs) :
    ∃ statement ∈ p.statements stage annotate label node,
      statement.Assigns (globalName label output.name) := by
  have named : output.name ∈ node.definition.outputs.map (·.name) := List.mem_map_of_mem mem
  have block : Statement.Assigns (globalName label output.name)
      (.block ⟨label, node.definition, node.bindings.map p.reading⟩) := ⟨output, mem, rfl⟩
  cases varying : node.definition.varying with
  | false => exact ⟨_, by simp [statements, varying], block⟩
  | true =>
    cases stage with
    | vertex => exact ⟨_, by simp [statements, varying], block⟩
    | fragment =>
      refine ⟨.assign (globalName label output.name) (varyingName label output.name), ?_, rfl⟩
      simp only [statements, varying]
      exact List.mem_append.mpr (Or.inr (List.mem_map_of_mem named))

/-- A section holds no block but that of its node. -/
theorem eq_of_block_mem {p : Program} {label : String} {b : Block}
    (mem : .block b ∈ p.statements stage annotate label node) :
    b = ⟨label, node.definition, node.bindings.map p.reading⟩ := by
  have comments : Statement.block b ∉
      (if annotate then [Statement.comment label node.name] else []) := by
    cases annotate <;> simp
  cases varying : node.definition.varying <;> cases stage <;>
    simp [statements, varying, comments] at mem <;> exact mem

/-- What an input is read from at its position. -/
theorem initializes_reading (order : g.DependencyOrder root nodes) (bound : node.Bound g)
    (at_k : nodes[k]? = some (id, node)) {input : Input Definition} {binding : Binding}
    (mem : (input, binding) ∈ node.inputs) {s : Source}
    (globals : s.globals = (Program.mk nodes).globals) :
    s.Initializes ((Program.mk nodes).sections stage annotate) k input.type binding
      ((Program.mk nodes).reading binding).text := by
  cases binding with
  | literal value =>
    refine .literal fun finite => ?_
    have literal := Value.isLiteral_toGlsl finite
    rwa [bound.typed input value mem] at literal
  | expr source => exact .expr
  | output source =>
    obtain ⟨j, earlier, fed, output, at_j, found, accepted⟩ := order.source_of_reads at_k mem
    obtain ⟨listed, named⟩ := Definition.findOutput?_eq_some found
    have declared := mem_globals at_j listed
    have assigned := exists_assigns ⟨nodes⟩ stage annotate (label j) listed
    rw [named, ← globals] at declared
    rw [named] at assigned
    rw [reading, order.labelOf at_j, Reading.text]
    exact .output earlier ⟨_, declared, rfl, ValueType.glslName_eq_of_accepts accepted⟩
      ⟨_, getElem?_sections at_j, assigned⟩

/-- A block in the section of a node is well typed there. -/
theorem types_block (order : g.DependencyOrder root nodes) (bound : node.Bound g)
    (at_k : nodes[k]? = some (id, node)) {s : Source}
    (globals : s.globals = (Program.mk nodes).globals) {b : Block}
    (mem : .block b ∈ (Program.mk nodes).statements stage annotate (label k) node) :
    s.Types ((Program.mk nodes).sections stage annotate) k node b := by
  obtain rfl := eq_of_block_mem mem
  refine ⟨rfl, rfl, ?_, ?_, fun output _ bare => Block.outputLine_of_no_expr bare⟩
  · rw [Node.inputs, List.length_zip, bound.complete, Nat.min_self]
  · rw [inputLines_eq, List.forall₂_map_right_iff, List.forall₂_same]
    rintro ⟨input, binding⟩ listed
    exact ⟨_, Block.inputLine_eq input _, initializes_reading order bound at_k listed globals⟩

/-- Injected lines are the templates of their stage with the globals of the root put in. -/
theorem injectedLines_eq {p : Program} {value : String → String} {injections : List Injection}
    {lines : List String} (h : p.injectedLines stage injections = .ok lines)
    (known : ∀ output global, p.rootOutput output = .ok global → global = value output) :
    lines = (injections.filter (·.stage = stage)).map fun i =>
      Text.substitute value i.template := by
  induction injections generalizing lines with
  | nil =>
    cases h
    rfl
  | cons first rest ih =>
    rw [injectedLines] at h
    split at h
    · rename_i here
      obtain ⟨line, rendered, h⟩ := bind_eq_ok_iff.mp h
      obtain ⟨others, tail, h⟩ := bind_eq_ok_iff.mp h
      cases h
      have substituted : Text.render p.rootOutput first.template =
          .ok (Text.substitute value first.template) := by
        refine Text.render_eq_substitute fun name mem => ?_
        obtain ⟨global, found⟩ := Text.resolve_of_fill_ok rendered mem
        rw [found, known _ _ found]
      rw [rendered] at substituted
      cases substituted
      rw [ih tail, List.filter_cons_of_pos (by simpa using here), List.map_cons]
    · rename_i elsewhere
      rw [ih h, List.filter_cons_of_neg (by simpa using elsewhere)]

end Program

/-- The source of either stage comes from the program, around the lines of its injections. -/
theorem Program.source_of_compile {p : Program} {config : CompilerConfig} {shader : CompiledShader}
    (h : p.compile config = .ok shader) (stage : Stage) :
    ∃ uniforms lines, p.injectedLines stage config.injections = .ok lines ∧
      shader.source stage = p.sourceAround config uniforms stage lines := by
  obtain ⟨uniforms, vertex, fragment, _, vertexLines, fragmentLines, rfl⟩ := compile_eq_ok h
  cases stage with
  | vertex => exact ⟨uniforms, vertex, vertexLines, rfl⟩
  | fragment => exact ⟨uniforms, fragment, fragmentLines, rfl⟩

/-- In both stages of a shader compiled from a constructed graph all blocks are well typed, and
the injected lines name declared globals of the root, which comes last. -/
theorem Construction.compile_well_typed {calls : List GraphCall} {config : CompilerConfig}
    {root : NodeId} {shader : CompiledShader}
    (h : (run calls).graph.compile config root = .ok shader) (stage : Stage) :
    ∃ nodes last, (run calls).graph.linearize root = .ok nodes ∧
      (shader.source stage).main =
        ((Program.mk nodes).sections stage config.annotate).flatten ∧
      (∀ k statements, ((Program.mk nodes).sections stage config.annotate)[k]? = some statements →
        ∀ b, .block b ∈ statements → ∃ id node, nodes[k]? = some (id, node) ∧
          (shader.source stage).Types ((Program.mk nodes).sections stage config.annotate) k node b) ∧
      nodes[nodes.length - 1]? = some (root, last) ∧
      (shader.source stage).injections =
        (config.injections.filter (·.stage = stage)).map (fun i =>
          Text.substitute (Program.globalName (Program.label (nodes.length - 1))) i.template) ∧
      ∀ i ∈ config.injections, i.stage = stage → ∀ output, i.Names output →
        ∃ declared ∈ last.definition.outputs, declared.name = output ∧
          (shader.source stage).Declares declared.type
            (Program.globalName (Program.label (nodes.length - 1)) output) := by
  obtain ⟨nodes, linearized, compiled⟩ := Graph.compile_eq_ok h
  have order := Graph.dependencyOrder_of_linearize linearized
  obtain ⟨⟨id, last⟩, here, rfl⟩ := Option.map_eq_some_iff.mp order.last
  rw [List.getLast?_eq_getElem?] at here
  obtain ⟨uniforms, lines, injected, source⟩ := Program.source_of_compile compiled stage
  have named (output global : String)
      (found : (Program.mk nodes).rootOutput output = .ok global) :
      (∃ declared, last.definition.findOutput? output = some declared) ∧
        global = Program.globalName (Program.label (nodes.length - 1)) output := by
    obtain ⟨declared, listed, rfl⟩ := (order.rootOutput_eq_ok_iff (order.held_at here)).mp found
    exact ⟨⟨declared, listed⟩, by rw [order.labelOf here]⟩
  rw [source]
  refine ⟨nodes, last, linearized, ?_, ?_, here, ?_, ?_⟩
  · exact List.flatMap_def ..
  · intro k statements at_k b mem
    obtain ⟨id, node, entry, rfl⟩ := Program.exists_of_getElem?_sections at_k
    have bound := bound_run (order.held_at entry)
    exact ⟨id, node, entry, Program.types_block order bound entry rfl mem⟩
  · exact Program.injectedLines_eq injected fun output global found => (named output global found).2
  · rintro i configured rfl output names
    obtain ⟨line, _, rendered⟩ := Program.render_of_injectedLines injected configured rfl
    obtain ⟨global, found⟩ := Program.rootOutput_of_render rendered names
    obtain ⟨⟨declared, listed⟩, _⟩ := named output global found
    obtain ⟨mem, rfl⟩ := Definition.findOutput?_eq_some listed
    exact ⟨declared, mem, rfl, ⟨_, Program.mem_globals here mem, rfl, rfl⟩⟩

/-- A node adds a color to the vector of a reserved id, filled later with what varies. -/
def GraphCall.blend : List GraphCall :=
  [.reserve, .insert (Library.add .vec3) [("a", .node ⟨0⟩), ("b", .literal (.color .white))],
    .define Library.vertexNormal [] ⟨0⟩]

theorem Construction.run_blend : (run GraphCall.blend).graph =
    ⟨⟨#[some ⟨Library.vertexNormal, []⟩,
      some ⟨Library.add .vec3, [.node ⟨0⟩, .literal (.vec3 ⟨1, 1, 1⟩)]⟩]⟩⟩ := rfl

theorem Construction.linearize_blend : (run GraphCall.blend).graph.linearize ⟨1⟩ = .ok
    [(⟨0⟩, ⟨Library.vertexNormal, []⟩),
      (⟨1⟩, ⟨Library.add .vec3, [.node ⟨0⟩, .literal (.vec3 ⟨1, 1, 1⟩)]⟩)] := by
  rw [run_blend]
  cbv

/-- The fragments read the varying as the global `n0_value`, and the injection reads `n1_value`. -/
theorem Construction.compile_well_typed_blend :
    ∃ shader node, (run GraphCall.blend).graph.compile
        ⟨[⟨.fragment, "csm_DiffuseColor = \x7bvalue\x7d;"⟩], true⟩ ⟨1⟩ = .ok shader ∧
      shader.fragment.injections = ["csm_DiffuseColor = n1_value;"] ∧
      shader.fragment.Declares .vec3 "n1_value" ∧
      ∃ sections b, shader.fragment.main = sections.flatten ∧ .block b ∈ shader.fragment.main ∧
        shader.fragment.Types sections 1 node b := by
  let config : CompilerConfig := ⟨[⟨.fragment, "csm_DiffuseColor = \x7bvalue\x7d;"⟩], true⟩
  have count : ((run GraphCall.blend).graph.compile config ⟨1⟩).toOption.map (·.nodeCount) =
      some 2 := by
    rw [run_blend]
    cbv
  cases compiled : (run GraphCall.blend).graph.compile config ⟨1⟩ with
  | error e => simp [compiled, Except.toOption] at count
  | ok shader =>
    obtain ⟨nodes, last, linearized, main, typed, root, injections, named⟩ :=
      compile_well_typed compiled .fragment
    cases linearized.symm.trans linearize_blend
    cases root
    obtain ⟨declared, mem, _, global⟩ := named _ List.mem_cons_self rfl "value"
      ⟨"value".toList, by decide +kernel, rfl⟩
    cases List.mem_singleton.mp mem
    obtain ⟨id, node, at_k, types⟩ := typed 1 _ rfl _ (List.mem_cons_of_mem _ List.mem_cons_self)
    refine ⟨shader, node, rfl, injections.trans (by decide +kernel), global, _, _, main, ?_, types⟩
    rw [show shader.fragment.main = _ from main]
    exact List.mem_flatten.mpr ⟨_, List.mem_of_getElem? (i := 1) rfl,
      List.mem_cons_of_mem _ List.mem_cons_self⟩

end ParticleShading
