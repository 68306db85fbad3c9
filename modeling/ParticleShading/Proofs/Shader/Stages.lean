import ParticleShading.Proofs.Shader.Declarations
import ParticleShading.Proofs.Shader.Meaning

/-!
# What the stages hand over

Both stages of a shader declare the same uniforms, varyings and globals, and
their `main` has one section for each node. A varying is written once its block
has run, and the fragments read it where the block would stand. A name at file
scope tells position and output, so no other statement of `main` assigns it.
-/

namespace ParticleShading

/-! ## Uniforms in order -/

namespace UniformDeclaration

variable {d : UniformDeclaration} {known declared table : List UniformDeclaration}

/-- Names go up, so none is repeated. -/
def Ordered (table : List UniformDeclaration) : Prop := table.Pairwise (·.name < ·.name)

theorem ordered_insertByName (ordered : Ordered known)
    (fresh : known.find? (·.name = d.name) = none) : Ordered (d.insertByName known) := by
  induction known with
  | nil => exact List.pairwise_singleton _ _
  | cons first rest ih =>
    obtain ⟨above, later⟩ := List.pairwise_cons.mp ordered
    have apart : first.name ≠ d.name := by simpa using List.find?_eq_none.mp fresh first (by simp)
    unfold insertByName
    split
    · rename_i below
      refine List.pairwise_cons.mpr ⟨fun e mem => ?_, ordered⟩
      rcases List.mem_cons.mp mem with rfl | mem
      · exact below
      · exact String.lt_trans below (above e mem)
    · rename_i notBelow
      have less : first.name < d.name := by
        by_contra notLess
        exact apart (String.le_antisymm (String.not_lt.mp notBelow) (String.not_lt.mp notLess))
      have fresh' := List.find?_eq_none.mpr fun e mem =>
        List.find?_eq_none.mp fresh e (List.mem_cons_of_mem _ mem)
      refine List.pairwise_cons.mpr ⟨fun e mem => ?_, ih later fresh'⟩
      rcases mem_insertByName.mp mem with rfl | mem
      · exact less
      · exact above e mem

theorem ordered_of_merge_ok (h : merge known declared = .ok table) (ordered : Ordered known) :
    Ordered table := by
  induction declared generalizing known with
  | nil =>
    cases h
    exact ordered
  | cons d rest ih =>
    unfold merge at h
    split at h
    · rename_i fresh
      exact ih h (ordered_insertByName ordered fresh)
    · split at h
      · exact ih h ordered
      · cases h

end UniformDeclaration

/-! ## What a node contributes -/

def Statement.isCode : Statement → Bool
  | .comment _ _ => false
  | .block _ => true
  | .assign _ _ => true

theorem Statement.isCode_of_assigns {statement : Statement} {name : String}
    (assigns : statement.Assigns name) : statement.isCode = true := by
  cases statement with
  | comment label text => cases assigns
  | block b => rfl
  | assign target source => rfl

namespace Block

def global (b : Block) (output : String) : String := Program.globalName b.label output

def varying (b : Block) (output : String) : String := Program.varyingName b.label output

/-- The code that a node with this block has in a stage. What varies has its block in the vertex
stage, which writes its varyings afterwards; in the fragment stage the varyings are read instead. -/
inductive Contributes (b : Block) : Stage → List Statement → Prop where
  | computed {stage : Stage} (plain : b.definition.varying = false) :
    Contributes b stage [.block b]
  | written (varies : b.definition.varying = true) :
    Contributes b .vertex
      (.block b :: b.definition.outputs.map fun o => .assign (b.varying o.name) (b.global o.name))
  | read (varies : b.definition.varying = true) :
    Contributes b .fragment
      (b.definition.outputs.map fun o => .assign (b.global o.name) (b.varying o.name))

variable {b : Block} {stage : Stage} {code : List Statement} {statement : Statement}
variable {j k : Nat} {output : String}

/-- A global is assigned in the section of its node only: by the block, or from the varying. -/
theorem Contributes.of_assigns_global (h : b.Contributes stage code) (mem : statement ∈ code)
    (label : b.label = Program.label j)
    (assigns : statement.Assigns (Program.globalName (Program.label k) output)) :
    j = k ∧ (statement = .block b ∧ (b.definition.varying = true → stage = .vertex) ∨
      statement = .assign (b.global output) (b.varying output) ∧ stage = .fragment) := by
  have own (assigned : (Statement.block b).Assigns
      (Program.globalName (Program.label k) output)) : j = k := by
    obtain ⟨o, _, same⟩ := assigned
    rw [label] at same
    exact (Program.globalName_inj.mp same).1.symm
  cases h with
  | computed plain =>
    cases List.mem_singleton.mp mem
    exact ⟨own assigns, Or.inl ⟨rfl, by simp [plain]⟩⟩
  | written varies =>
    rcases List.mem_cons.mp mem with rfl | mem
    · exact ⟨own assigns, Or.inl ⟨rfl, fun _ => rfl⟩⟩
    · obtain ⟨o, _, rfl⟩ := List.mem_map.mp mem
      have same : b.varying o.name = _ := assigns
      rw [varying, label] at same
      exact absurd same Program.varyingName_ne_globalName
  | read varies =>
    obtain ⟨o, _, rfl⟩ := List.mem_map.mp mem
    have same : b.global o.name = _ := assigns
    rw [global, label] at same
    obtain ⟨rfl, rfl⟩ := Program.globalName_inj.mp same
    exact ⟨rfl, Or.inr ⟨rfl, rfl⟩⟩

/-- A varying is assigned in the section of its node only, from the global. -/
theorem Contributes.of_assigns_varying (h : b.Contributes stage code) (mem : statement ∈ code)
    (label : b.label = Program.label j)
    (assigns : statement.Assigns (Program.varyingName (Program.label k) output)) :
    j = k ∧ statement = .assign (b.varying output) (b.global output) ∧ stage = .vertex := by
  have own : ¬ (Statement.block b).Assigns (Program.varyingName (Program.label k) output) := by
    rintro ⟨o, _, same⟩
    rw [label] at same
    exact Program.varyingName_ne_globalName same
  cases h with
  | computed plain =>
    cases List.mem_singleton.mp mem
    exact absurd assigns own
  | written varies =>
    rcases List.mem_cons.mp mem with rfl | mem
    · exact absurd assigns own
    · obtain ⟨o, _, rfl⟩ := List.mem_map.mp mem
      have same : b.varying o.name = _ := assigns
      rw [varying, label] at same
      obtain ⟨rfl, rfl⟩ := Program.varyingName_inj.mp same
      exact ⟨rfl, rfl, rfl⟩
  | read varies =>
    obtain ⟨o, _, rfl⟩ := List.mem_map.mp mem
    have same : b.global o.name = _ := assigns
    rw [global, label] at same
    exact absurd same.symm Program.varyingName_ne_globalName

end Block

namespace Program

variable {p : Program} {nodes : List (NodeId × Node)} {stage : Stage} {annotate : Bool}
variable {id : NodeId} {node : Node} {j k : Nat} {statement : Statement} {output : String}

/-- The block of a node at a position. -/
def blockAt (p : Program) (k : Nat) (node : Node) : Block :=
  ⟨label k, node.definition, node.bindings.map p.reading⟩

theorem contributes_statements :
    (p.blockAt k node).Contributes stage
      ((p.statements stage annotate (label k) node).filter Statement.isCode) := by
  have comments (code : List Statement) :
      ((if annotate then [Statement.comment (label k) node.name] else []) ++ code).filter
        Statement.isCode = code.filter Statement.isCode := by
    cases annotate <;> rfl
  have copies (target source : String → String) :
      ((node.definition.outputs.map (·.name)).map fun o =>
          Statement.assign (target o) (source o)).filter Statement.isCode =
        node.definition.outputs.map fun o => .assign (target o.name) (source o.name) := by
    rw [List.map_map]
    exact List.filter_eq_self.mpr (by simp [Statement.isCode])
  cases varies : node.definition.varying with
  | false =>
    simp only [statements, varies, comments]
    exact .computed varies
  | true =>
    cases stage with
    | vertex =>
      simp only [statements, varies, comments, List.filter_cons, Statement.isCode, if_true, copies]
      exact .written varies
    | fragment =>
      simp only [statements, varies, comments, copies]
      exact .read varies

/-! ## Sections in place -/

theorem main_eq_flatten (p : Program) (stage : Stage) (annotate : Bool) :
    p.main stage annotate = (p.sections stage annotate).flatten := List.flatMap_def ..

/-- Code of `main` is in the section of a node. -/
theorem exists_of_mem_main (mem : statement ∈ (Program.mk nodes).main stage annotate)
    (code : statement.isCode = true) :
    ∃ (k : Nat) (id : NodeId) (node : Node) (code : List Statement),
      nodes[k]? = some (id, node) ∧ ((Program.mk nodes).blockAt k node).Contributes stage code ∧
        statement ∈ code := by
  rw [main_eq_flatten] at mem
  obtain ⟨statements, listed, mem⟩ := List.mem_flatten.mp mem
  obtain ⟨k, at_k⟩ := List.getElem?_of_mem listed
  obtain ⟨id, node, entry, rfl⟩ := exists_of_getElem?_sections at_k
  exact ⟨k, id, node, _, entry, contributes_statements, List.mem_filter.mpr ⟨mem, code⟩⟩

theorem mem_main (at_k : nodes[k]? = some (id, node))
    (mem : statement ∈ (Program.mk nodes).statements stage annotate (label k) node) :
    statement ∈ (Program.mk nodes).main stage annotate := by
  rw [main_eq_flatten]
  exact List.mem_flatten.mpr ⟨_, List.mem_of_getElem? (getElem?_sections at_k), mem⟩

/-- The only statements of `main` that assign the global of an output. -/
theorem of_assigns_global (at_k : nodes[k]? = some (id, node))
    (mem : statement ∈ (Program.mk nodes).main stage annotate)
    (assigns : statement.Assigns (globalName (label k) output)) :
    statement = .block ((Program.mk nodes).blockAt k node) ∧
        (node.definition.varying = true → stage = .vertex) ∨
      statement = .assign (globalName (label k) output) (varyingName (label k) output) ∧
        stage = .fragment := by
  obtain ⟨j, id', node', code, at_j, contributes, mem⟩ :=
    exists_of_mem_main mem (Statement.isCode_of_assigns assigns)
  obtain ⟨rfl, written⟩ := contributes.of_assigns_global mem rfl assigns
  cases at_j.symm.trans at_k
  exact written

/-- The only statement of `main` that assigns the varying of an output. -/
theorem of_assigns_varying (mem : statement ∈ (Program.mk nodes).main stage annotate)
    (assigns : statement.Assigns (varyingName (label k) output)) :
    statement = .assign (varyingName (label k) output) (globalName (label k) output) ∧
      stage = .vertex := by
  obtain ⟨j, id', node', code, at_j, contributes, mem⟩ :=
    exists_of_mem_main mem (Statement.isCode_of_assigns assigns)
  obtain ⟨rfl, written⟩ := contributes.of_assigns_varying mem rfl assigns
  exact written

/-- What stands before some statement that is new in the second part contains the first part. -/
theorem mem_of_append_eq {first second before after : List Statement} {other : Statement}
    (split : first ++ second = before ++ statement :: after) (fresh : statement ∉ first)
    (mem : other ∈ first) : other ∈ before := by
  rcases List.append_eq_append_iff.mp split with ⟨rest, rfl, _⟩ | ⟨rest, rfl, tail⟩
  · exact List.mem_append_left rest mem
  · cases rest with
    | nil => simpa using mem
    | cons head rest =>
      obtain rfl := (List.cons.inj tail).1
      exact absurd (List.mem_append_right before List.mem_cons_self) fresh

theorem main_split (stage : Stage) (annotate : Bool) (at_k : nodes[k]? = some (id, node)) :
    ∃ later, (Program.mk nodes).main stage annotate =
      (((Program.mk nodes).sections stage annotate).take k).flatten ++
        ((Program.mk nodes).statements stage annotate (label k) node ++ later) := by
  have section_k : ((Program.mk nodes).sections stage annotate)[k]? = _ := getElem?_sections at_k
  obtain ⟨inside, value⟩ := List.getElem?_eq_some_iff.mp section_k
  refine ⟨(((Program.mk nodes).sections stage annotate).drop (k + 1)).flatten, ?_⟩
  rw [main_eq_flatten, ← value, ← List.flatten_cons, List.getElem_cons_drop, ← List.flatten_append,
    List.take_append_drop]

/-- Sections of earlier nodes write no varying of this one. -/
theorem not_mem_earlier {source : String} :
    .assign (varyingName (label k) output) source ∉
      (((Program.mk nodes).sections stage annotate).take k).flatten := by
  intro mem
  obtain ⟨statements, listed, mem⟩ := List.mem_flatten.mp mem
  obtain ⟨j, at_j⟩ := List.getElem?_of_mem listed
  have before : j < k := by
    obtain ⟨inside, _⟩ := List.getElem?_eq_some_iff.mp at_j
    rw [List.length_take] at inside
    omega
  rw [List.getElem?_take_of_lt before] at at_j
  obtain ⟨id, node, _, rfl⟩ := exists_of_getElem?_sections at_j
  have code := (List.mem_filter (p := Statement.isCode)).mpr ⟨mem, rfl⟩
  obtain ⟨rfl, _⟩ := contributes_statements.of_assigns_varying code rfl rfl
  omega

/-- A varying is written after the block of its node. -/
theorem block_before (at_k : nodes[k]? = some (id, node)) (varies : node.definition.varying = true)
    {source : String} {before after : List Statement}
    (split : (Program.mk nodes).main .vertex annotate =
      before ++ .assign (varyingName (label k) output) source :: after) :
    .block ((Program.mk nodes).blockAt k node) ∈ before := by
  obtain ⟨later, main⟩ := main_split .vertex annotate at_k
  let comment := if annotate then [Statement.comment (label k) node.name] else []
  obtain ⟨copies, section_k⟩ : ∃ copies,
      (Program.mk nodes).statements .vertex annotate (label k) node =
        comment ++ [.block ((Program.mk nodes).blockAt k node)] ++ copies := by
    simp only [statements, varies, comment, List.append_assoc]
    exact ⟨_, rfl⟩
  rw [main, section_k, List.append_assoc, ← List.append_assoc] at split
  refine mem_of_append_eq split ?_ (by simp)
  intro mem
  rcases List.mem_append.mp mem with earlier | here
  · exact not_mem_earlier earlier
  · cases annotate <;> simp [comment] at here

/-! ## Declarations -/

theorem mem_varyings_iff {declared : Declared} :
    declared ∈ (Program.mk nodes).varyings ↔
      ∃ (k : Nat) (id : NodeId) (node : Node), nodes[k]? = some (id, node) ∧
        node.definition.varying = true ∧ ∃ output ∈ node.definition.outputs,
          declared = ⟨output.type, varyingName (label k) output.name⟩ := by
  constructor
  · intro mem
    obtain ⟨⟨name, node⟩, listed, mem⟩ := List.mem_flatMap.mp mem
    obtain ⟨k, at_k⟩ := List.getElem?_of_mem listed
    obtain ⟨id, entry, rfl⟩ := getElem?_labeled at_k
    cases varies : node.definition.varying with
    | false => simp [varies] at mem
    | true =>
      simp only [varies, if_true] at mem
      obtain ⟨output, member, rfl⟩ := List.mem_map.mp mem
      exact ⟨k, id, node, entry, varies, output, member, rfl⟩
  · rintro ⟨k, id, node, entry, varies, output, member, rfl⟩
    refine List.mem_flatMap.mpr
      ⟨_, List.mem_of_getElem? (getElem?_labeled_of_getElem? entry), ?_⟩
    simp only [varies, if_true]
    exact List.mem_map_of_mem member

end Program

namespace CompiledShader

variable {p : Program} {nodes : List (NodeId × Node)} {config : CompilerConfig}
variable {shader : CompiledShader} {id : NodeId} {node : Node} {k : Nat} {output : Output}

/-- Both stages declare the uniforms of the table, by name and in order, and the same varyings and
globals; the varyings are those of the nodes that vary, each under its own name. -/
structure Interface (shader : CompiledShader) (nodes : List (NodeId × Node)) : Prop where
  uniforms : ∀ stage, (shader.source stage).uniforms = shader.uniforms.map fun d => ⟨d.type, d.name⟩
  ordered : UniformDeclaration.Ordered shader.uniforms
  varyings : ∀ stage, (shader.source stage).varyings = shader.vertex.varyings
  globals : ∀ stage, (shader.source stage).globals = shader.vertex.globals
  varies : ∀ declared, declared ∈ shader.vertex.varyings ↔
    ∃ (k : Nat) (id : NodeId) (node : Node), nodes[k]? = some (id, node) ∧
      node.definition.varying = true ∧ ∃ output ∈ node.definition.outputs,
        declared = ⟨output.type, Program.varyingName (Program.label k) output.name⟩
  named : ∀ k id node, nodes[k]? = some (id, node) → ∀ name,
    Program.varyingName (Program.label k) name ∈ shader.vertex.varyings.map (·.name) ↔
      node.definition.varying = true ∧ name ∈ node.definition.outputs.map (·.name)

/-- An output that varies goes from its block to the varying, and from there to the global that
the fragments read. Nothing else writes the varying, or the global in either stage. -/
structure Crosses (shader : CompiledShader) (b : Block) (output : String) : Prop where
  assigned : (Statement.block b).Assigns (b.global output)
  computed : ∀ statement ∈ shader.vertex.main, statement.Assigns (b.global output) →
    statement = .block b
  written : .assign (b.varying output) (b.global output) ∈ shader.vertex.main
  alone : ∀ statement ∈ shader.vertex.main, statement.Assigns (b.varying output) →
    statement = .assign (b.varying output) (b.global output)
  ordered : ∀ before after, shader.vertex.main =
    before ++ .assign (b.varying output) (b.global output) :: after → .block b ∈ before
  read : .assign (b.global output) (b.varying output) ∈ shader.fragment.main
  only : ∀ statement ∈ shader.fragment.main, statement.Assigns (b.global output) →
    statement = .assign (b.global output) (b.varying output)

/-- Apart from the injected lines the sources are told by the program and the table. -/
theorem contents (h : p.compile config = .ok shader) (stage : Stage) :
    (shader.source stage).uniforms = (shader.uniforms.map fun d => ⟨d.type, d.name⟩) ∧
      (shader.source stage).varyings = p.varyings ∧ (shader.source stage).globals = p.globals ∧
      (shader.source stage).main = p.main stage config.annotate := by
  obtain ⟨uniforms, vertex, fragment, _, _, _, rfl⟩ := Program.compile_eq_ok h
  cases stage with
  | vertex => exact ⟨rfl, rfl, rfl, rfl⟩
  | fragment => exact ⟨rfl, rfl, rfl, rfl⟩

theorem interface (h : (Program.mk nodes).compile config = .ok shader) :
    shader.Interface nodes := by
  have varies : shader.vertex.varyings = _ := (contents h .vertex).2.1
  have globals : shader.vertex.globals = _ := (contents h .vertex).2.2.1
  refine ⟨fun stage => (contents h stage).1, ?_, ?_, ?_, ?_, ?_⟩
  · obtain ⟨table, _, _, merged, _, _, rfl⟩ := Program.compile_eq_ok h
    exact UniformDeclaration.ordered_of_merge_ok merged .nil
  · intro stage
    exact (contents h stage).2.1.trans varies.symm
  · intro stage
    exact (contents h stage).2.2.1.trans globals.symm
  · intro declared
    rw [varies]
    exact Program.mem_varyings_iff
  · intro k id node entry name
    rw [varies, List.mem_map]
    constructor
    · rintro ⟨declared, mem, same⟩
      obtain ⟨j, _, _, at_j, varying, output, member, rfl⟩ := Program.mem_varyings_iff.mp mem
      obtain ⟨rfl, rfl⟩ := Program.varyingName_inj.mp same
      cases at_j.symm.trans entry
      exact ⟨varying, List.mem_map_of_mem member⟩
    · rintro ⟨varying, mem⟩
      obtain ⟨output, member, rfl⟩ := List.mem_map.mp mem
      exact ⟨_, Program.mem_varyings_iff.mpr ⟨k, id, node, entry, varying, output, member, rfl⟩, rfl⟩

theorem crosses (h : (Program.mk nodes).compile config = .ok shader)
    (at_k : nodes[k]? = some (id, node)) (varies : node.definition.varying = true)
    (member : output ∈ node.definition.outputs) :
    shader.Crosses ((Program.mk nodes).blockAt k node) output.name := by
  have vertex : shader.vertex.main = _ := (contents h .vertex).2.2.2
  have fragment : shader.fragment.main = _ := (contents h .fragment).2.2.2
  have named : output.name ∈ node.definition.outputs.map (·.name) := List.mem_map_of_mem member
  refine ⟨⟨output, member, rfl⟩, ?_, ?_, ?_, ?_, ?_, ?_⟩
  · intro statement mem assigns
    rw [vertex] at mem
    rcases Program.of_assigns_global at_k mem assigns with ⟨same, _⟩ | ⟨_, elsewhere⟩
    · exact same
    · cases elsewhere
  · rw [vertex]
    apply Program.mem_main at_k
    simp only [Program.statements, varies]
    exact List.mem_append_right _ (List.mem_cons_of_mem _ (List.mem_map_of_mem named))
  · intro statement mem assigns
    rw [vertex] at mem
    exact (Program.of_assigns_varying mem assigns).1
  · intro before after split
    rw [vertex] at split
    exact Program.block_before at_k varies split
  · rw [fragment]
    apply Program.mem_main at_k
    simp only [Program.statements, varies]
    exact List.mem_append_right _ (List.mem_map_of_mem named)
  · intro statement mem assigns
    rw [fragment] at mem
    rcases Program.of_assigns_global at_k mem assigns with ⟨_, vertexOnly⟩ | ⟨same, _⟩
    · cases vertexOnly varies
    · exact same

end CompiledShader

/-- The stages of a compiled shader agree: they declare the same names, their `main` has one section
for each node that the root reaches, with the same block in both stages or the reading of its
varyings in its place, and what varies is written after its block and read in the fragments. -/
theorem Graph.stages_agree {g : Graph} {config : CompilerConfig} {root : NodeId}
    {shader : CompiledShader} (h : g.compile config root = .ok shader) :
    ∃ nodes, g.linearize root = .ok nodes ∧ (nodes.map (·.1)).Nodup ∧
      (∀ id, id ∈ nodes.map (·.1) ↔ g.Reaches root id) ∧ shader.Interface nodes ∧
      ∃ sections : Stage → List (List Statement),
        (∀ stage, (shader.source stage).main = (sections stage).flatten ∧
          (sections stage).length = nodes.length) ∧
        ∀ (k : Nat) (id : NodeId) (node : Node), nodes[k]? = some (id, node) →
          ∃ b : Block, b.label = Program.label k ∧ b.definition = node.definition ∧
            (∀ stage, ∃ statements, (sections stage)[k]? = some statements ∧
              b.Contributes stage (statements.filter Statement.isCode)) ∧
            (node.definition.varying = true →
              ∀ output ∈ node.definition.outputs, shader.Crosses b output.name) := by
  obtain ⟨nodes, linearized, compiled⟩ := compile_eq_ok h
  have order := dependencyOrder_of_linearize linearized
  refine ⟨nodes, linearized, order.nodup, order.mem_iff, CompiledShader.interface compiled,
    fun stage => (Program.mk nodes).sections stage config.annotate, ?_, ?_⟩
  · intro stage
    constructor
    · obtain ⟨_, _, _, main⟩ := CompiledShader.contents compiled stage
      rw [main, Program.main_eq_flatten]
    · simp [Program.sections, Program.labeled]
  · intro k id node at_k
    refine ⟨(Program.mk nodes).blockAt k node, rfl, rfl, ?_, ?_⟩
    · intro stage
      exact ⟨_, Program.getElem?_sections at_k, Program.contributes_statements⟩
    · intro varies output member
      exact CompiledShader.crosses compiled at_k varies member

/-- A rim term that pulses with the time scales the normal: of the four nodes the first and the
third vary. -/
def Graph.rim : Graph :=
  ⟨⟨#[some ⟨Library.time, []⟩,
    some ⟨Library.fresnel, [.literal (.float 0), .node ⟨0⟩, .literal (.float 2)]⟩,
    some ⟨Library.vertexNormal, []⟩,
    some ⟨Library.scale .vec3, [.node ⟨2⟩, .node ⟨1⟩]⟩]⟩⟩

theorem Graph.linearize_rim : rim.linearize ⟨3⟩ = .ok
    [(⟨2⟩, ⟨Library.vertexNormal, []⟩), (⟨0⟩, ⟨Library.time, []⟩),
      (⟨1⟩, ⟨Library.fresnel, [.literal (.float 0), .node ⟨0⟩, .literal (.float 2)]⟩),
      (⟨3⟩, ⟨Library.scale .vec3, [.node ⟨2⟩, .node ⟨1⟩]⟩)] := by cbv

/-- The rim is computed per vertex from the time, whose own output is not handed over. -/
theorem Graph.stages_agree_rim :
    ∃ shader b, rim.compile ⟨[⟨.fragment, "csm_DiffuseColor = \x7bvalue\x7d;"⟩], true⟩ ⟨3⟩ =
        .ok shader ∧
      (∀ stage, (shader.source stage).uniforms = shader.uniforms.map fun d => ⟨d.type, d.name⟩) ∧
      shader.uniforms = [Library.elapsedTime] ∧
      "v_n1_value" ∉ shader.vertex.varyings.map (·.name) ∧
      "v_n2_value" ∈ shader.vertex.varyings.map (·.name) ∧
      b.definition.name = "Fresnel" ∧ shader.Crosses b "value" := by
  let config : CompilerConfig := ⟨[⟨.fragment, "csm_DiffuseColor = \x7bvalue\x7d;"⟩], true⟩
  have table : (rim.compile config ⟨3⟩).toOption.map (·.uniforms) = some [Library.elapsedTime] := by
    cbv
  cases compiled : rim.compile config ⟨3⟩ with
  | error e => simp [compiled, Except.toOption] at table
  | ok shader =>
    simp only [compiled, Except.toOption, Option.map_some, Option.some.injEq] at table
    obtain ⟨nodes, linearized, _, _, interface, sections, _, contents⟩ := stages_agree compiled
    cases linearize_rim.symm.trans linearized
    obtain ⟨b, _, definition, _, crosses⟩ := contents 2 ⟨1⟩ _ rfl
    have time := interface.named 1 ⟨0⟩ _ rfl "value"
    have rim := interface.named 2 ⟨1⟩ _ rfl "value"
    refine ⟨shader, b, rfl, interface.uniforms, table, ?_, ?_, by rw [definition]; rfl,
      crosses rfl _ List.mem_cons_self⟩
    · intro listed
      cases (time.mp listed).1
    · exact rim.mpr ⟨rfl, List.mem_cons_self⟩

end ParticleShading
