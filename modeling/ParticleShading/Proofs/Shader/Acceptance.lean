import ParticleShading.Proofs.Shader.Compilation
import ParticleShading.Proofs.Shader.Linearization

/-!
# What the compiler accepts

`Graph.WellFormed` says without a search when a graph can be compiled from a
root, and `Graph.Defect` which errors there may be and what is wrong in each
case. A compilation succeeds exactly on what is well formed, and every error
names a defect.
-/

namespace ParticleShading

/-- Different nodes that each read the next one, and the last of them the first. -/
structure Graph.Cycle (g : Graph) (nodes : List (NodeId × Node)) : Prop where
  nonempty : nodes ≠ []
  held : ∀ id node, (id, node) ∈ nodes → g.get? id = some node
  nodup : (nodes.map (·.1)).Nodup
  closed : (nodes ++ nodes.head?.toList).IsChain fun target source => g.Feeds source.1 target.1

/-- Every input that is fed below the root gets a declared output of a type it accepts. -/
def Graph.Fits (g : Graph) (root : NodeId) : Prop :=
  ∀ id node, g.Reaches root id → g.get? id = some node →
    ∀ input source, node.Reads input source → ∀ fed, g.get? source.node = some fed →
      ∃ output, fed.definition.findOutput? source.output = some output ∧
        input.type.accepts output.type = true

/-- A uniform that a node below the root asks for. -/
def Graph.Declares (g : Graph) (root : NodeId) (d : UniformDeclaration) : Prop :=
  ∃ id node, g.Reaches root id ∧ g.get? id = some node ∧ d ∈ node.definition.uniforms

structure Graph.WellFormed (g : Graph) (config : CompilerConfig) (root : NodeId) : Prop where
  defined : ∀ id, g.Reaches root id → g.contains id = true ∧ ∃ node, g.get? id = some node
  acyclic : ∀ id, g.Reaches root id → ¬ Relation.TransGen g.Feeds id id
  fits : g.Fits root
  agree : ∀ d e, g.Declares root d → g.Declares root e → d.name = e.name → d.type = e.type
  named : ∀ i ∈ config.injections, ∀ output, i.Names output →
    ∀ node, g.get? root = some node → ∃ found, node.definition.findOutput? output = some found

/-- What is wrong when a compilation is refused with an error. -/
inductive Graph.Defect (g : Graph) (config : CompilerConfig) (root : NodeId) :
    ShaderError → Prop where
  | unknownNode {id : NodeId} (reached : g.Reaches root id) (foreign : g.contains id = false) :
    Graph.Defect g config root (.graph (.unknownNode id))
  | undefinedNode {id : NodeId} (reached : g.Reaches root id) (issued : g.contains id = true)
      (reserved : g.get? id = none) :
    Graph.Defect g config root (.graph (.undefinedNode id))
  | cycle {nodes : List (NodeId × Node)} {path : List String} (cycle : g.Cycle nodes)
      (reached : ∀ id node, (id, node) ∈ nodes → g.Reaches root id)
      (named : path = (nodes ++ nodes.head?.toList).map fun (id, node) =>
        Search.describe id node) :
    Graph.Defect g config root (.graph (.cycle path))
  | typeMismatch {id : NodeId} {node fed : Node} {input : Input Definition} {source : OutputRef}
      {output : Output} (reached : g.Reaches root id) (held : g.get? id = some node)
      (reads : node.Reads input source) (feeds : g.get? source.node = some fed)
      (found : fed.definition.findOutput? source.output = some output)
      (misfit : input.type.accepts output.type = false) :
    Graph.Defect g config root (.typeMismatch node.name input.name input.type output.type)
  | missingOutput {id : NodeId} {node fed : Node} {input : Input Definition} {source : OutputRef}
      (reached : g.Reaches root id) (held : g.get? id = some node)
      (reads : node.Reads input source) (feeds : g.get? source.node = some fed)
      (missing : fed.definition.findOutput? source.output = none) :
    Graph.Defect g config root (.graph (.missingOutput fed.name source.output))
  | missingInjected {i : Injection} {output : String} {node : Node}
      (configured : i ∈ config.injections) (names : i.Names output)
      (held : g.get? root = some node) (missing : node.definition.findOutput? output = none) :
    Graph.Defect g config root (.graph (.missingOutput node.name output))
  | conflictingUniform {first second : UniformDeclaration} (declared : g.Declares root first)
      (declared' : g.Declares root second) (same : first.name = second.name)
      (differ : first.type ≠ second.type) :
    Graph.Defect g config root
      (.graph (.conflictingUniform second.name first.type second.type))

variable {g : Graph} {config : CompilerConfig} {root : NodeId} {error : ShaderError}

/-! ## Errors name defects -/

/-- An output of a node that is there is refused if it is not declared or of another type. -/
theorem Graph.of_checkOutput_error {owner input : String} {expected : ValueType}
    {source : OutputRef} {fed : Node} (feeds : g.get? source.node = some fed)
    (h : g.checkOutput owner input expected source = .error error) :
    fed.definition.findOutput? source.output = none ∧
        error = .graph (.missingOutput fed.name source.output) ∨
      ∃ output, fed.definition.findOutput? source.output = some output ∧
        expected.accepts output.type = false ∧
        error = .typeMismatch owner input expected output.type := by
  simp only [checkOutput, outputType, contains_of_get? feeds, feeds, if_true] at h
  cases found : fed.definition.findOutput? source.output with
  | none =>
    simp only [found] at h
    cases h
    exact Or.inl ⟨rfl, rfl⟩
  | some output =>
    simp only [found] at h
    split at h
    · cases h
    · rename_i misfit
      cases h
      exact Or.inr ⟨output, rfl, by simpa using misfit, rfl⟩

namespace Search

variable {s : Search} {finished : List (NodeId × Node)}

/-- The cycle goes from the frame of the source up to the head of the path. -/
theorem exists_cycleTo {path : List Frame} {source : NodeId} (mem : source ∈ path.map (·.id)) :
    ∃ front f rest, path = front ++ f :: rest ∧ f.id = source ∧
      cycleTo path source = f :: front.reverse := by
  induction path with
  | nil => cases mem
  | cons first path ih =>
    by_cases here : first.id = source
    · exact ⟨[], first, path, rfl, here, by simp [cycleTo, here]⟩
    · obtain ⟨front, f, rest, rfl, same, cycle⟩ :=
        ih ((List.mem_cons.mp mem).resolve_left (Ne.symm here))
      refine ⟨first :: front, f, rest, rfl, same, ?_⟩
      have extended : cycleTo (first :: (front ++ f :: rest)) source =
          cycleTo (front ++ f :: rest) source ++ [first] := by
        simp [cycleTo, here]
      rw [extended, cycle]
      simp

theorem Walked.feeds_of_awaits {child parent : Frame} (walked : Walked g finished parent)
    (h : Awaits child parent) : g.Feeds child.id parent.id := by
  obtain ⟨id, node, pending⟩ := parent
  obtain ⟨input, output, rest, rfl⟩ := h
  exact ⟨node, walked.1, input, output, walked.reads⟩

theorem mem_of_mem_cycleTo {path : List Frame} {source : NodeId} {f : Frame}
    (mem : f ∈ cycleTo path source) : f ∈ path := by
  rcases List.mem_append.mp (List.mem_reverse.mp mem) with above | here
  · exact (List.takeWhile_sublist _).mem above
  · exact List.mem_of_find?_eq_some (Option.mem_toList.mp here)

/-- The frames from the head of the path down to the source of its next edge are a cycle. -/
theorem Valid.cycle {f : Frame} {below : List Frame} {source : NodeId} (v : Valid g root s)
    (path : s.path = f :: below) (edge : g.Feeds source f.id)
    (mem : source ∈ s.path.map (·.id)) :
    g.Cycle ((cycleTo s.path source).map fun f => (f.id, f.node)) := by
  obtain ⟨front, bottom, rest, split, rfl, cycle⟩ := exists_cycleTo mem
  have upward : s.path.IsChain fun child parent => g.Feeds child.id parent.id := by
    refine List.IsChain.imp_of_mem_imp ?_ v.chain
    intro child parent _ listed awaited
    exact (v.frames parent listed).feeds_of_awaits awaited
  have turn : (bottom :: (front ++ [bottom])).IsChain
      fun child parent => g.Feeds child.id parent.id := by
    refine List.isChain_cons.mpr ⟨?_, upward.prefix ⟨rest, by simp [split]⟩⟩
    intro top hd
    have : (front ++ [bottom]).head? = s.path.head? := by
      rw [split]
      cases front <;> rfl
    rw [this, path] at hd
    cases hd
    exact edge
  have order : (s.path.map (·.id)).Nodup := v.distinct
  refine ⟨by simp [cycle], ?_, ?_, ?_⟩
  · intro id node listed
    obtain ⟨f, hf, same⟩ := List.mem_map.mp listed
    cases same
    exact (v.frames f (mem_of_mem_cycleTo hf)).1
  · rw [cycle]
    rw [split, List.map_append, List.map_cons] at order
    have := order.sublist (List.Sublist.append_left
      ((List.nil_sublist (rest.map (·.id))).cons_cons bottom.id) _)
    rw [List.map_map]
    change ((bottom :: front.reverse).map (·.id)).Nodup
    simpa using List.nodup_reverse.mpr this
  · have := List.isChain_map_of_isChain
      (S := fun target source => g.Feeds source.1 target.1)
      (fun f : Frame => (f.id, f.node)) (fun _ _ h => h) (List.isChain_reverse.mpr turn)
    simpa [cycle] using this

theorem Valid.defect (v : Valid g root s) (fault : Fault g s error) :
    g.Defect config root error := by
  have onPath {f : Frame} (hf : f ∈ s.path) : g.get? f.id = some f.node ∧ g.Reaches root f.id :=
    ⟨(v.frames f hf).1, v.reached f.id (Or.inl (List.mem_map_of_mem hf))⟩
  cases fault with
  | unknown foreign =>
    obtain ⟨held, reached⟩ := onPath List.mem_cons_self
    have reads := (v.frames _ List.mem_cons_self).reads
    refine .unknownNode (reached.reads held reads) ?_
    rw [Array.getElem?_eq_none_iff, v.size] at foreign
    exact decide_eq_false (Nat.not_lt.mpr foreign)
  | rejected done misfit =>
    obtain ⟨held, reached⟩ := onPath List.mem_cons_self
    have reads := (v.frames _ List.mem_cons_self).reads
    obtain ⟨⟨_, fed⟩, listed, rfl⟩ := List.mem_map.mp ((v.done _).mp done)
    have feeds := (v.closed.of_mem listed).1
    rcases Graph.of_checkOutput_error feeds misfit with
      ⟨missing, rfl⟩ | ⟨output, found, refused, rfl⟩
    · exact .missingOutput reached held reads feeds missing
    · exact .typeMismatch reached held reads feeds found refused
  | cycle active =>
    obtain ⟨held, reached⟩ := onPath List.mem_cons_self
    have reads := (v.frames _ List.mem_cons_self).reads
    refine .cycle (v.cycle rfl ⟨_, held, _, _, reads⟩ ((v.active _).mp active)) ?_ ?_
    · intro id node listed
      obtain ⟨f, hf, same⟩ := List.mem_map.mp listed
      cases same
      exact (onPath (mem_of_mem_cycleTo hf)).2
    · rw [cycleText]
      cases cycleTo _ _ <;> simp
  | undefined fresh reserved =>
    obtain ⟨held, reached⟩ := onPath List.mem_cons_self
    have reads := (v.frames _ List.mem_cons_self).reads
    refine .undefinedNode (reached.reads held reads) ?_ reserved
    exact Graph.contains_iff.mpr (v.size ▸ inside_of_mark fresh)

end Search

namespace Graph

theorem defect_of_linearize (h : g.linearize root = .error error) : g.Defect config root error := by
  unfold linearize at h
  split at h
  · rename_i issued
    split at h
    · rename_i reserved
      cases h
      exact .undefinedNode .root issued reserved
    · rename_i held
      obtain ⟨last, moves, fault⟩ := Search.moves_of_run_error h
      exact ((Search.valid_start held).moves moves).defect fault
  · rename_i foreign
    cases h
    exact .unknownNode .root (by simpa using foreign)

/-- The declarations of a program are those below the root. -/
theorem DependencyOrder.declares_iff {nodes : List (NodeId × Node)} {d : UniformDeclaration}
    (order : g.DependencyOrder root nodes) :
    d ∈ (Program.mk nodes).declarations ↔ g.Declares root d := by
  constructor
  · intro mem
    obtain ⟨⟨id, node⟩, listed, declared⟩ := List.mem_flatMap.mp mem
    have reached := (order.mem_iff id).mp (List.mem_map_of_mem listed)
    exact ⟨id, node, reached, order.held id node listed, declared⟩
  · rintro ⟨id, node, reached, held, declared⟩
    obtain ⟨k, other, at_k⟩ := order.exists_position reached
    obtain rfl : other = node := Option.some.inj ((order.held_at at_k).symm.trans held)
    exact List.mem_flatMap.mpr ⟨_, List.mem_of_getElem? at_k, declared⟩

theorem DependencyOrder.root_held {nodes : List (NodeId × Node)}
    (order : g.DependencyOrder root nodes) : ∃ node, g.get? root = some node := by
  obtain ⟨k, node, at_k⟩ := order.exists_position .root
  exact ⟨node, order.held_at at_k⟩

/-- Two nodes below the root ask for one uniform with two types. -/
def Conflict (g : Graph) (root : NodeId) (error : GraphError) : Prop :=
  ∃ first second, g.Declares root first ∧ g.Declares root second ∧ first.name = second.name ∧
    first.type ≠ second.type ∧ error = .conflictingUniform second.name first.type second.type

/-- An injection names an output that the root does not declare. -/
def Uninjected (g : Graph) (config : CompilerConfig) (root : NodeId) (error : GraphError) : Prop :=
  ∃ i ∈ config.injections, ∃ output node, i.Names output ∧ g.get? root = some node ∧
    node.definition.findOutput? output = none ∧ error = .missingOutput node.name output

/-- Once the nodes are in order only uniforms and injections can be wrong. -/
theorem DependencyOrder.of_compile_error {nodes : List (NodeId × Node)} {fault : GraphError}
    (order : g.DependencyOrder root nodes)
    (refused : (Program.mk nodes).compile config = .error fault) :
    g.Conflict root fault ∨ g.Uninjected config root fault := by
  rcases Program.compile_eq_error refused with conflict | ⟨stage, refused⟩
  · obtain ⟨first, mem, second, mem', same, differ, rfl⟩ :=
      UniformDeclaration.conflict_of_merge_error conflict
    exact Or.inl ⟨first, second, order.declares_iff.mp mem, order.declares_iff.mp mem', same,
      differ, rfl⟩
  · obtain ⟨i, configured, output, names, refused⟩ :=
      Program.rootOutput_of_injectedLines_error refused
    obtain ⟨node, held⟩ := order.root_held
    rw [order.rootOutput_eq held] at refused
    split at refused
    · rename_i missing
      cases refused
      exact Or.inr ⟨i, configured, output, node, names, held, missing, rfl⟩
    · cases refused

theorem defect_of_compile (h : g.compile config root = .error error) :
    g.Defect config root error := by
  rcases compile_eq_error h with refused | ⟨nodes, fault, linearized, refused, rfl⟩
  · exact defect_of_linearize refused
  rcases (dependencyOrder_of_linearize linearized).of_compile_error refused with
    ⟨first, second, declared, declared', same, differ, rfl⟩ |
    ⟨i, configured, output, node, names, held, missing, rfl⟩
  · exact .conflictingUniform declared declared' same differ
  · exact .missingInjected configured names held missing

/-! ## What compiles is well formed -/

/-- Along edges the positions fall, so no node depends on itself. -/
theorem DependencyOrder.position_lt {nodes : List (NodeId × Node)} {source target : NodeId}
    (order : g.DependencyOrder root nodes) (path : Relation.TransGen g.Feeds source target) :
    ∀ (k : Nat) (node : Node), nodes[k]? = some (target, node) →
      ∃ j < k, ∃ fed, nodes[j]? = some (source, fed) := by
  have step {source target : NodeId} (feeds : g.Feeds source target) (k : Nat) (node : Node)
      (at_k : nodes[k]? = some (target, node)) : ∃ j < k, ∃ fed, nodes[j]? = some (source, fed) := by
    obtain ⟨reader, held, input, output, reads⟩ := feeds
    obtain rfl : node = reader := Option.some.inj ((order.held_at at_k).symm.trans held)
    exact order.earlier k target node at_k input _ reads
  induction path with
  | single feeds => exact step feeds
  | tail _ feeds ih =>
    intro k node at_k
    obtain ⟨j, before, fed, at_j⟩ := step feeds k node at_k
    obtain ⟨i, before', source, at_i⟩ := ih j fed at_j
    exact ⟨i, Nat.lt_trans before' before, source, at_i⟩

theorem DependencyOrder.acyclic {nodes : List (NodeId × Node)} {id : NodeId}
    (order : g.DependencyOrder root nodes) (reached : g.Reaches root id) :
    ¬ Relation.TransGen g.Feeds id id := by
  intro path
  obtain ⟨k, node, at_k⟩ := order.exists_position reached
  obtain ⟨j, before, fed, at_j⟩ := order.position_lt path k node at_k
  have : some j = some k := (order.position? at_j).symm.trans (order.position? at_k)
  have := Option.some.inj this
  omega

theorem wellFormed_of_compile {shader : CompiledShader} (h : g.compile config root = .ok shader) :
    g.WellFormed config root := by
  obtain ⟨nodes, linearized, compiled⟩ := compile_eq_ok h
  obtain ⟨_, _, _, merged, _⟩ := Program.compile_eq_ok compiled
  have order := dependencyOrder_of_linearize linearized
  refine ⟨?_, fun id reached => order.acyclic reached, ?_, ?_, ?_⟩
  · intro id reached
    obtain ⟨k, node, at_k⟩ := order.exists_position reached
    exact ⟨contains_of_get? (order.held_at at_k), node, order.held_at at_k⟩
  · intro id node reached held input source reads fed feeds
    obtain ⟨k, other, at_k⟩ := order.exists_position reached
    obtain rfl : other = node := Option.some.inj ((order.held_at at_k).symm.trans held)
    exact (checkOutput_eq_ok_iff feeds).mp
      (order.fits id other (List.mem_of_getElem? at_k) input source reads)
  · intro d e declared declared' same
    obtain ⟨_, known⟩ := UniformDeclaration.find?_of_merge_ok merged
    obtain ⟨first, found, agree⟩ := known d (order.declares_iff.mpr declared)
    obtain ⟨second, found', agree'⟩ := known e (order.declares_iff.mpr declared')
    rw [same, found'] at found
    cases found
    exact agree.symm.trans agree'
  · intro i configured output names node held
    obtain ⟨line, _, rendered⟩ := Program.exists_line compiled configured rfl
    obtain ⟨global, named⟩ := Program.rootOutput_of_render rendered names
    obtain ⟨found, declared, _⟩ := (order.rootOutput_eq_ok_iff held).mp named
    exact ⟨found, declared⟩

/-! ## What is well formed has no defect -/

/-- A cycle leads from its first node back to it. -/
theorem Cycle.transGen {first : NodeId × Node} {nodes : List (NodeId × Node)}
    (cycle : g.Cycle (first :: nodes)) : Relation.TransGen g.Feeds first.1 first.1 := by
  suffices walk : ∀ (last target : NodeId × Node) (nodes : List (NodeId × Node)),
      (target :: (nodes ++ [last])).IsChain (fun target source => g.Feeds source.1 target.1) →
        Relation.TransGen g.Feeds last.1 target.1 from
    walk first first nodes cycle.closed
  intro last target nodes chain
  induction nodes generalizing target with
  | nil => exact .single (List.isChain_cons_cons.mp chain).1
  | cons next nodes ih =>
    obtain ⟨feeds, chain⟩ := List.isChain_cons_cons.mp chain
    exact .tail (ih next chain) feeds

theorem WellFormed.not_defect (wellFormed : g.WellFormed config root) :
    ¬ g.Defect config root error := by
  intro defect
  cases defect with
  | unknownNode reached foreign =>
    exact absurd (wellFormed.defined _ reached).1 (by simp [foreign])
  | undefinedNode reached _ reserved =>
    obtain ⟨node, held⟩ := (wellFormed.defined _ reached).2
    exact absurd (reserved.symm.trans held) (by simp)
  | @cycle nodes _ cycle reached =>
    cases nodes with
    | nil => exact cycle.nonempty rfl
    | cons first nodes =>
      exact wellFormed.acyclic first.1 (reached _ first.2 List.mem_cons_self) cycle.transGen
  | typeMismatch reached held reads feeds found misfit =>
    obtain ⟨output, declared, accepted⟩ := wellFormed.fits _ _ reached held _ _ reads _ feeds
    cases found.symm.trans declared
    exact absurd accepted (by simp [misfit])
  | missingOutput reached held reads feeds missing =>
    obtain ⟨output, declared, _⟩ := wellFormed.fits _ _ reached held _ _ reads _ feeds
    exact absurd (missing.symm.trans declared) (by simp)
  | missingInjected configured names held missing =>
    obtain ⟨found, declared⟩ := wellFormed.named _ configured _ names _ held
    exact absurd (missing.symm.trans declared) (by simp)
  | conflictingUniform declared declared' same differ =>
    exact differ (wellFormed.agree _ _ declared declared' same)

/-- A compilation succeeds exactly on what is well formed, and its errors name what is not. -/
theorem compile_accepts_iff (g : Graph) (config : CompilerConfig) (root : NodeId) :
    ((∃ shader, g.compile config root = .ok shader) ↔ g.WellFormed config root) ∧
      ∀ error, g.compile config root = .error error → g.Defect config root error := by
  refine ⟨⟨?_, ?_⟩, fun error refused => defect_of_compile refused⟩
  · rintro ⟨shader, compiled⟩
    exact wellFormed_of_compile compiled
  · intro wellFormed
    cases compiled : g.compile config root with
    | ok shader => exact ⟨shader, rfl⟩
    | error e => exact absurd (defect_of_compile compiled) wellFormed.not_defect

/-- A filter behind a forward reference that leads back to it. -/
example : (Graph.mk ⟨#[some ⟨Library.scale .vec3, [.node ⟨1⟩, .expr "0.5"]⟩,
      some ⟨Library.scale .vec3, [.node ⟨0⟩, .expr "2.0"]⟩]⟩).linearize ⟨1⟩ =
    .error (.graph (.cycle ["Scale #1", "Scale #0", "Scale #1"])) := by cbv

end Graph

end ParticleShading
