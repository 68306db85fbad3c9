import ParticleShading.Proofs.Shader.Bindings

/-!
# Early and late checks of a reference

A reference to a node that is there is checked when it is made. One to a
reserved id is let through and checked when the graph is compiled.
`Definition.Misfit` says on its own what is wrong with feeding an input from an
output. The early check fails with a misfit exactly if there is one, and so does
a late compilation of a graph in which nothing else is wrong with what the root
reaches. So the two checks agree, error for error.
-/

namespace ParticleShading

/-- What is wrong with feeding an input of one definition from an output of another. -/
inductive Definition.Misfit (consumer producer : Definition) (input : Input Definition)
    (output : String) : ShaderError → Prop where
  | missing (undeclared : producer.findOutput? output = none) :
    Misfit consumer producer input output (.graph (.missingOutput producer.name output))
  | mistyped {found : Output} (declared : producer.findOutput? output = some found)
      (refused : input.type.accepts found.type = false) :
    Misfit consumer producer input output
      (.typeMismatch consumer.name input.name input.type found.type)

/-- The two errors that a reference can be refused with. -/
def ShaderError.IsMisfit : ShaderError → Prop
  | .typeMismatch _ _ _ _ | .graph (.missingOutput _ _) => True
  | _ => False

/-- The node has the definition of the draft, and whatever the draft has bound. -/
structure Draft.Becomes (draft : Draft) (node : Node) : Prop where
  definition : node.definition = draft.definition
  bindings : ∀ (k : Nat) (binding : Binding), draft.bindings[k]? = some (some binding) →
    node.bindings[k]? = some binding

/-- Nothing is wrong with what a root reaches, with the edge from `source` into an input of `id`
left aside, and the injections name outputs of the root. -/
structure Graph.SoundBesides (g : Graph) (config : CompilerConfig) (root id : NodeId)
    (input : Input Definition) (source : OutputRef) : Prop where
  defined : ∀ slot, g.Reaches root slot → ∃ node, g.get? slot = some node
  acyclic : ∀ slot, g.Reaches root slot → ¬ Relation.TransGen g.Feeds slot slot
  fits : ∀ slot node, g.Reaches root slot → g.get? slot = some node →
    ∀ other ref, node.Reads other ref → ¬ (slot = id ∧ other = input ∧ ref = source) →
      g.Offers ref other.type
  named : ∀ i ∈ config.injections, ∀ output, i.Names output →
    ∀ node, g.get? root = some node → ∃ found, node.definition.findOutput? output = some found

/-- A compilation of a graph with a node of `consumer` below the root. Its input `x` was bound to an
output of an id that was reserved at the time. By now the id has a node of `producer`, and nothing
else is wrong. -/
structure LateReference (consumer producer : Definition) (x output : String) where
  before : Graph
  source : NodeId
  reserved : before.Pending source
  draft : Draft
  definition : draft.definition = consumer
  complete : draft.bindings.length = draft.definition.inputs.length
  bound : Draft
  made : draft.bind before x (.output ⟨source, output⟩) = .ok bound
  graph : Graph
  supplier : Node
  filled : graph.get? source = some supplier
  supplies : supplier.definition = producer
  id : NodeId
  user : Node
  placed : graph.get? id = some user
  becomes : bound.Becomes user
  config : CompilerConfig
  root : NodeId
  reached : graph.Reaches root id
  input : Input Definition
  declared : consumer.findInput? x = some input
  sound : graph.SoundBesides config root id input ⟨source, output⟩

def LateReference.compile {consumer producer : Definition} {x output : String}
    (late : LateReference consumer producer x output) : Except ShaderError CompiledShader :=
  late.graph.compile late.config late.root

namespace Definition

variable {consumer producer : Definition} {input : Input Definition} {output : String}
variable {error other : ShaderError}

theorem Misfit.unique (misfit : consumer.Misfit producer input output error)
    (misfit' : consumer.Misfit producer input output other) : error = other := by
  cases misfit with
  | missing undeclared =>
    cases misfit' with
    | missing => rfl
    | mistyped declared => cases undeclared.symm.trans declared
  | mistyped declared =>
    cases misfit' with
    | missing undeclared => cases undeclared.symm.trans declared
    | mistyped declared' =>
      cases declared.symm.trans declared'
      rfl

theorem Misfit.isMisfit (misfit : consumer.Misfit producer input output error) :
    error.IsMisfit := by
  cases misfit <;> trivial

/-- An output that an input can be fed from is not a misfit, and any other is. -/
theorem exists_misfit_iff : (∃ error, consumer.Misfit producer input output error) ↔
    ¬ ∃ found, producer.findOutput? output = some found ∧
      input.type.accepts found.type = true := by
  constructor
  · rintro ⟨error, misfit⟩ ⟨found, declared, accepted⟩
    cases misfit with
    | missing undeclared => cases undeclared.symm.trans declared
    | mistyped declared' refused =>
      cases declared.symm.trans declared'
      simp [refused] at accepted
  · intro unfit
    cases declared : producer.findOutput? output with
    | none => exact ⟨_, .missing declared⟩
    | some found =>
      have refused : input.type.accepts found.type = false := by
        rw [← Bool.not_eq_true]
        exact fun accepted => unfit ⟨found, declared, accepted⟩
      exact ⟨_, .mistyped declared refused⟩

/-- An input that is found by its name has a first position. -/
theorem exists_findIdx? {d : Definition} {x : String} (declared : d.findInput? x = some input) :
    ∃ index : Nat, d.inputs.findIdx? (·.name = x) = some index ∧
      d.inputs[index]? = some input := by
  rw [findInput?, List.find?_eq_bind_findIdx?_getElem?] at declared
  exact Option.bind_eq_some_iff.mp declared

end Definition

/-! ## The early check -/

namespace Graph

variable {g : Graph} {consumer : Definition} {input : Input Definition} {source : OutputRef}
variable {fed : Node} {error : ShaderError}

theorem checkOutput_eq_error_iff (feeds : g.get? source.node = some fed) :
    g.checkOutput consumer.name input.name input.type source = .error error ↔
      consumer.Misfit fed.definition input source.output error := by
  have refused {error : ShaderError}
      (failed : g.checkOutput consumer.name input.name input.type source = .error error) :
      consumer.Misfit fed.definition input source.output error := by
    rcases of_checkOutput_error feeds failed with ⟨undeclared, rfl⟩ | ⟨found, declared, misfit, rfl⟩
    · exact .missing undeclared
    · exact .mistyped declared misfit
  refine ⟨refused, ?_⟩
  intro misfit
  cases checked : g.checkOutput consumer.name input.name input.type source with
  | ok =>
    have fits := (checkOutput_eq_ok_iff feeds).mp checked
    exact absurd fits (Definition.exists_misfit_iff.mp ⟨error, misfit⟩)
  | error other => rw [(refused checked).unique misfit]

/-- A reserved id passes every check. -/
theorem checkOutput_of_pending {owner name : String} {type : ValueType}
    (pending : g.Pending source.node) : g.checkOutput owner name type source = .ok () := by
  simp only [checkOutput, outputType, pending.1, pending.2, if_true]

end Graph

namespace Draft

variable {g : Graph} {draft : Draft} {x : String} {input : Input Definition} {source : OutputRef}

/-- Binding a reference is checking it. -/
theorem bind_output {index : Nat}
    (at_index : draft.definition.inputs.findIdx? (·.name = x) = some index)
    (here : draft.definition.inputs[index]? = some input) :
    draft.bind g x (.output source) =
      (g.checkOutput draft.definition.name input.name input.type source).map fun _ =>
        { draft with bindings := draft.bindings.set index (some (.output source)) } := by
  rw [bind_eq at_index here, Binding.take]
  cases g.checkOutput draft.definition.name input.name input.type source <;> rfl

theorem bind_output_eq_error_iff {fed : Node} {error : ShaderError}
    (declared : draft.definition.findInput? x = some input)
    (feeds : g.get? source.node = some fed) :
    draft.bind g x (.output source) = .error error ↔
      draft.definition.Misfit fed.definition input source.output error := by
  obtain ⟨index, at_index, here⟩ := Definition.exists_findIdx? declared
  rw [bind_output at_index here, ← Graph.checkOutput_eq_error_iff feeds]
  cases g.checkOutput draft.definition.name input.name input.type source <;> simp [Except.map]

theorem exists_bind_output_of_pending (declared : draft.definition.findInput? x = some input)
    (pending : g.Pending source.node) : ∃ bound, draft.bind g x (.output source) = .ok bound := by
  obtain ⟨index, at_index, here⟩ := Definition.exists_findIdx? declared
  rw [bind_output at_index here, Graph.checkOutput_of_pending pending]
  exact ⟨_, rfl⟩

/-- The node that a draft becomes reads what was bound last. -/
theorem Becomes.reads {bound : Draft} {node : Node}
    (complete : draft.bindings.length = draft.definition.inputs.length)
    (made : draft.bind g x (.output source) = .ok bound) (becomes : bound.Becomes node)
    (declared : draft.definition.findInput? x = some input) : node.Reads input source := by
  obtain ⟨index, at_index, here⟩ := Definition.exists_findIdx? declared
  rw [bind_output at_index here] at made
  obtain ⟨_, _, rfl⟩ := map_eq_ok_iff.mp made
  have inside := (List.getElem?_eq_some_iff.mp here).1
  have fed := becomes.bindings index _ (List.getElem?_set_self (complete ▸ inside))
  rw [Node.Reads, Node.inputs, becomes.definition]
  exact List.mem_of_getElem? (List.getElem?_zip_eq_some.mpr ⟨here, fed⟩)

end Draft

/-! ## The late check -/

/-- A search never complains about uniforms. -/
theorem Search.Fault.ne_conflict {g : Graph} {s : Search} {error : ShaderError}
    (fault : Fault g s error) (name : String) (first second : ValueType) :
    error ≠ .graph (.conflictingUniform name first second) := by
  rintro rfl
  cases fault with
  | rejected _ misfit =>
    simp only [Graph.checkOutput, Graph.outputType] at misfit
    split at misfit
    · rename_i refused
      cases misfit
      split at refused
      · split at refused
        · cases refused
        · split at refused <;> cases refused
      · cases refused
    · cases misfit
    · split at misfit <;> cases misfit

namespace Graph

variable {g : Graph} {config : CompilerConfig} {root id : NodeId} {node fed : Node}
variable {input : Input Definition} {source : OutputRef} {error : ShaderError}

theorem linearize_ne_conflict (name : String) (first second : ValueType) :
    g.linearize root ≠ .error (.graph (.conflictingUniform name first second)) := by
  intro stopped
  unfold linearize at stopped
  split at stopped
  · split at stopped
    · cases stopped
    · obtain ⟨_, _, fault⟩ := Search.moves_of_run_error stopped
      exact fault.ne_conflict name first second rfl
  · cases stopped

namespace SoundBesides

/-- A misfit below the root is the one of the edge left aside. -/
theorem misfit_of_edge {slot : NodeId} {reader supplier : Node} {other : Input Definition}
    {ref : OutputRef} (sound : g.SoundBesides config root id input source)
    (held : g.get? id = some node) (feeds : g.get? source.node = some fed)
    (reached : g.Reaches root slot) (there : g.get? slot = some reader)
    (reads : reader.Reads other ref) (behind : g.get? ref.node = some supplier)
    (misfit : reader.definition.Misfit supplier.definition other ref.output error) :
    node.definition.Misfit fed.definition input source.output error := by
  by_cases aside : slot = id ∧ other = input ∧ ref = source
  · obtain ⟨rfl, rfl, rfl⟩ := aside
    obtain rfl : reader = node := Option.some.inj (there.symm.trans held)
    obtain rfl : supplier = fed := Option.some.inj (behind.symm.trans feeds)
    exact misfit
  · obtain ⟨offering, found, behind', declared, accepted⟩ :=
      sound.fits slot reader reached there other ref reads aside
    obtain rfl : supplier = offering := Option.some.inj (behind.symm.trans behind')
    have unfit := Definition.exists_misfit_iff.mp ⟨error, misfit⟩
    exact absurd ⟨found, declared, accepted⟩ unfit

/-- If the nodes cannot be put in order, it is for the one edge. -/
theorem misfit_of_linearize (sound : g.SoundBesides config root id input source)
    (held : g.get? id = some node) (feeds : g.get? source.node = some fed)
    (stopped : g.linearize root = .error error) :
    node.definition.Misfit fed.definition input source.output error := by
  have defect : g.Defect ⟨[], false⟩ root error := defect_of_linearize stopped
  cases defect with
  | unknownNode reached foreign =>
    obtain ⟨_, there⟩ := sound.defined _ reached
    exact absurd (contains_of_get? there) (by simp [foreign])
  | undefinedNode reached _ reserved =>
    obtain ⟨_, there⟩ := sound.defined _ reached
    cases reserved.symm.trans there
  | @cycle nodes _ cycle reached =>
    cases nodes with
    | nil => exact absurd rfl cycle.nonempty
    | cons first nodes =>
      have below := reached first.1 first.2 List.mem_cons_self
      exact absurd cycle.transGen (sound.acyclic first.1 below)
  | typeMismatch reached there reads behind declared refused =>
    exact sound.misfit_of_edge held feeds reached there reads behind (.mistyped declared refused)
  | missingOutput reached there reads behind undeclared =>
    exact sound.misfit_of_edge held feeds reached there reads behind (.missing undeclared)
  | missingInjected configured => cases configured
  | conflictingUniform => exact absurd stopped (linearize_ne_conflict _ _ _)

/-- A compilation reports a misfit exactly if the one edge is one. -/
theorem compile_eq_error_iff (sound : g.SoundBesides config root id input source)
    (held : g.get? id = some node) (feeds : g.get? source.node = some fed)
    (reads : node.Reads input source) (reached : g.Reaches root id) :
    error.IsMisfit ∧ g.compile config root = .error error ↔
      node.definition.Misfit fed.definition input source.output error := by
  constructor
  · rintro ⟨isMisfit, refused⟩
    rcases compile_eq_error refused with stopped | ⟨nodes, fault, linearized, failed, rfl⟩
    · exact sound.misfit_of_linearize held feeds stopped
    · rcases (dependencyOrder_of_linearize linearized).of_compile_error failed with
        ⟨_, _, _, _, _, _, rfl⟩ | ⟨i, configured, output, last, names, there, missing, _⟩
      · exact isMisfit.elim
      · obtain ⟨found, declared⟩ := sound.named i configured output names last there
        cases missing.symm.trans declared
  · intro misfit
    refine ⟨misfit.isMisfit, ?_⟩
    cases linearized : g.linearize root with
    | error other =>
      have same := (sound.misfit_of_linearize held feeds linearized).unique misfit
      rw [compile, linearized, same]
    | ok nodes =>
      -- every edge of an order that was found has been checked
      have order := dependencyOrder_of_linearize linearized
      obtain ⟨k, other, at_k⟩ := order.exists_position reached
      obtain rfl : other = node := Option.some.inj ((order.held_at at_k).symm.trans held)
      have checked := order.fits id other (List.mem_of_getElem? at_k) input source reads
      have fits := (checkOutput_eq_ok_iff feeds).mp checked
      exact absurd fits (Definition.exists_misfit_iff.mp ⟨error, misfit⟩)

end SoundBesides

end Graph

theorem LateReference.compile_eq_error_iff {consumer producer : Definition} {x output : String}
    {input : Input Definition} {error : ShaderError}
    (late : LateReference consumer producer x output)
    (declared : consumer.findInput? x = some input) :
    error.IsMisfit ∧ late.compile = .error error ↔
      consumer.Misfit producer input output error := by
  obtain ⟨before, source, _, draft, rfl, complete, bound, made, g, supplier, filled, rfl, id, user,
    placed, becomes, config, root, reached, other, declared', sound⟩ := late
  obtain rfl : other = input := Option.some.inj (declared'.symm.trans declared)
  have reads : user.Reads other ⟨source, output⟩ := becomes.reads complete made declared
  have definition : user.definition = draft.definition := by
    obtain ⟨_, _, _, _, _, _, _, rfl⟩ := Draft.bind_ok_iff.mp made
    exact becomes.definition
  have agree : error.IsMisfit ∧ g.compile config root = .error error ↔
      user.definition.Misfit supplier.definition other output error :=
    sound.compile_eq_error_iff placed filled reads reached
  rwa [definition] at agree

/-! ## A graph of two nodes -/

/-- A producer with nothing to read, and a consumer that reads it. -/
def Graph.pair (supplier user : Node) : Graph := ⟨⟨#[some supplier, some user]⟩⟩

namespace Graph

variable {supplier user : Node} {input : Input Definition} {output : String}

theorem get?_pair {slot : NodeId} {node : Node} (held : (pair supplier user).get? slot = some node) :
    slot = ⟨0⟩ ∧ node = supplier ∨ slot = ⟨1⟩ ∧ node = user := by
  have inside : slot.toNat < 2 := contains_iff.mp (contains_of_get? held)
  obtain first | second : slot.toNat = 0 ∨ slot.toNat = 1 := by omega
  · obtain rfl : slot = ⟨0⟩ := Handle.toNat_inj.mp first
    cases held
    exact Or.inl ⟨rfl, rfl⟩
  · obtain rfl : slot = ⟨1⟩ := Handle.toNat_inj.mp second
    cases held
    exact Or.inr ⟨rfl, rfl⟩

/-- The one edge of the two nodes is the only one that can be wrong. -/
theorem soundBesides_pair (unfed : ∀ other ref, ¬ supplier.Reads other ref)
    (reads : ∀ other ref, user.Reads other ref → other = input ∧ ref = ⟨⟨0⟩, output⟩) :
    (pair supplier user).SoundBesides ⟨[], false⟩ ⟨1⟩ ⟨1⟩ input ⟨⟨0⟩, output⟩ := by
  have feeds {source target : NodeId} (edge : (pair supplier user).Feeds source target) :
      source = ⟨0⟩ ∧ target = ⟨1⟩ := by
    obtain ⟨node, held, other, ref, read⟩ := edge
    rcases get?_pair held with ⟨_, rfl⟩ | ⟨rfl, rfl⟩
    · exact absurd read (unfed other _)
    · have same := congrArg OutputRef.node (reads other _ read).2
      exact ⟨same, rfl⟩
  refine ⟨?_, ?_, ?_, by simp⟩
  · intro slot reached
    cases reached with
    | root => exact ⟨user, rfl⟩
    | feed _ edge =>
      obtain ⟨rfl, _⟩ := feeds edge
      exact ⟨supplier, rfl⟩
  · intro slot _ path
    have ends : ∀ target, Relation.TransGen (pair supplier user).Feeds slot target →
        slot = ⟨0⟩ ∧ target = ⟨1⟩ := by
      intro target path
      induction path with
      | single edge => exact feeds edge
      | tail _ edge ih => exact ⟨ih.1, (feeds edge).2⟩
    obtain ⟨rfl, same⟩ := ends slot path
    cases same
  · intro slot node _ held other ref read apart
    rcases get?_pair held with ⟨_, rfl⟩ | ⟨rfl, rfl⟩
    · exact absurd read (unfed other ref)
    · exact absurd ⟨rfl, reads other ref read⟩ apart

end Graph

namespace LateReference

variable {consumer : Definition} {x : String} {input : Input Definition}

/-- Whatever the two definitions are, a reference can be made first and checked later. -/
theorem nonempty (declared : consumer.findInput? x = some input) (producer : Definition)
    (output : String) : Nonempty (LateReference consumer producer x output) := by
  obtain ⟨index, at_index, here⟩ := Definition.exists_findIdx? declared
  let source : OutputRef := ⟨⟨0⟩, output⟩
  let before : Graph := ⟨⟨#[none]⟩⟩
  have reserved : before.Pending source.node := ⟨rfl, rfl⟩
  let bound : Draft :=
    ⟨consumer, (Draft.start consumer).bindings.set index (some (.output source))⟩
  have made : (Draft.start consumer).bind before x (.output source) = .ok bound := by
    rw [Draft.bind_output at_index here, Graph.checkOutput_of_pending reserved]
    rfl
  -- all other inputs are bound to expressions, which nothing is wrong with
  let supplier : Node := ⟨producer, producer.inputs.map fun _ => .expr "0.0"⟩
  let user : Node := ⟨consumer, bound.bindings.map (·.getD (.expr "0.0"))⟩
  have becomes : bound.Becomes user := by
    refine ⟨rfl, ?_⟩
    intro k binding at_k
    rw [List.getElem?_map, at_k]
    rfl
  have unfed (other : Input Definition) (ref : OutputRef) : ¬ supplier.Reads other ref := by
    intro read
    obtain ⟨_, _, impossible⟩ := List.mem_map.mp (List.of_mem_zip read).2
    cases impossible
  have reads (other : Input Definition) (ref : OutputRef) (read : user.Reads other ref) :
      other = input ∧ ref = source := by
    obtain ⟨k, at_k⟩ := List.getElem?_of_mem read
    obtain ⟨input_k, binding_k⟩ := List.getElem?_zip_eq_some.mp at_k
    rw [List.getElem?_map, List.getElem?_set] at binding_k
    by_cases same : index = k
    · subst same
      have inside := (List.getElem?_eq_some_iff.mp here).1
      simp [Draft.start, inside] at binding_k
      exact ⟨Option.some.inj (input_k.symm.trans here), binding_k.symm⟩
    · have inside := (List.getElem?_eq_some_iff.mp input_k).1
      have inside : k < consumer.inputs.length := inside
      simp [same, Draft.start, inside] at binding_k
  exact ⟨{
    before, source := ⟨0⟩, reserved, draft := .start consumer, definition := rfl,
    complete := List.length_map _, bound, made, graph := .pair supplier user, supplier,
    filled := rfl, supplies := rfl, id := ⟨1⟩, user, placed := rfl, becomes,
    config := ⟨[], false⟩, root := ⟨1⟩, reached := .root, input, declared,
    sound := Graph.soundBesides_pair unfed reads }⟩

end LateReference

/-- A reference to a node that is there is refused if and only if the same reference, made while its
id is reserved, is let through and every later compilation in which nothing else is wrong is refused
with the same error. Such compilations exist, and where the early reference is accepted none of them
complains about an edge. -/
theorem Draft.reference_checks_agree {early : Graph} {id : NodeId} {producer : Node} {draft : Draft}
    {x : String} {input : Input Definition} (defined : early.get? id = some producer)
    (declared : draft.definition.findInput? x = some input) (output : String) :
    (∀ before source, before.Pending source →
      ∃ bound, draft.bind before x (.output ⟨source, output⟩) = .ok bound) ∧
    Nonempty (LateReference draft.definition producer.definition x output) ∧
    ∀ late : LateReference draft.definition producer.definition x output,
      (∀ error, draft.bind early x (.output ⟨id, output⟩) = .error error ↔
        error.IsMisfit ∧ late.compile = .error error) ∧
      ((∃ bound, draft.bind early x (.output ⟨id, output⟩) = .ok bound) ↔
        ∀ error, error.IsMisfit → late.compile ≠ .error error) := by
  refine ⟨?_, LateReference.nonempty declared .., ?_⟩
  · intro before source pending
    exact exists_bind_output_of_pending declared pending
  · intro late
    have agree (error : ShaderError) : draft.bind early x (.output ⟨id, output⟩) = .error error ↔
        error.IsMisfit ∧ late.compile = .error error :=
      (bind_output_eq_error_iff declared defined).trans (late.compile_eq_error_iff declared).symm
    refine ⟨agree, ?_⟩
    constructor
    · rintro ⟨bound, accepted⟩ error isMisfit refused
      have failed := (agree error).mpr ⟨isMisfit, refused⟩
      cases accepted.symm.trans failed
    · intro silent
      cases bound : draft.bind early x (.output ⟨id, output⟩) with
      | ok next => exact ⟨next, rfl⟩
      | error error =>
        obtain ⟨isMisfit, refused⟩ := (agree error).mp bound
        exact absurd refused (silent error isMisfit)

/-- A node reads a reserved id as its factor, and then the id gets texture coordinates. -/
def GraphCall.lateFactor : List GraphCall :=
  [.reserve, .insert (Library.scale .vec3) [("a", .expr "position"), ("factor", .node ⟨0⟩)],
    .define Library.uv [] ⟨0⟩]

theorem Construction.run_lateFactor : (run GraphCall.lateFactor).graph =
    .pair ⟨Library.uv, []⟩ ⟨Library.scale .vec3, [.expr "position", .node ⟨0⟩]⟩ := rfl

def LateReference.lateFactor : LateReference (Library.scale .vec3) Library.uv "factor" "value" where
  before := (Construction.run [.reserve]).graph
  source := ⟨0⟩
  reserved := ⟨rfl, rfl⟩
  draft := ⟨Library.scale .vec3, [some (.expr "position"), none]⟩
  definition := rfl
  complete := rfl
  bound := ⟨Library.scale .vec3, [some (.expr "position"), some (.node ⟨0⟩)]⟩
  made := rfl
  graph := (Construction.run GraphCall.lateFactor).graph
  supplier := ⟨Library.uv, []⟩
  filled := rfl
  supplies := rfl
  id := ⟨1⟩
  user := ⟨Library.scale .vec3, [.expr "position", .node ⟨0⟩]⟩
  placed := rfl
  becomes := by
    refine ⟨rfl, ?_⟩
    intro k binding at_k
    rcases k with _ | _ | k <;> cases at_k <;> rfl
  config := ⟨[], false⟩
  root := ⟨1⟩
  reached := .root
  input := Library.optional "factor" .float (.float 1)
  declared := rfl
  sound := by
    rw [Construction.run_lateFactor]
    apply Graph.soundBesides_pair
    · intro other ref read
      cases read
    · intro other ref read
      rcases List.mem_cons.mp read with same | read
      · cases same
      · cases List.mem_singleton.mp read
        exact ⟨rfl, rfl⟩

/-- The factor does not take texture coordinates, neither at once nor later. -/
theorem Draft.reference_checks_agree_lateFactor :
    (start (Library.scale .vec3)).bind ⟨⟨#[some ⟨Library.uv, []⟩]⟩⟩ "factor" (.node ⟨0⟩) =
        .error (.typeMismatch "Scale" "factor" .float .vec2) ∧
      (∃ bound, (start (Library.scale .vec3)).bind (Construction.run [.reserve]).graph "factor"
        (.node ⟨0⟩) = .ok bound) ∧
      (Construction.run GraphCall.lateFactor).graph.compile ⟨[], false⟩ ⟨1⟩ =
        .error (.typeMismatch "Scale" "factor" .float .vec2) := by
  have refused : (start (Library.scale .vec3)).bind ⟨⟨#[some ⟨Library.uv, []⟩]⟩⟩ "factor"
      (.node ⟨0⟩) = .error (.typeMismatch "Scale" "factor" .float .vec2) := rfl
  have defined : (Graph.mk ⟨#[some ⟨Library.uv, []⟩]⟩).get? ⟨0⟩ = some ⟨Library.uv, []⟩ := rfl
  have declared : (start (Library.scale .vec3)).definition.findInput? "factor" =
      some (Library.optional "factor" .float (.float 1)) := rfl
  obtain ⟨reserved, _, late⟩ := reference_checks_agree defined declared "value"
  obtain ⟨agree, _⟩ := late LateReference.lateFactor
  exact ⟨refused, reserved _ _ LateReference.lateFactor.reserved, ((agree _).mp refused).2⟩

end ParticleShading
