import ParticleShading.Proofs.Shader.Compilation
import ParticleShading.Proofs.Shader.Evaluation
import ParticleShading.Proofs.Shader.Linearization
import ParticleShading.Proofs.Shader.Names

/-!
# Compilation keeps the meaning

Running the sources of a compiled graph gives every global the value that the
graph has at its output. The invariant counts the nodes already run: up to there
the globals hold the values of the stage, and the varyings hold the values of
the vertex stage. A block only reads globals of earlier nodes.
-/

namespace ParticleShading

variable {V : Type} {I : Interpretation V} {stage : Stage}

/-! ## Stores -/

namespace Store

variable {store : Store V} {target : String → String} {values : String → V}
variable {outputs : List String} {name output : String}

theorem assignAll_of_forall_ne (h : ∀ output ∈ outputs, target output ≠ name) :
    store.assignAll target values outputs name = store name := by
  induction outputs generalizing store with
  | nil => rfl
  | cons first rest ih =>
    have other : name ≠ target first := fun same => h first List.mem_cons_self same.symm
    calc
      _ = store.assign (target first) (values first) name :=
        ih fun output mem => h output (List.mem_cons_of_mem _ mem)
      _ = store name := if_neg other

/-- Outputs of one name get one value, so a repeated name does no harm. -/
theorem assignAll_of_mem (inj : ∀ a b, target a = target b → a = b) (mem : output ∈ outputs) :
    store.assignAll target values outputs (target output) = some (values output) := by
  induction outputs generalizing store with
  | nil => cases mem
  | cons first rest ih =>
    by_cases later : output ∈ rest
    · exact ih later
    · obtain rfl := (List.mem_cons.mp mem).resolve_right later
      calc
        _ = store.assign (target output) (values output) (target output) :=
          assignAll_of_forall_ne fun other mem same => later (inj _ _ same ▸ mem)
        _ = some (values output) := if_pos rfl

end Store

namespace Statement

theorem runAll_append (first second : List Statement) (store : Store V) :
    runAll I stage (first ++ second) store =
      (runAll I stage first store).bind (runAll I stage second) :=
  List.foldlM_append

/-- An invariant that the statements of each item keep holds after those of all items. -/
theorem runAll_flatMap {α : Type} {items : List α} {store : Store V} (f : α → List Statement)
    (Inv : Nat → Store V → Prop)
    (step : ∀ (k : Nat) (item : α) (store : Store V), items[k]? = some item → Inv k store →
      ∃ after, runAll I stage (f item) store = some after ∧ Inv (k + 1) after)
    (start : Inv 0 store) :
    ∃ after, runAll I stage (items.flatMap f) store = some after ∧ Inv items.length after := by
  induction items generalizing Inv store with
  | nil => exact ⟨store, rfl, start⟩
  | cons item items ih =>
    obtain ⟨middle, ran, next⟩ := step 0 item store rfl start
    obtain ⟨after, ran', final⟩ := ih (fun k store => Inv (k + 1) store)
      (fun k item store at_k inv => step (k + 1) item store at_k inv) next
    refine ⟨after, ?_, final⟩
    rw [List.flatMap_cons, runAll_append, ran]
    exact ran'

/-- Copying names that hold values to names apart from them. -/
theorem runAll_copies {target source : String → String} {values : String → V}
    {outputs : List String} {store : Store V} (apart : ∀ a b, target a ≠ source b)
    (held : ∀ output ∈ outputs, store (source output) = some (values output)) :
    runAll I stage (outputs.map fun output => .assign (target output) (source output)) store =
      some (store.assignAll target values outputs) := by
  induction outputs generalizing store with
  | nil => rfl
  | cons first rest ih =>
    have here : Statement.run I stage store (.assign (target first) (source first)) =
        some (store.assign (target first) (values first)) := by
      simp [Statement.run, held first List.mem_cons_self]
    have kept : ∀ output ∈ rest,
        store.assign (target first) (values first) (source output) = some (values output) := by
      intro output mem
      exact (if_neg (apart first output).symm).trans (held output (List.mem_cons_of_mem _ mem))
    change (Statement.run I stage store _).bind (runAll I stage _) = _
    rw [here]
    exact ih kept

end Statement

/-! ## Values -/

/-- If all results are known to be related, so are their lists. -/
theorem exists_mapM {α β : Type} {f : α → Option β} {R : α → β → Prop} (xs : List α)
    (each : ∀ x ∈ xs, ∃ v, f x = some v ∧ R x v) :
    ∃ vs, xs.mapM f = some vs ∧ List.Forall₂ R xs vs := by
  induction xs with
  | nil => exact ⟨[], rfl, .nil⟩
  | cons x xs ih =>
    obtain ⟨v, known, related⟩ := each x List.mem_cons_self
    obtain ⟨vs, knowns, all⟩ := ih fun y mem => each y (List.mem_cons_of_mem _ mem)
    exact ⟨v :: vs, by simp [List.mapM_cons, known, knowns], .cons related all⟩

theorem eq_of_zip {α β : Type} {xs : List α} {vs ws : List β} (length : xs.length = vs.length)
    (length' : xs.length = ws.length)
    (same : ∀ x v w, (x, v) ∈ xs.zip vs → (x, w) ∈ xs.zip ws → v = w) : vs = ws := by
  induction xs generalizing vs ws with
  | nil =>
    rw [List.eq_nil_of_length_eq_zero length.symm, List.eq_nil_of_length_eq_zero length'.symm]
  | cons x xs ih =>
    obtain ⟨v, vs, rfl⟩ := List.exists_cons_of_length_eq_add_one length.symm
    obtain ⟨w, ws, rfl⟩ := List.exists_cons_of_length_eq_add_one length'.symm
    have head := same x v w List.mem_cons_self List.mem_cons_self
    have tail := ih (Nat.succ.inj length) (Nat.succ.inj length') fun y a b left right =>
      same y a b (List.mem_cons_of_mem _ left) (List.mem_cons_of_mem _ right)
    rw [head, tail]

/-- The recursion gives one value at most. -/
theorem Graph.Evaluates.unique {g : Graph} {binding : Binding} {value : V}
    (h : g.Evaluates I stage binding value) :
    ∀ other, g.Evaluates I stage binding other → value = other := by
  induction h with
  | literal =>
    intro other h
    cases h
    rfl
  | expr =>
    intro other h
    cases h
    rfl
  | computed held _ here length _ ih =>
    intro other h
    cases h with
    | computed held' _ _ length' known' =>
      cases held.symm.trans held'
      have : _ = _ := eq_of_zip length length' fun (input, binding) v w left right =>
        ih input binding v left w (known' input binding w right)
      rw [this]
    | varying held' _ varying _ =>
      cases held.symm.trans held'
      exact absurd ⟨varying, rfl⟩ here
  | varying held _ varying _ ih =>
    intro other h
    cases h with
    | computed held' _ here _ _ =>
      cases held.symm.trans held'
      exact absurd ⟨varying, rfl⟩ here
    | varying _ _ _ perVertex => exact ih other perVertex

theorem Graph.Evaluates.hasValue {g : Graph} {binding : Binding} {value : V}
    (h : g.Evaluates I stage binding value) : g.HasValue I stage binding value := by
  intro other
  constructor
  · intro h'
    exact (h.unique other h').symm
  · rintro rfl
    exact h

/-! ## Runs -/

namespace Program

variable {g : Graph} {root : NodeId} {nodes : List (NodeId × Node)} {count k : Nat}
variable {store after : Store V} {id : NodeId} {node : Node} {annotate : Bool}

/-- Of the first `count` nodes, those that are selected have the values of a stage in the names
that `target` gives to their outputs. -/
def Holds (g : Graph) (I : Interpretation V) (stage : Stage) (nodes : List (NodeId × Node))
    (target : String → String → String) (selected : Node → Prop) (count : Nat)
    (store : Store V) : Prop :=
  ∀ k < count, ∀ (id : NodeId) (node : Node), nodes[k]? = some (id, node) → selected node →
    ∀ output ∈ node.definition.outputs, ∃ value,
      g.Evaluates I stage (.output ⟨id, output.name⟩) value ∧
        store (target (label k) output.name) = some value

/-- Nodes have the values of the stage in their globals. -/
abbrev GlobalsHold (g : Graph) (I : Interpretation V) (stage : Stage)
    (nodes : List (NodeId × Node)) : Nat → Store V → Prop :=
  Holds g I stage nodes globalName fun _ => True

/-- What varies has the values of the vertex stage in its varyings. -/
abbrev VaryingsHold (g : Graph) (I : Interpretation V) (nodes : List (NodeId × Node)) :
    Nat → Store V → Prop :=
  Holds g I .vertex nodes varyingName fun node => node.definition.varying = true

/-- What a binding reads at its position is the value of what feeds it. -/
theorem evaluates_reading (order : g.DependencyOrder root nodes)
    (globals : GlobalsHold g I stage nodes k store) (at_k : nodes[k]? = some (id, node))
    {input : Input Definition} {binding : Binding} (mem : (input, binding) ∈ node.inputs) :
    ∃ value, (Program.reading ⟨nodes⟩ binding).value? I stage store = some value ∧
      g.Evaluates I stage binding value := by
  cases binding with
  | literal value => exact ⟨_, rfl, .literal⟩
  | expr text => exact ⟨_, rfl, .expr⟩
  | output source =>
    obtain ⟨j, before, fed, output, at_j, found, _⟩ := order.source_of_reads at_k mem
    obtain ⟨listed, same⟩ := Definition.findOutput?_eq_some found
    obtain ⟨value, evaluated, stored⟩ := globals j before source.node fed at_j trivial output listed
    rw [same] at evaluated stored
    refine ⟨value, ?_, evaluated⟩
    simpa [reading, Reading.value?, order.labelOf at_j] using stored

/-- Running a block gives its outputs their values. -/
theorem run_block (order : g.DependencyOrder root nodes)
    (globals : GlobalsHold g I stage nodes k store) (at_k : nodes[k]? = some (id, node))
    (computed : ¬ (node.definition.varying = true ∧ stage = .fragment)) :
    ∃ values : String → V,
      Block.run I stage store
          ⟨label k, node.definition, node.bindings.map (Program.reading ⟨nodes⟩)⟩ =
        some (store.assignAll (globalName (label k)) values
          (node.definition.outputs.map (·.name))) ∧
      ∀ output ∈ node.definition.outputs,
        g.Evaluates I stage (.output ⟨id, output.name⟩) (values output.name) := by
  obtain ⟨arguments, read, all⟩ := exists_mapM node.inputs
    (f := fun entry => (Program.reading ⟨nodes⟩ entry.2).value? I stage store)
    (R := fun entry value => g.Evaluates I stage entry.2 value)
    fun _ mem => evaluates_reading order globals at_k mem
  refine ⟨I.outputs stage node.definition arguments, ?_, ?_⟩
  · have zipped : (node.definition.inputs.zip (node.bindings.map (Program.reading ⟨nodes⟩))) =
        node.inputs.map fun entry => (entry.1, Program.reading ⟨nodes⟩ entry.2) :=
      List.zip_map_right
    rw [Block.run]
    simp only [zipped, List.mapM_map]
    exact Option.bind_eq_some_iff.mpr ⟨arguments, read, rfl⟩
  · intro output mem
    obtain ⟨found, declared⟩ := Definition.exists_findOutput? mem
    obtain ⟨length, known⟩ := List.forall₂_iff_zip.mp all
    exact .computed (order.held_at at_k) declared computed length fun _ _ _ mem => known mem

section Holds

variable {target other : String → String → String} {selected : Node → Prop}
variable {values : String → V} {outputs : List String}

theorem Holds.of_agree (holds : Holds g I stage nodes target selected count store)
    (agree : ∀ k < count, ∀ output,
      after (target (label k) output) = store (target (label k) output)) :
    Holds g I stage nodes target selected count after := by
  intro k before id node at_k chosen output mem
  rw [agree k before]
  exact holds k before id node at_k chosen output mem

theorem Holds.succ (holds : Holds g I stage nodes target selected k store)
    (at_k : nodes[k]? = some (id, node))
    (added : selected node → ∀ output ∈ node.definition.outputs, ∃ value,
      g.Evaluates I stage (.output ⟨id, output.name⟩) value ∧
        store (target (label k) output.name) = some value) :
    Holds g I stage nodes target selected (k + 1) store := by
  intro j before id' node' at_j chosen output mem
  rcases Nat.lt_succ_iff_lt_or_eq.mp before with before | rfl
  · exact holds j before id' node' at_j chosen output mem
  · obtain ⟨rfl, rfl⟩ := Prod.mk.inj (Option.some.inj (at_k.symm.trans at_j))
    exact added chosen output mem

/-- Assigning other names changes nothing. -/
theorem Holds.assign_apart (holds : Holds g I stage nodes target selected count store)
    (apart : ∀ {j k a b}, other (label j) a ≠ target (label k) b) :
    Holds g I stage nodes target selected count
      (store.assignAll (other (label k)) values outputs) :=
  holds.of_agree fun _ _ _ => Store.assignAll_of_forall_ne fun _ _ => apart

/-- The names of the next node are assigned; those of earlier nodes are others. -/
theorem Holds.assign (holds : Holds g I stage nodes target selected k store)
    (inj : ∀ {j k a b}, target (label j) a = target (label k) b ↔ j = k ∧ a = b)
    (at_k : nodes[k]? = some (id, node))
    (evaluated : ∀ output ∈ node.definition.outputs,
      g.Evaluates I stage (.output ⟨id, output.name⟩) (values output.name)) :
    Holds g I stage nodes target selected (k + 1)
      (store.assignAll (target (label k)) values (node.definition.outputs.map (·.name))) := by
  refine Holds.succ (holds.of_agree ?_) at_k ?_
  · intro j before output
    refine Store.assignAll_of_forall_ne fun other _ same => ?_
    have := (inj.mp same).1
    omega
  · intro _ output mem
    exact ⟨_, evaluated output mem,
      Store.assignAll_of_mem (fun _ _ same => (inj.mp same).2) (List.mem_map_of_mem mem)⟩

end Holds

theorem runAll_comment {name text : String} (statements : List Statement) :
    Statement.runAll I stage
      ((if annotate then [.comment name text] else []) ++ statements) store =
      Statement.runAll I stage statements store := by
  cases annotate <;> rfl

theorem runAll_block {b : Block} (statements : List Statement)
    (ran : b.run I stage store = some after) :
    Statement.runAll I stage (.block b :: statements) store =
      Statement.runAll I stage statements after := by
  change (Statement.run I stage store (.block b)).bind _ = _
  rw [Statement.run, ran]
  rfl

/-- The vertex stage runs every block; what varies is copied to its varyings. -/
theorem run_vertex (order : g.DependencyOrder root nodes) (at_k : nodes[k]? = some (id, node))
    (globals : GlobalsHold g I .vertex nodes k store) (varyings : VaryingsHold g I nodes k store) :
    ∃ after, Statement.runAll I .vertex
        (Program.statements ⟨nodes⟩ .vertex annotate (label k) node) store = some after ∧
      GlobalsHold g I .vertex nodes (k + 1) after ∧ VaryingsHold g I nodes (k + 1) after := by
  obtain ⟨values, ran, evaluated⟩ := run_block order globals at_k (by simp)
  have assigned := globals.assign globalName_inj at_k evaluated
  have kept : VaryingsHold g I nodes k (store.assignAll (globalName (label k)) values
      (node.definition.outputs.map (·.name))) :=
    varyings.assign_apart varyingName_ne_globalName.symm
  cases varying : node.definition.varying with
  | false =>
    refine ⟨_, ?_, assigned, kept.succ at_k (by simp [varying])⟩
    simp only [statements, varying]
    rw [runAll_comment, runAll_block _ ran]
    rfl
  | true =>
    refine ⟨_, ?_, assigned.assign_apart varyingName_ne_globalName,
      kept.assign varyingName_inj at_k evaluated⟩
    simp only [statements, varying]
    rw [runAll_comment, runAll_block _ ran]
    refine Statement.runAll_copies (fun _ _ => varyingName_ne_globalName) fun output mem => ?_
    exact Store.assignAll_of_mem (fun _ _ same => (globalName_inj.mp same).2) mem

/-- The fragment stage runs the blocks of what does not vary and reads back the rest. -/
theorem run_fragment (order : g.DependencyOrder root nodes) (at_k : nodes[k]? = some (id, node))
    (globals : GlobalsHold g I .fragment nodes k store)
    (varyings : VaryingsHold g I nodes nodes.length store) :
    ∃ after, Statement.runAll I .fragment
        (Program.statements ⟨nodes⟩ .fragment annotate (label k) node) store = some after ∧
      GlobalsHold g I .fragment nodes (k + 1) after ∧
      VaryingsHold g I nodes nodes.length after := by
  cases varying : node.definition.varying with
  | false =>
    obtain ⟨values, ran, evaluated⟩ := run_block order globals at_k (by simp [varying])
    refine ⟨_, ?_, globals.assign globalName_inj at_k evaluated,
      varyings.assign_apart varyingName_ne_globalName.symm⟩
    simp only [statements, varying]
    rw [runAll_comment, runAll_block _ ran]
    rfl
  | true =>
    have inside := (List.getElem?_eq_some_iff.mp at_k).1
    have carried := varyings k inside id node at_k varying
    -- Every output has a value in its varying; the default is never taken.
    let values : String → V := fun output =>
      (store (varyingName (label k) output)).getD (I.expr .vertex output)
    have evaluated : ∀ output ∈ node.definition.outputs,
        g.Evaluates I .fragment (.output ⟨id, output.name⟩) (values output.name) := by
      intro output mem
      obtain ⟨found, declared⟩ := Definition.exists_findOutput? mem
      obtain ⟨value, known, stored⟩ := carried output mem
      have same : values output.name = value := by simp [values, stored]
      exact .varying (order.held_at at_k) declared varying (same ▸ known)
    refine ⟨_, ?_, globals.assign globalName_inj at_k evaluated,
      varyings.assign_apart varyingName_ne_globalName.symm⟩
    simp only [statements, varying]
    rw [runAll_comment]
    refine Statement.runAll_copies (fun _ _ => varyingName_ne_globalName.symm) fun output mem => ?_
    obtain ⟨declared, listed, rfl⟩ := List.mem_map.mp mem
    obtain ⟨value, _, stored⟩ := carried declared listed
    simp [values, stored]

theorem getElem?_labeled {name : String} (h : (Program.mk nodes).labeled[k]? = some (name, node)) :
    ∃ id, nodes[k]? = some (id, node) ∧ name = label k := by
  rw [labeled, List.getElem?_map] at h
  obtain ⟨⟨⟨id, other⟩, position⟩, at_k, same⟩ := Option.map_eq_some_iff.mp h
  rw [List.getElem?_zipIdx, Option.map_eq_some_iff] at at_k
  obtain ⟨_, at_k, same'⟩ := at_k
  cases same'
  cases same
  exact ⟨id, at_k, by rw [Nat.zero_add]⟩

/-- An invariant that every node keeps holds at the end of `main`. -/
theorem run_sourceAround (I : Interpretation V) (stage : Stage) (config : CompilerConfig)
    (uniforms : List UniformDeclaration) (lines : List String) (Inv : Nat → Store V → Prop)
    (step : ∀ (k : Nat) (id : NodeId) (node : Node) (store : Store V),
      nodes[k]? = some (id, node) → Inv k store →
        ∃ after, Statement.runAll I stage
          (Program.statements ⟨nodes⟩ stage config.annotate (label k) node) store = some after ∧
            Inv (k + 1) after)
    (start : Inv 0 store) :
    ∃ after, (Program.sourceAround ⟨nodes⟩ config uniforms stage lines).run I store = some after ∧
      Inv nodes.length after := by
  have length : (Program.mk nodes).labeled.length = nodes.length := by simp [labeled]
  rw [← length]
  refine Statement.runAll_flatMap _ Inv ?_ start
  rintro k ⟨name, node⟩ store listed inv
  obtain ⟨id, at_k, rfl⟩ := getElem?_labeled listed
  exact step k id node store at_k inv

/-- The varyings of a varying node are declared. -/
theorem mem_varyings (at_k : nodes[k]? = some (id, node)) (varying : node.definition.varying = true)
    {output : Output} (mem : output ∈ node.definition.outputs) :
    varyingName (label k) output.name ∈ (Program.mk nodes).varyings.map (·.name) := by
  have listed : (label k, node) ∈ (Program.mk nodes).labeled :=
    List.mem_map.mpr ⟨((id, node), k), List.mk_mem_zipIdx_iff_getElem?.mpr at_k, rfl⟩
  refine List.mem_map.mpr ⟨⟨output.type, varyingName (label k) output.name⟩, ?_, rfl⟩
  refine List.mem_flatMap.mpr ⟨_, listed, ?_⟩
  simp only [varying, if_true]
  exact List.mem_map_of_mem mem

/-- What the vertex stage hands over holds the varyings. -/
theorem VaryingsHold.handOver {s : Source} (declared : s.varyings = (Program.mk nodes).varyings)
    (varyings : VaryingsHold g I nodes count store) :
    VaryingsHold g I nodes count (s.handOver store) := by
  intro k before id node at_k varying output mem
  obtain ⟨value, evaluated, stored⟩ := varyings k before id node at_k varying output mem
  refine ⟨value, evaluated, ?_⟩
  rw [Source.handOver, declared, if_pos (mem_varyings at_k varying mem)]
  exact stored

/-- Both stages run to their ends, with the values of all nodes in their globals. -/
theorem run_sources (I : Interpretation V) (order : g.DependencyOrder root nodes)
    {shader : CompiledShader} {config : CompilerConfig}
    (h : (Program.mk nodes).compile config = .ok shader) (stage : Stage) :
    ∃ store, shader.run I stage = some store ∧ GlobalsHold g I stage nodes nodes.length store := by
  obtain ⟨uniforms, vertexLines, fragmentLines, _, _, _, rfl⟩ := compile_eq_ok h
  have nothing (stage : Stage) (store : Store V) : GlobalsHold g I stage nodes 0 store :=
    fun k before => absurd before (Nat.not_lt_zero k)
  have start : GlobalsHold g I .vertex nodes 0 Store.empty ∧
      VaryingsHold g I nodes 0 Store.empty :=
    ⟨nothing _ _, fun k before => absurd before (Nat.not_lt_zero k)⟩
  obtain ⟨vertexStore, vertexRan, globals, varyings⟩ :=
    run_sourceAround I .vertex config uniforms vertexLines
      (fun k store => GlobalsHold g I .vertex nodes k store ∧ VaryingsHold g I nodes k store)
      (fun k id node store at_k inv => run_vertex order at_k inv.1 inv.2) start
  cases stage with
  | vertex => exact ⟨vertexStore, vertexRan, globals⟩
  | fragment =>
    let vertex := (Program.mk nodes).sourceAround config uniforms .vertex vertexLines
    have handedOver : VaryingsHold g I nodes nodes.length (vertex.handOver vertexStore) :=
      varyings.handOver rfl
    obtain ⟨fragmentStore, fragmentRan, globals, _⟩ :=
      run_sourceAround I .fragment config uniforms fragmentLines
        (fun k store =>
          GlobalsHold g I .fragment nodes k store ∧ VaryingsHold g I nodes nodes.length store)
        (fun k id node store at_k inv => run_fragment order at_k inv.1 inv.2)
        ⟨nothing _ _, handedOver⟩
    exact ⟨fragmentStore, Option.bind_eq_some_iff.mpr ⟨vertexStore, vertexRan, fragmentRan⟩,
      globals⟩

end Program

/-- The sources of a compiled graph compute the graph. Each stage runs to its end and leaves in the
globals of every node the values of its outputs; every injected line is the template of its
injection with the placeholders replaced by globals that hold the values of the root. -/
theorem Graph.compile_preserves_meaning {g : Graph} {config : CompilerConfig} {root : NodeId}
    {shader : CompiledShader} (h : g.compile config root = .ok shader) (I : Interpretation V) :
    ∃ nodes, g.linearize root = .ok nodes ∧ ∀ stage, ∃ store, shader.run I stage = some store ∧
      (∀ id, g.Reaches root id → ∃ node, g.get? id = some node ∧
        ∀ output ∈ node.definition.outputs, ∃ value,
          g.HasValue I stage (.output ⟨id, output.name⟩) value ∧
          store (Program.globalName ((Program.mk nodes).labelOf id) output.name) = some value) ∧
      ∀ i ∈ config.injections, i.stage = stage →
        (∃ line ∈ (shader.source stage).injections,
          Text.render (Program.mk nodes).rootOutput i.template = .ok line) ∧
        ∀ output, i.Names output → ∃ global value,
          (Program.mk nodes).rootOutput output = .ok global ∧
          g.HasValue I stage (.output ⟨root, output⟩) value ∧ store global = some value := by
  obtain ⟨nodes, linearized, compiled⟩ := compile_eq_ok h
  have order := dependencyOrder_of_linearize linearized
  refine ⟨nodes, linearized, fun stage => ?_⟩
  obtain ⟨store, ran, globals⟩ := Program.run_sources I order compiled stage
  have all (id : NodeId) (reached : g.Reaches root id) : ∃ node, g.get? id = some node ∧
      ∀ output ∈ node.definition.outputs, ∃ value,
        g.HasValue I stage (.output ⟨id, output.name⟩) value ∧
        store (Program.globalName ((Program.mk nodes).labelOf id) output.name) = some value := by
    obtain ⟨k, node, at_k⟩ := order.exists_position reached
    have inside := (List.getElem?_eq_some_iff.mp at_k).1
    refine ⟨node, order.held_at at_k, fun output mem => ?_⟩
    obtain ⟨value, evaluated, stored⟩ := globals k inside id node at_k trivial output mem
    rw [order.labelOf at_k]
    exact ⟨value, evaluated.hasValue, stored⟩
  refine ⟨store, ran, all, fun i mem here => ?_⟩
  obtain ⟨line, listed, rendered⟩ := Program.exists_line compiled mem here
  refine ⟨⟨line, listed, rendered⟩, fun output names => ?_⟩
  obtain ⟨global, named⟩ := Program.rootOutput_of_render rendered names
  obtain ⟨node, held, values⟩ := all root .root
  obtain ⟨found, declared, rfl⟩ := (order.rootOutput_eq_ok_iff held).mp named
  obtain ⟨member, rfl⟩ := Definition.findOutput?_eq_some declared
  obtain ⟨value, evaluated, stored⟩ := values found member
  exact ⟨_, value, named, evaluated, stored⟩

/-- Every value is the term that computes it. -/
def Interpretation.terms : Interpretation String where
  literal value := value.toGlsl
  expr _ text := text
  outputs stage d arguments output :=
    stage.name ++ "." ++ d.name ++ "." ++ output ++ "(" ++ ", ".intercalate arguments ++ ")"

/-- Both copies read the normal of the vertex stage. -/
theorem Graph.compile_preserves_meaning_diamond :
    ∃ shader store, diamond.compile ⟨[⟨.fragment, "csm_DiffuseColor = \x7bvalue\x7d;"⟩], true⟩ ⟨0⟩ =
        .ok shader ∧ shader.run .terms .fragment = some store ∧
      store "n2_value" = some
        "fragment.Scale.value(vertex.VertexNormal.value(), fragment.Time.value())" ∧
      ∃ value, store "n4_value" = some value ∧
        diamond.HasValue .terms .fragment (.output ⟨⟨0⟩, "value"⟩) value := by
  let config : CompilerConfig := ⟨[⟨.fragment, "csm_DiffuseColor = \x7bvalue\x7d;"⟩], true⟩
  have ran : ((diamond.compile config ⟨0⟩).toOption.bind fun shader =>
      (shader.run .terms .fragment).bind (· "n2_value")) = some
        "fragment.Scale.value(vertex.VertexNormal.value(), fragment.Time.value())" := by cbv
  cases compiled : diamond.compile config ⟨0⟩ with
  | error e => simp [compiled, Except.toOption] at ran
  | ok shader =>
    obtain ⟨nodes, linearized, stages⟩ := compile_preserves_meaning compiled .terms
    obtain ⟨store, done, values, _⟩ := stages .fragment
    cases linearize_diamond.symm.trans linearized
    obtain ⟨node, held, outputs⟩ := values ⟨0⟩ .root
    cases held
    obtain ⟨value, evaluated, stored⟩ := outputs _ List.mem_cons_self
    refine ⟨shader, store, rfl, done, ?_, value, stored, evaluated⟩
    simpa [compiled, Except.toOption, done] using ran

end ParticleShading
