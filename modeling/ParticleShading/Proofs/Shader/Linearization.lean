import ParticleShading.Proofs.Shader.Search
import ParticleShading.Shader.Program
import Mathlib.Data.List.Nodup

/-!
# Dependency orders

What a successful search returns: every node that the root reaches, once, after
all nodes it reads, with the root last. Labels are positions in that order, so
every node of a program and every node that one reads has a label of its own.
-/

namespace ParticleShading

/-- The nodes that a root reaches, in an order in which every edge points backwards. -/
structure Graph.DependencyOrder (g : Graph) (root : NodeId) (nodes : List (NodeId × Node)) :
    Prop where
  nodup : (nodes.map (·.1)).Nodup
  mem_iff : ∀ id, id ∈ nodes.map (·.1) ↔ g.Reaches root id
  held : ∀ id node, (id, node) ∈ nodes → g.get? id = some node
  earlier : ∀ (k : Nat) (id : NodeId) (node : Node), nodes[k]? = some (id, node) →
    ∀ input source, node.Reads input source → ∃ j < k, ∃ fed, nodes[j]? = some (source.node, fed)
  fits : ∀ (id : NodeId) (node : Node), (id, node) ∈ nodes →
    ∀ input source, node.Reads input source →
      g.checkOutput node.name input.name input.type source = .ok ()
  last : nodes.getLast?.map (·.1) = some root

variable {g : Graph} {root : NodeId} {nodes finished : List (NodeId × Node)}

/-- An output of a node that is there fits if it is declared with a type the input accepts. -/
theorem Graph.checkOutput_eq_ok_iff {owner input : String} {expected : ValueType}
    {source : OutputRef} {fed : Node} (held : g.get? source.node = some fed) :
    g.checkOutput owner input expected source = .ok () ↔
      ∃ output, fed.definition.findOutput? source.output = some output ∧
        expected.accepts output.type = true := by
  simp only [checkOutput, outputType, contains_of_get? held, held, if_true]
  cases found : fed.definition.findOutput? source.output with
  | none => simp
  | some output => simp

namespace Search

theorem Closed.nodup (h : Closed g finished) : (finished.map (·.1)).Nodup := by
  induction finished with
  | nil => exact List.nodup_nil
  | cons latest older ih =>
    obtain ⟨_, unlisted, _, closed⟩ := h
    exact List.nodup_cons.mpr ⟨unlisted, ih closed⟩

/-- What is said of the latest node holds of every listed node and those below it. -/
theorem Closed.split {later older : List (NodeId × Node)} {id : NodeId} {node : Node}
    (h : Closed g (later ++ (id, node) :: older)) :
    g.get? id = some node ∧
      ∀ input source, node.Reads input source → Settled g older node input source := by
  induction later with
  | nil => exact ⟨h.1, h.2.2.1⟩
  | cons latest later ih => exact ih h.2.2.2

theorem Closed.of_mem {id : NodeId} {node : Node} (h : Closed g finished)
    (mem : (id, node) ∈ finished) :
    g.get? id = some node ∧
      ∀ input source, node.Reads input source → Settled g finished node input source := by
  obtain ⟨later, older, rfl⟩ := List.append_of_mem mem
  obtain ⟨held, settled⟩ := h.split
  refine ⟨held, fun input source reads => ⟨?_, (settled input source reads).2⟩⟩
  have := (settled input source reads).1
  rw [List.map_append, List.map_cons]
  exact List.mem_append.mpr (Or.inr (List.mem_cons_of_mem _ this))

/-- A list closed under reading holds all that its members reach. -/
theorem Closed.reached (h : Closed g finished) (start : root ∈ finished.map (·.1)) {id : NodeId}
    (reached : g.Reaches root id) : id ∈ finished.map (·.1) := by
  induction reached with
  | root => exact start
  | feed _ feeds ih =>
    obtain ⟨node, held, input, output, reads⟩ := feeds
    obtain ⟨⟨target, listed⟩, mem, rfl⟩ := List.mem_map.mp ih
    obtain ⟨here, settled⟩ := h.of_mem mem
    obtain rfl : listed = node := Option.some.inj (here.symm.trans held)
    exact (settled input _ reads).1

/-- In the order of the list, what a node reads comes before it. -/
theorem Closed.earlier {k : Nat} {id : NodeId} {node : Node} {input : Input Definition}
    {source : OutputRef} (h : Closed g finished) (at_k : finished.reverse[k]? = some (id, node))
    (reads : node.Reads input source) :
    ∃ j < k, ∃ fed, finished.reverse[j]? = some (source.node, fed) := by
  obtain ⟨inside, value⟩ := List.getElem?_eq_some_iff.mp at_k
  have split : finished =
      (finished.reverse.drop (k + 1)).reverse ++ (id, node) :: (finished.reverse.take k).reverse := by
    have whole := List.take_append_drop k finished.reverse
    rw [List.drop_eq_getElem_cons inside, value] at whole
    have := congrArg List.reverse whole
    simpa using this.symm
  rw [split] at h
  obtain ⟨_, settled⟩ := h.split
  have listed := (settled input source reads).1
  rw [List.map_reverse, List.mem_reverse] at listed
  obtain ⟨⟨fedId, fed⟩, mem, rfl⟩ := List.mem_map.mp listed
  obtain ⟨j, before, here⟩ := List.getElem_of_mem mem
  have hj : j < k := by
    rw [List.length_take] at before
    omega
  refine ⟨j, hj, fed, ?_⟩
  rw [← here, List.getElem_take]
  exact List.getElem?_eq_getElem _

theorem Valid.dependencyOrder {last : Search} (v : Valid g root last) (empty : last.path = []) :
    g.DependencyOrder root last.finished.reverse := by
  have closed := v.closed
  have head : last.finished.head?.map (·.1) = some root := by simpa [empty] using v.bottom
  have start : root ∈ last.finished.map (·.1) := by
    obtain ⟨latest, here, rfl⟩ := Option.map_eq_some_iff.mp head
    exact List.mem_map.mpr ⟨latest, List.mem_of_mem_head? here, rfl⟩
  refine ⟨?_, ?_, ?_, fun k id node at_k input source reads => closed.earlier at_k reads, ?_, ?_⟩
  · rw [List.map_reverse]
    exact List.nodup_reverse.mpr closed.nodup
  · intro id
    rw [List.map_reverse, List.mem_reverse]
    exact ⟨fun mem => v.reached id (Or.inr mem), closed.reached start⟩
  · intro id node mem
    exact (closed.of_mem (List.mem_reverse.mp mem)).1
  · intro id node mem input source reads
    exact ((closed.of_mem (List.mem_reverse.mp mem)).2 input source reads).2
  · rw [List.getLast?_reverse]
    exact head

end Search

theorem Graph.dependencyOrder_of_linearize (h : g.linearize root = .ok nodes) :
    g.DependencyOrder root nodes := by
  unfold linearize at h
  split at h
  · split at h
    · cases h
    · rename_i held
      obtain ⟨last, moves, empty, rfl⟩ := Search.moves_of_run_ok h
      exact ((Search.valid_start held).moves moves).dependencyOrder empty
  · cases h

namespace Graph.DependencyOrder

variable {k : Nat} {id : NodeId} {node : Node} {input : Input Definition} {source : OutputRef}

/-- The label of a node is its position. -/
theorem position? (order : g.DependencyOrder root nodes) (at_k : nodes[k]? = some (id, node)) :
    (Program.mk nodes).position? id = some k := by
  obtain ⟨inside, value⟩ := List.getElem?_eq_some_iff.mp at_k
  rw [Program.position?, List.findIdx?_eq_some_iff_getElem]
  refine ⟨inside, by simp [value], ?_⟩
  intro j before same
  have inside' : k < (nodes.map (·.1)).length := by simpa using inside
  have before' : j < (nodes.map (·.1)).length := by omega
  have ids : (nodes.map (·.1))[j] = (nodes.map (·.1))[k] := by simpa [value] using same
  have := (order.nodup.getElem_inj_iff).mp ids
  omega

theorem labelOf (order : g.DependencyOrder root nodes) (at_k : nodes[k]? = some (id, node)) :
    (Program.mk nodes).labelOf id = Program.label k := by
  simp [Program.labelOf, order.position? at_k]

/-- A node has a position exactly if the root reaches it. -/
theorem exists_position (order : g.DependencyOrder root nodes) (reached : g.Reaches root id) :
    ∃ (k : Nat) (node : Node), nodes[k]? = some (id, node) := by
  obtain ⟨⟨_, node⟩, mem, rfl⟩ := List.mem_map.mp ((order.mem_iff id).mpr reached)
  obtain ⟨k, at_k⟩ := List.getElem?_of_mem mem
  exact ⟨k, node, at_k⟩

theorem held_at (order : g.DependencyOrder root nodes) (at_k : nodes[k]? = some (id, node)) :
    g.get? id = some node :=
  order.held id node (List.mem_of_getElem? at_k)

/-- What a node reads is an earlier output of a type that fits. -/
theorem source_of_reads (order : g.DependencyOrder root nodes) (at_k : nodes[k]? = some (id, node))
    (reads : node.Reads input source) :
    ∃ j < k, ∃ fed output, nodes[j]? = some (source.node, fed) ∧
      fed.definition.findOutput? source.output = some output ∧
      input.type.accepts output.type = true := by
  obtain ⟨j, before, fed, at_j⟩ := order.earlier k id node at_k input source reads
  have fits := order.fits id node (List.mem_of_getElem? at_k) input source reads
  obtain ⟨output, found, accepted⟩ := (checkOutput_eq_ok_iff (order.held_at at_j)).mp fits
  exact ⟨j, before, fed, output, at_j, found, accepted⟩

/-- The root comes last, so its outputs are the ones that have a global by name. -/
theorem rootOutput_eq (order : g.DependencyOrder root nodes) (held : g.get? root = some node)
    (output : String) :
    (Program.mk nodes).rootOutput output =
      match node.definition.findOutput? output with
      | none => .error (.missingOutput node.name output)
      | some _ => .ok (Program.globalName ((Program.mk nodes).labelOf root) output) := by
  obtain ⟨⟨id, last⟩, here, rfl⟩ := Option.map_eq_some_iff.mp order.last
  obtain rfl : last = node :=
    Option.some.inj ((order.held id last (List.mem_of_getLast? here)).symm.trans held)
  cases found : last.definition.findOutput? output with
  | none => simp [Program.rootOutput, here, found]
  | some declared => simp [Program.rootOutput, here, found]

theorem rootOutput_eq_ok_iff (order : g.DependencyOrder root nodes)
    (held : g.get? root = some node) {output global : String} :
    (Program.mk nodes).rootOutput output = .ok global ↔
      ∃ found, node.definition.findOutput? output = some found ∧
        global = Program.globalName ((Program.mk nodes).labelOf root) output := by
  rw [order.rootOutput_eq held]
  cases found : node.definition.findOutput? output with
  | none => simp
  | some declared => simp [eq_comm]

end Graph.DependencyOrder

/-- The list enumerates what the root reaches, each node after all that it reads, and the labels
count the positions. -/
theorem Graph.linearize_enumerates (h : g.linearize root = .ok nodes) :
    (nodes.map (·.1)).Nodup ∧
    (∀ id, id ∈ nodes.map (·.1) ↔ g.Reaches root id) ∧
    (∀ (k : Nat) (id : NodeId) (node : Node), nodes[k]? = some (id, node) →
      ∀ input source, node.Reads input source →
        ∃ j < k, ∃ fed, nodes[j]? = some (source.node, fed)) ∧
    nodes.getLast?.map (·.1) = some root ∧
    (∀ id node, (id, node) ∈ nodes → g.get? id = some node) ∧
    (∀ (k : Nat) (id : NodeId) (node : Node), nodes[k]? = some (id, node) →
      (Program.mk nodes).labelOf id = Program.label k) ∧
    (∀ (id : NodeId) (node : Node), (id, node) ∈ nodes →
      ((Program.mk nodes).position? id).isSome ∧
        ∀ input source, node.Reads input source →
          ((Program.mk nodes).position? source.node).isSome) := by
  have order := dependencyOrder_of_linearize h
  refine ⟨order.nodup, order.mem_iff, order.earlier, order.last, order.held,
    fun k id node at_k => order.labelOf at_k, ?_⟩
  intro id node mem
  obtain ⟨k, at_k⟩ := List.getElem?_of_mem mem
  refine ⟨by simp [order.position? at_k], ?_⟩
  intro input source reads
  obtain ⟨j, _, fed, at_j⟩ := order.earlier k id node at_k input source reads
  simp [order.position? at_j]

/-- Two scaled copies of a varying normal, added; the sources come after their readers. -/
def Graph.diamond : Graph :=
  ⟨⟨#[some ⟨Library.add .vec3, [.node ⟨1⟩, .node ⟨2⟩]⟩,
    some ⟨Library.scale .vec3, [.node ⟨3⟩, .node ⟨4⟩]⟩,
    some ⟨Library.scale .vec3, [.node ⟨3⟩, .expr "0.5"]⟩,
    some ⟨Library.vertexNormal, []⟩,
    some ⟨Library.time, []⟩]⟩⟩

theorem Graph.linearize_diamond : diamond.linearize ⟨0⟩ = .ok
    [(⟨3⟩, ⟨Library.vertexNormal, []⟩), (⟨4⟩, ⟨Library.time, []⟩),
      (⟨1⟩, ⟨Library.scale .vec3, [.node ⟨3⟩, .node ⟨4⟩]⟩),
      (⟨2⟩, ⟨Library.scale .vec3, [.node ⟨3⟩, .expr "0.5"]⟩),
      (⟨0⟩, ⟨Library.add .vec3, [.node ⟨1⟩, .node ⟨2⟩]⟩)] := by cbv

/-- The shared source comes first and once. -/
theorem Graph.linearize_enumerates_diamond :
    ∃ nodes, diamond.linearize ⟨0⟩ = .ok nodes ∧
      nodes.map (·.1) = [⟨3⟩, ⟨4⟩, ⟨1⟩, ⟨2⟩, ⟨0⟩] ∧
      (Program.mk nodes).labelOf ⟨1⟩ = "n2" ∧ diamond.Reaches ⟨0⟩ ⟨3⟩ := by
  obtain ⟨_, reached, _, _, _, labels, _⟩ := linearize_enumerates linearize_diamond
  exact ⟨_, linearize_diamond, rfl, (labels 2 ⟨1⟩ _ rfl).trans (by decide),
    (reached ⟨3⟩).mp (by decide)⟩

end ParticleShading
