import ParticleShading.Proofs.Shader.Bindings
import ParticleShading.Proofs.Shader.Isomorphism

/-!
# Compilations in a growing graph

A root that compiles reaches nodes and nothing else, and nodes are never
changed. So a graph that grew gives the root the same nodes and edges, and the
search takes the same way through it, however many slots there are by then.
-/

namespace ParticleShading

theorem Binding.rename_id (binding : Binding) : binding.rename id = binding := by
  cases binding <;> rfl

theorem Node.rename_id (node : Node) : node.rename id = node := by
  have bindings : node.bindings.map (Binding.rename id) = node.bindings :=
    (List.map_congr_left fun binding _ => binding.rename_id).trans (List.map_id _)
  rw [rename, bindings]

theorem Node.map_renameEntry_id (nodes : List (NodeId × Node)) :
    nodes.map (renameEntry id) = nodes := by
  have entries : ∀ entry ∈ nodes, renameEntry id entry = entry := by
    rintro ⟨slot, node⟩ _
    exact congrArg (Prod.mk slot) node.rename_id
  exact (List.map_congr_left entries).trans (List.map_id _)

namespace Graph

variable {g g' : Graph} {root slot : NodeId} {nodes : List (NodeId × Node)}

theorem Keeps.feeds {source target : NodeId} (h : g.Keeps g') (feeds : g.Feeds source target) :
    g'.Feeds source target := by
  obtain ⟨node, held, reads⟩ := feeds
  exact ⟨node, h.held _ _ held, reads⟩

theorem Keeps.reaches (h : g.Keeps g') (reached : g.Reaches root slot) :
    g'.Reaches root slot := by
  induction reached with
  | root => exact .root
  | feed _ feeds ih => exact .feed ih (h.feeds feeds)

/-- Everything that the root reaches is a node; none of it is reserved or foreign. -/
def Settled (g : Graph) (root : NodeId) : Prop :=
  ∀ slot, g.Reaches root slot → ∃ node, g.get? slot = some node

theorem DependencyOrder.settled (order : g.DependencyOrder root nodes) : g.Settled root := by
  intro slot reached
  obtain ⟨k, node, at_k⟩ := order.exists_position reached
  exact ⟨node, order.held_at at_k⟩

/-- Growth adds no edge to a node that is there. -/
theorem Settled.reaches_iff (settled : g.Settled root) (h : g.Keeps g') :
    g'.Reaches root slot ↔ g.Reaches root slot := by
  constructor
  · intro reached
    induction reached with
    | root => exact .root
    | feed _ feeds ih =>
      obtain ⟨node, held⟩ := settled _ ih
      obtain ⟨later, held', reads⟩ := feeds
      obtain rfl : node = later := Option.some.inj ((h.held _ _ held).symm.trans held')
      exact .feed ih ⟨node, held, reads⟩
  · exact h.reaches

/-- What a settled root reaches corresponds to itself in every later graph. -/
theorem Settled.isomorphism (settled : g.Settled root) (h : g.Keeps g') :
    g.Isomorphism g' root root id := by
  refine ⟨?_, rfl, ?_, ?_⟩
  · have same : {slot | g'.Reaches root slot} = {slot | g.Reaches root slot} :=
      Set.ext fun _ => settled.reaches_iff h
    rw [same]
    exact Set.bijOn_id _
  · intro slot reached
    obtain ⟨node, held⟩ := settled slot reached
    have issued := contains_of_get? held
    exact (h.issued issued).trans issued.symm
  · intro slot reached
    obtain ⟨node, held⟩ := settled slot reached
    rw [held, Option.map_some, node.rename_id]
    exact h.held slot node held

theorem Keeps.linearize (h : g.Keeps g') (linearized : g.linearize root = .ok nodes) :
    g'.linearize root = .ok nodes := by
  have settled := (dependencyOrder_of_linearize linearized).settled
  have same := (settled.isomorphism h).linearize
  rw [linearized] at same
  cases found : g'.linearize root with
  | error e => simp [found, Except.toOption] at same
  | ok nodes' =>
    simp only [found, Except.toOption, Option.map_some, Option.some.injEq,
      Node.map_renameEntry_id] at same
    rw [same]

theorem Keeps.compile {config : CompilerConfig} {shader : CompiledShader} (h : g.Keeps g')
    (compiled : g.compile config root = .ok shader) : g'.compile config root = .ok shader := by
  obtain ⟨nodes, linearized, done⟩ := compile_eq_ok compiled
  simp only [Graph.compile, h.linearize linearized, done]

end Graph

namespace Construction

/-- A root that has compiled compiles to the same shader, sources, uniforms and all, whatever calls
are made in between and whether they succeed or not. -/
theorem compile_kept {c : Construction} {config : CompilerConfig} {root : NodeId}
    {shader : CompiledShader} (compiled : c.graph.compile config root = .ok shader)
    (calls : List GraphCall) :
    (calls.foldl step c).graph.compile config root = .ok shader :=
  (c.keeps_foldl calls).compile compiled

/-- A wave moves a point; beside it a slot is reserved, and a node reads the slot. -/
def pulse : List GraphCall :=
  [.reserve, .insert Library.sineWave [], .insert Library.join [("x", .node ⟨2⟩)],
    .insert (Library.scale .vec3) [("a", .node ⟨0⟩)]]

/-- A reference to a missing output, a second node for an id, a stack that fails after two of its
nodes, and a node for the reserved slot that closes a cycle. -/
def intrusion : List GraphCall :=
  [.insert Library.sin [("a", .output ⟨⟨2⟩, "x"⟩)], .define Library.time [] ⟨2⟩,
    .stack .float "Wave" (.node ⟨2⟩) [⟨Library.cos, []⟩, ⟨Library.vertexNormal, []⟩],
    .define (Library.passThrough "Pass" .vec3) [("a", .node ⟨4⟩)] ⟨0⟩]

theorem run_pulse : run pulse =
    ⟨⟨⟨#[none,
      some ⟨Library.time, []⟩,
      some ⟨Library.sineWave, [.node ⟨1⟩, .literal (.float 1), .literal (.float 1)]⟩,
      some ⟨Library.join, [.node ⟨2⟩, .literal (.float 0), .literal (.float 0)]⟩,
      some ⟨Library.scale .vec3, [.node ⟨0⟩, .literal (.float 1)]⟩]⟩⟩, [⟨0⟩], []⟩ := rfl

/-- Three of the four calls fail, two nodes are added all the same, and the root that reads the
reserved slot comes to lie on a cycle. -/
theorem run_intrusion : (intrusion.foldl step (run pulse)).graph =
    ⟨⟨#[some ⟨Library.passThrough "Pass" .vec3, [.node ⟨4⟩]⟩,
      some ⟨Library.time, []⟩,
      some ⟨Library.sineWave, [.node ⟨1⟩, .literal (.float 1), .literal (.float 1)]⟩,
      some ⟨Library.join, [.node ⟨2⟩, .literal (.float 0), .literal (.float 0)]⟩,
      some ⟨Library.scale .vec3, [.node ⟨0⟩, .literal (.float 1)]⟩,
      some ⟨Library.passThrough "Wave" .float, [.node ⟨2⟩]⟩,
      some ⟨Library.cos, [.node ⟨5⟩]⟩]⟩⟩ := by
  rw [run_pulse]
  rfl

/-- The wave compiles as before. -/
theorem compile_kept_pulse :
    let config : CompilerConfig :=
      ⟨[⟨.vertex, "gl_Position = vec4(\x7bvalue\x7d, 1.0);"⟩], false⟩
    ∃ shader, (run pulse).graph.compile config ⟨3⟩ = .ok shader ∧
      (intrusion.foldl step (run pulse)).graph.compile config ⟨3⟩ = .ok shader ∧
      shader.nodeCount = 3 ∧
      shader.vertex.injections = ["gl_Position = vec4(n2_value, 1.0);"] ∧
      (intrusion.foldl step (run pulse)).graph.compile config ⟨4⟩ =
        .error (.graph (.cycle ["Scale #4", "Pass #0", "Scale #4"])) := by
  intro config
  have written : ((run pulse).graph.compile config ⟨3⟩).toOption.map
      (fun shader => (shader.nodeCount, shader.vertex.injections)) =
        some (3, ["gl_Position = vec4(n2_value, 1.0);"]) := by
    rw [run_pulse]
    cbv
  cases compiled : (run pulse).graph.compile config ⟨3⟩ with
  | error e => simp [compiled, Except.toOption] at written
  | ok shader =>
    simp only [compiled, Except.toOption, Option.map_some, Option.some.injEq,
      Prod.mk.injEq] at written
    refine ⟨shader, rfl, compile_kept compiled intrusion, written.1, written.2, ?_⟩
    rw [run_intrusion]
    cbv

end Construction

end ParticleShading
