import ParticleShading.Proofs.Shader.ForwardReferences

/-!
# Bindings in a growing graph

What holds of the nodes of every graph that calls construct: one binding for
each input, literals of the declared types, references to issued ids. A
reference is checked on the graph that it is made on, unless its id is still
without a node; nodes are never changed, so what was checked once holds from
then on.
-/

namespace ParticleShading

namespace Graph

variable {g g' : Graph} {id : NodeId} {node : Node}

/-- An id that was issued and has no node. -/
def Pending (g : Graph) (id : NodeId) : Prop := g.contains id = true ∧ g.get? id = none

/-- The node behind a reference declares the output, with a type that an input accepts. -/
def Offers (g : Graph) (source : OutputRef) (type : ValueType) : Prop :=
  ∃ node output, g.get? source.node = some node ∧
    node.definition.findOutput? source.output = some output ∧ type.accepts output.type = true

/-- Slots stay, and nodes stay as they are. -/
structure Keeps (g g' : Graph) : Prop where
  size_le : g.size ≤ g'.size
  held : ∀ id node, g.get? id = some node → g'.get? id = some node

theorem Keeps.refl (g : Graph) : g.Keeps g := ⟨Nat.le_refl _, fun _ _ held => held⟩

theorem Keeps.trans {g'' : Graph} (h : g.Keeps g') (h' : g'.Keeps g'') : g.Keeps g'' :=
  ⟨Nat.le_trans h.size_le h'.size_le, fun id node held => h'.held id node (h.held id node held)⟩

theorem Keeps.issued (h : g.Keeps g') (issued : g.contains id = true) : g'.contains id = true :=
  contains_iff.mpr (Nat.lt_of_lt_of_le (contains_iff.mp issued) h.size_le)

theorem Keeps.offers {source : OutputRef} {type : ValueType} (h : g.Keeps g')
    (offers : g.Offers source type) : g'.Offers source type := by
  obtain ⟨node, output, held, found, accepted⟩ := offers
  exact ⟨node, output, h.held _ _ held, found, accepted⟩

theorem Grows.keeps (h : g.Grows g') : g.Keeps g' :=
  ⟨h.size_le, fun _ _ held => (h.get? (contains_of_get? held)).trans held⟩

theorem keeps_reserve (g : Graph) : g.Keeps ⟨g.nodes.reserve.2⟩ := by
  constructor
  · exact Nat.le_of_lt (Nat.lt_of_lt_of_eq (Nat.lt_succ_self _) (Arena.size_reserve g.nodes).symm)
  · intro id node held
    exact (Arena.get?_reserve g.nodes id).trans held

theorem keeps_define {nodes : Arena Node} (defined : g.nodes.define id node = .ok nodes) :
    g.Keeps ⟨nodes⟩ := by
  constructor
  · exact Nat.le_of_eq (Arena.size_define defined).symm
  · intro other older held
    exact Arena.held_define defined held

/-- Appended slots have nodes, so what is pending later was pending before. -/
theorem Grows.pending (h : g.Grows g') (pending : g'.Pending id) : g.Pending id := by
  induction h with
  | refl => exact pending
  | @append middle latest _ _ ih =>
    obtain ⟨issued, empty⟩ := pending
    rw [get?_append] at empty
    split at empty
    · cases empty
    · rename_i older
      have inside := contains_iff.mp issued
      rw [size_append] at inside
      exact ih ⟨contains_iff.mpr (by omega), empty⟩

/-- A node of a grown graph was there before, or it was checked on the way. -/
theorem Grows.checked_on (h : g.Grows g') (held : g'.get? id = some node) :
    g.get? id = some node ∨ ∃ on, g.Grows on ∧ on.Keeps g' ∧ node.Checked on := by
  induction h with
  | refl => exact Or.inl held
  | @append middle latest grown checked ih =>
    have kept := (Grows.refl.append checked).keeps
    rcases get?_append_cases held with ⟨_, rfl⟩ | older
    · exact Or.inr ⟨middle, grown, kept, checked⟩
    · rcases ih older with before | ⟨on, grown', kept', checked'⟩
      · exact Or.inl before
      · exact Or.inr ⟨on, grown', kept'.trans kept, checked'⟩

end Graph

/-- Every input has a binding, literals have the types of their inputs, and references lead to
issued ids. -/
structure Node.Bound (g : Graph) (node : Node) : Prop where
  complete : node.bindings.length = node.definition.inputs.length
  typed : ∀ input value, (input, .literal value) ∈ node.inputs → value.type = input.type
  issued : ∀ input source, node.Reads input source → g.contains source.node = true

namespace Node

variable {g g' : Graph} {node : Node} {input : Input Definition} {source : OutputRef}

theorem Checked.bound_on (checked : node.Checked g) : node.Bound g where
  complete := checked.complete
  typed input value mem := checked.bound input (.literal value) mem
  issued _ _ reads := checked.issued reads

theorem Bound.kept (bound : node.Bound g) (h : g.Keeps g') : node.Bound g' :=
  ⟨bound.complete, bound.typed, fun input source reads => h.issued (bound.issued input source reads)⟩

/-- A checked reference is pending or offers what its input asks for. -/
theorem Checked.offers (checked : node.Checked g) (reads : node.Reads input source)
    (made : ¬ g.Pending source.node) : g.Offers source input.type := by
  have fits : g.checkOutput node.name input.name input.type source = .ok () :=
    checked.bound input (.output source) reads
  cases held : g.get? source.node with
  | none => exact absurd ⟨checked.issued reads, held⟩ made
  | some fed =>
    obtain ⟨output, found, accepted⟩ := (Graph.checkOutput_eq_ok_iff held).mp fits
    exact ⟨fed, output, held, found, accepted⟩

end Node

namespace Construction

variable {c next : Construction} {call : GraphCall} {id : NodeId} {node : Node}

theorem Move.keeps (h : c.Move call next) : c.graph.Keeps next.graph := by
  cases h with
  | reserve => exact Graph.keeps_reserve c.graph
  | grow _ grown => exact grown.keeps
  | fill _ _ grown _ filled => exact grown.keeps.trans (Graph.keeps_define filled)

/-- A call checks the nodes that it makes on a graph that has only grown since the call began. -/
theorem Move.checked_on (h : c.Move call next) (held : next.graph.get? id = some node) :
    c.graph.get? id = some node ∨
      ∃ on, c.graph.Grows on ∧ on.Keeps next.graph ∧ node.Checked on := by
  cases h with
  | reserve => exact Or.inl ((Arena.get?_reserve c.graph.nodes id).symm.trans held)
  | grow _ grown => exact grown.checked_on held
  | @fill _ _ slot g _ nodes _ _ grown checked filled =>
    have held' : nodes.get? id = some node := held
    have kept := Graph.keeps_define filled
    rw [Arena.get?_define filled] at held'
    split at held'
    · cases held'
      exact Or.inr ⟨g, grown, kept, checked⟩
    · rcases grown.checked_on held' with before | ⟨on, grown', kept', checked'⟩
      · exact Or.inl before
      · exact Or.inr ⟨on, grown', kept'.trans kept, checked'⟩

theorem run_append (calls later : List GraphCall) :
    run (calls ++ later) = later.foldl step (run calls) :=
  List.foldl_append

theorem keeps_foldl (c : Construction) (calls : List GraphCall) :
    c.graph.Keeps (calls.foldl step c).graph := by
  induction calls generalizing c with
  | nil => exact .refl _
  | cons call calls ih => exact (move_step c call).keeps.trans (ih (c.step call))

theorem keeps_run (calls later : List GraphCall) :
    (run calls).graph.Keeps (run (calls ++ later)).graph := by
  rw [run_append]
  exact keeps_foldl (run calls) later

/-- The call after `before` gives an id its node. -/
def Makes (before : List GraphCall) (call : GraphCall) (id : NodeId) (node : Node) : Prop :=
  (run before).graph.get? id = none ∧ (run (before ++ [call])).graph.get? id = some node

theorem Makes.checked_on {before : List GraphCall} (made : Makes before call id node) :
    ∃ on, (run before).graph.Grows on ∧ on.Keeps (run (before ++ [call])).graph ∧
      node.Checked on := by
  obtain ⟨empty, held⟩ := made
  rw [run_append] at held ⊢
  rcases (move_step (run before) call).checked_on held with old | checked
  · exact absurd (empty.symm.trans old) (by simp)
  · exact checked

theorem split_append (before later : List GraphCall) (call : GraphCall) :
    before ++ call :: later = before ++ [call] ++ later := by simp

/-- Every node was made by one of the calls. -/
theorem exists_makes {calls : List GraphCall} (held : (run calls).graph.get? id = some node) :
    ∃ before call later, calls = before ++ call :: later ∧ Makes before call id node := by
  induction calls using List.reverseRecOn with
  | nil =>
    have inside : id.toNat < 0 := Graph.contains_iff.mp (Graph.contains_of_get? held)
    omega
  | append_singleton calls call ih =>
    cases old : (run calls).graph.get? id with
    | none => exact ⟨calls, call, [], rfl, old, held⟩
    | some other =>
      have kept := (keeps_run calls [call]).held id other old
      obtain rfl : other = node := Option.some.inj (kept.symm.trans held)
      obtain ⟨before, maker, later, rfl, made⟩ := ih old
      exact ⟨before, maker, later ++ [call], by simp, made⟩

theorem bound_run {calls : List GraphCall} (held : (run calls).graph.get? id = some node) :
    node.Bound (run calls).graph := by
  obtain ⟨before, call, later, rfl, made⟩ := exists_makes held
  obtain ⟨on, _, kept, checked⟩ := made.checked_on
  rw [split_append]
  exact checked.bound_on.kept (kept.trans (keeps_run _ later))

/-- In every graph that calls leave behind, each node has one binding per input, its literals have
the declared types and its references lead to issued ids. Each node was made by a call; from then
on it stays, and its references offer what their inputs ask for, except those to ids that were
without a node when the call was made. -/
theorem bindings_kept :
    (∀ calls id node, (run calls).graph.get? id = some node →
      node.bindings.length = node.definition.inputs.length ∧
      (∀ input value, (input, .literal value) ∈ node.inputs → value.type = input.type) ∧
      (∀ input source, node.Reads input source →
        (run calls).graph.contains source.node = true) ∧
      ∃ before call later, calls = before ++ call :: later ∧ Makes before call id node) ∧
    ∀ before call later id node, Makes before call id node →
      (run (before ++ call :: later)).graph.get? id = some node ∧
      ∀ input source, node.Reads input source → ¬ (run before).graph.Pending source.node →
        (run (before ++ call :: later)).graph.Offers source input.type := by
  constructor
  · intro calls id node held
    have bound := bound_run held
    exact ⟨bound.complete, bound.typed, bound.issued, exists_makes held⟩
  · intro before call later id node made
    obtain ⟨on, grown, kept, checked⟩ := made.checked_on
    rw [split_append]
    have later_kept := keeps_run (before ++ [call]) later
    refine ⟨later_kept.held id node made.2, ?_⟩
    intro input source reads settled
    have offers := checked.offers reads fun pending => settled (grown.pending pending)
    exact (kept.trans later_kept).offers offers

/-- A node reads a position and a reserved id, and then the id is filled with a node that does not
fit. -/
def misfit : List GraphCall :=
  [.reserve, .insert Library.vertexPosition [],
    .insert (Library.scale .vec3) [("a", .node ⟨1⟩), ("factor", .node ⟨0⟩)],
    .define Library.uv [] ⟨0⟩]

theorem run_misfit : (run misfit).graph =
    ⟨⟨#[some ⟨Library.uv, []⟩, some ⟨Library.vertexPosition, []⟩,
      some ⟨Library.scale .vec3, [.node ⟨1⟩, .node ⟨0⟩]⟩]⟩⟩ := rfl

/-- The position is there as it was checked; the other reference was not checked and does not fit. -/
theorem bindings_kept_misfit :
    ∃ node, Makes (misfit.take 2) (.insert (Library.scale .vec3)
        [("a", .node ⟨1⟩), ("factor", .node ⟨0⟩)]) ⟨2⟩ node ∧
      (run misfit).graph.get? ⟨2⟩ = some node ∧
      node.bindings.length = node.definition.inputs.length ∧
      (run misfit).graph.Offers ⟨⟨1⟩, "value"⟩ .vec3 ∧
      ¬ (run misfit).graph.Offers ⟨⟨0⟩, "value"⟩ .float := by
  have before : (run (misfit.take 2)).graph = ⟨⟨#[none, some ⟨Library.vertexPosition, []⟩]⟩⟩ := rfl
  have made : Makes (misfit.take 2) (.insert (Library.scale .vec3)
      [("a", .node ⟨1⟩), ("factor", .node ⟨0⟩)]) ⟨2⟩
      ⟨Library.scale .vec3, [.node ⟨1⟩, .node ⟨0⟩]⟩ := by
    refine ⟨?_, ?_⟩
    · rw [before]
      rfl
    · rfl
  obtain ⟨nodes, references⟩ := bindings_kept
  obtain ⟨held, offers⟩ := references (misfit.take 2) _ [.define Library.uv [] ⟨0⟩] _ _ made
  have settled : ¬ (run (misfit.take 2)).graph.Pending ⟨1⟩ := by
    rw [before]
    rintro ⟨_, empty⟩
    cases empty
  refine ⟨_, made, held, (nodes misfit _ _ held).1, ?_, ?_⟩
  · exact offers _ ⟨⟨1⟩, "value"⟩ List.mem_cons_self settled
  · rintro ⟨fed, output, slot, found, accepted⟩
    rw [run_misfit] at slot
    cases slot
    cases found
    cases accepted

end Construction

end ParticleShading
