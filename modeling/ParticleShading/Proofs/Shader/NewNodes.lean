import ParticleShading.Proofs.Shader.Insertion

/-!
# New nodes

What a node that was just inserted takes and reads. The input of a name is fed by
what was bound last under the name. Whatever an insertion adds reads what it adds
itself, and only the node at its end reads what was bound: a default tree keeps to
its own slots.
-/

namespace ParticleShading

/-! ## What a new node takes -/

/-- What is offered to the input of a name, as the type of the input takes it, feeds the input. -/
def Node.Takes (node : Node) (name : String) (binding : Binding) : Prop :=
  ∃ input taken, node.definition.findInput? name = some input ∧
    binding.coerce? input.type = some taken ∧ node.binding? name = some taken

theorem Node.reads_of_binding? {node : Node} {name : String} {source : OutputRef}
    (fed : node.binding? name = some (.output source)) : ∃ input, node.Reads input source := by
  obtain ⟨⟨input, binding⟩, found, rfl⟩ := Option.map_eq_some_iff.mp fed
  exact ⟨input, List.mem_of_find?_eq_some found⟩

/-- Only inputs are bound. -/
theorem Draft.exists_findIdx? {g : Graph} {draft next : Draft}
    {bindings : List (String × Binding)} (h : draft.bindAll g bindings = .ok next) {name : String}
    (listed : name ∈ bindings.map (·.1)) :
    ∃ index, draft.definition.inputs.findIdx? (·.name = name) = some index := by
  induction bindings generalizing draft with
  | nil => cases listed
  | cons first rest ih =>
    obtain ⟨bound, head, tail⟩ := bind_eq_ok_iff.mp h
    obtain ⟨index, _, _, at_index, _, _, _, rfl⟩ := bind_ok_iff.mp head
    rcases List.mem_cons.mp listed with rfl | listed
    · exact ⟨index, at_index⟩
    · simpa using ih tail listed

/-- What was bound last under a name feeds the input of the name. -/
theorem Definition.Adds.takes {d : Definition} {bindings : List (String × Binding)} {start : Nat}
    {fresh : List Node} {node : Node} (adds : d.Adds (d.lastBound bindings) start fresh node)
    {name : String} {index : Nat} (at_index : d.inputs.findIdx? (·.name = name) = some index)
    {binding : Binding} (last : bindings.reverse.lookup name = some binding) :
    node.Takes name binding := by
  obtain ⟨inside, named, _⟩ := List.findIdx?_eq_some_iff_getElem.mp at_index
  have here : d.inputs[index]? = some d.inputs[index] := List.getElem?_eq_getElem inside
  have named : d.inputs[index].name = name := by simpa using named
  obtain ⟨taken, bound, fed⟩ := adds.fed index _ here
  rw [getElem?_lastBound here, named, if_pos at_index, last] at fed
  have complete : node.bindings.length = node.definition.inputs.length := by
    rw [adds.complete, adds.definition]
  cases fed with
  | bound coerced =>
    refine ⟨_, taken, ?_, coerced, ?_⟩
    · rw [adds.definition]
      exact findInput?_eq_some at_index here
    · rw [Node.binding?_eq complete (by rw [adds.definition]; exact at_index)]
      exact bound

namespace Build

variable {g g' : Graph}

theorem node_adds {d : Definition} {bindings : List (String × Binding)} {id : NodeId}
    (ran : (node d bindings).on g = (.ok id, g')) (small : g'.size ≤ UInt32.size) :
    ∃ fresh made, d.Adds (d.lastBound bindings) g.size fresh made ∧ g.Appends fresh made id g' ∧
      ∀ name ∈ bindings.map (·.1), ∃ index, d.inputs.findIdx? (·.name = name) = some index := by
  rcases draft_bind_on Draft.insert with ⟨e, _, refused⟩ | ⟨draft, all, ready, drafted⟩
  · cases ran.symm.trans refused
  have inserts : draft.insert.on g = (.ok id, g') := drafted.symm.trans ran
  rcases ready.insert_on (by rwa [inserts]) with ⟨e, _, refused⟩ | ⟨passed, inserted⟩
  · cases inserts.symm.trans refused
  cases inserts.symm.trans inserted
  exact ⟨_, _, Draft.adds_of_bindAll all passed, Graph.appends_appendAll small,
    fun name listed => Draft.exists_findIdx? all listed⟩

/-- A new node stands in a new slot and takes what was listed last under each name. -/
theorem takes_of_node {d : Definition} {bindings : List (String × Binding)} {id : NodeId}
    (ran : (node d bindings).on g = (.ok id, g')) (small : g'.size ≤ UInt32.size) :
    g.contains id = false ∧ ∃ made, g'.get? id = some made ∧ made.definition = d ∧
      ∀ name binding, bindings.reverse.lookup name = some binding → made.Takes name binding := by
  obtain ⟨fresh, made, adds, appends, declared⟩ := node_adds ran small
  refine ⟨?_, made, appends.held, adds.definition, ?_⟩
  · have last := appends.last
    rw [← Bool.not_eq_true, Graph.contains_iff]
    omega
  · intro name binding last
    have listed : name ∈ bindings.map (·.1) := by
      have : name ∈ bindings.reverse.map (·.1) := by
        rw [← GraphDescription.isSome_lookup_iff, last]
        rfl
      simpa using this
    obtain ⟨index, at_index⟩ := declared name listed
    exact adds.takes at_index last

end Build

/-! ## What new nodes read -/

theorem Binding.eq_of_coerce?_output {type : ValueType} {binding : Binding} {source : OutputRef}
    (h : binding.coerce? type = some (.output source)) : binding = .output source := by
  cases binding with
  | literal value => simp [coerce?] at h
  | expr other => cases h
  | output other =>
    cases h
    rfl

namespace Definition

/-- Nodes that read no slot below a bound. -/
def ReadFrom (start : Nat) (nodes : List Node) : Prop :=
  ∀ made ∈ nodes, ∀ source, .output source ∈ made.bindings → start ≤ source.node.toNat

variable {d : Definition} {start : Nat} {raw : List (Option Binding)} {fresh : List Node}
variable {node : Node} {source : OutputRef}

/-- A new node reads the roots of its default trees and what was bound to its inputs. -/
theorem Adds.reads (adds : d.Adds raw start fresh node) (small : start + fresh.length ≤ UInt32.size)
    (fed : .output source ∈ node.bindings) :
    start ≤ source.node.toNat ∨ ∃ (k : Nat) (input : Input Definition),
      d.inputs[k]? = some input ∧ raw[k]?.join = some (.output source) := by
  obtain ⟨k, at_k⟩ := List.getElem?_of_mem fed
  obtain ⟨inside, _⟩ := List.getElem?_eq_some_iff.mp at_k
  rw [adds.complete] at inside
  have here := List.getElem?_eq_getElem inside
  obtain ⟨binding, bound, feeds⟩ := adds.fed k _ here
  obtain rfl : binding = .output source := Option.some.inj (bound.symm.trans at_k)
  cases offered : raw[k]?.join with
  | some binding =>
    rw [offered] at feeds
    cases feeds with
    | bound coerced =>
      rw [Binding.eq_of_coerce?_output coerced] at offered
      exact Or.inr ⟨k, _, here, offered⟩
  | none =>
    rw [offered] at feeds
    cases feeds with
    | @node inner fallback =>
      obtain ⟨later, split⟩ := exists_fillers_append here offered fallback
      have size := adds.size
      rw [split, totalSize_append, totalSize, treeSize_eq] at size
      left
      rw [treeSize_eq, Handle.toNat_slot (by omega)]
      omega

theorem readFrom_plant_of_forall {ds : List Definition}
    (each : ∀ d ∈ ds, ∀ start, start + d.treeSize ≤ UInt32.size → ReadFrom start (d.tree start))
    (small : start + totalSize ds ≤ UInt32.size) : ReadFrom start (plant start ds) := by
  induction ds generalizing start with
  | nil => exact fun made mem => nomatch mem
  | cons d rest ih =>
    rw [List.forall_mem_cons] at each
    rw [totalSize] at small
    rw [plant, length_tree]
    intro made mem source fed
    rcases List.mem_append.mp mem with first | later
    · exact each.1 start (by omega) made first source fed
    · have := ih each.2 (by omega) made later source fed
      omega

theorem readFrom_tree (passed : checkOpen d.name d.inputs = .ok ())
    (small : start + d.treeSize ≤ UInt32.size) : ReadFrom start (d.tree start) := by
  induction d using nested_induction generalizing start with
  | step d nested =>
    obtain ⟨fresh, node, split, adds⟩ := tree_adds passed start
    rw [treeSize_eq, ← adds.size] at small
    have older : ReadFrom start fresh := by
      rw [adds.trees]
      refine readFrom_plant_of_forall (fun inner mem start small => ?_) (by rw [← adds.size]; omega)
      obtain ⟨k, input, at_k, _, fallback⟩ := mem_fillers mem
      exact nested input (List.mem_of_getElem? at_k) inner fallback (adds.nested inner mem) small
    rw [split]
    intro made mem source fed
    rcases List.mem_append.mp mem with first | last
    · exact older made first source fed
    · obtain rfl := List.mem_singleton.mp last
      rcases adds.reads (by omega) fed with above | ⟨k, _, _, offered⟩
      · exact above
      · simp at offered

theorem Adds.readFrom (adds : d.Adds raw start fresh node)
    (small : start + fresh.length ≤ UInt32.size) : ReadFrom start fresh := by
  rw [adds.trees]
  exact readFrom_plant_of_forall
    (fun inner mem start small => readFrom_tree (adds.nested inner mem) small)
    (by rwa [← adds.size])

end Definition

/-- What is new once a node has been inserted reads what is new, or what the node was bound to. -/
theorem Build.reads_of_node {g g' : Graph} {d : Definition} {bindings : List (String × Binding)}
    {id other : NodeId} {made : Node} {input : Input Definition} {source : OutputRef}
    (ran : (node d bindings).on g = (.ok id, g')) (small : g'.size ≤ UInt32.size)
    (new : g.contains other = false) (held : g'.get? other = some made)
    (reads : made.Reads input source) :
    g.contains source.node = false ∨
      ∃ name, bindings.reverse.lookup name = some (.output source) := by
  obtain ⟨fresh, node, adds, appends, _⟩ := node_adds ran small
  have size := appends.size
  have fed : .output source ∈ made.bindings := (List.of_mem_zip reads).2
  have above : g.contains source.node = false ↔ g.size ≤ source.node.toNat := by
    rw [← Bool.not_eq_true, Graph.contains_iff, Nat.not_lt]
  have outside : ¬ other.toNat < g.size := by
    rw [← Graph.contains_iff, new]
    decide
  rw [above]
  rw [appends.appended, Graph.get?_appendAll, if_neg outside] at held
  rcases List.mem_append.mp (List.mem_of_getElem? held) with tree | last
  · exact Or.inl (adds.readFrom (by omega) made tree source fed)
  · obtain rfl := List.mem_singleton.mp last
    rcases adds.reads (by omega) fed with new | ⟨k, slot, here, offered⟩
    · exact Or.inl new
    · rw [Definition.getElem?_lastBound here] at offered
      split at offered
      · exact Or.inr ⟨slot.name, offered⟩
      · cases offered

end ParticleShading
