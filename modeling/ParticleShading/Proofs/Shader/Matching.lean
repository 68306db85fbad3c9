import ParticleShading.Proofs.Shader.Fallbacks
import ParticleShading.Proofs.Shader.Isomorphism

/-!
# Matched graphs

A one-to-one relation between the ids of two graphs matches them if related ids
have nodes of one definition with related references. Below related roots
matched graphs are isomorphic. Trees of one definition that are laid out from
two slots match slot by slot, whatever else is in the graphs.
-/

namespace ParticleShading

variable {M M' : NodeId → NodeId → Prop}

/-- Bindings agree up to related ids. -/
inductive Binding.Matches (M : NodeId → NodeId → Prop) : Binding → Binding → Prop where
  | literal {value : Value} : Matches M (.literal value) (.literal value)
  | expr {source : String} : Matches M (.expr source) (.expr source)
  | output {id id' : NodeId} {output : String} (related : M id id') :
    Matches M (.output ⟨id, output⟩) (.output ⟨id', output⟩)

/-- Nodes of one definition whose bindings agree up to related ids. -/
structure Node.Matches (M : NodeId → NodeId → Prop) (node node' : Node) : Prop where
  definition : node'.definition = node.definition
  bindings : List.Forall₂ (Binding.Matches M) node.bindings node'.bindings

/-- A one-to-one relation between ids that nodes respect. -/
structure Graph.Matching (g g' : Graph) (M : NodeId → NodeId → Prop) : Prop where
  one_to_one : ∀ id id' other other', M id id' → M other other' → (id = other ↔ id' = other')
  node : ∀ id id', M id id' →
    ∃ node node', g.get? id = some node ∧ g'.get? id' = some node' ∧ node.Matches M node'

theorem Binding.Matches.flip {binding binding' : Binding} (h : binding.Matches M binding') :
    binding'.Matches (fun id' id => M id id') binding := by
  cases h with
  | literal => exact .literal
  | expr => exact .expr
  | output related => exact .output related

theorem Binding.Matches.mono {binding binding' : Binding} (more : ∀ id id', M id id' → M' id id')
    (h : binding.Matches M binding') : binding.Matches M' binding' := by
  cases h with
  | literal => exact .literal
  | expr => exact .expr
  | output related => exact .output (more _ _ related)

/-- A function that follows the relation renames one binding to the other. -/
theorem Binding.Matches.rename_eq {f : NodeId → NodeId} {binding binding' : Binding}
    (follows : ∀ id id', M id id' → f id = id') (h : binding.Matches M binding') :
    binding.rename f = binding' := by
  cases h with
  | literal => rfl
  | expr => rfl
  | output related => rw [rename, OutputRef.rename, follows _ _ related]

namespace Node.Matches

variable {node node' : Node} {input : Input Definition} {source : OutputRef}

theorem flip (h : node.Matches M node') : node'.Matches (fun id' id => M id id') node :=
  ⟨h.definition.symm, (h.bindings.imp fun _ _ matched => matched.flip).flip⟩

theorem mono (more : ∀ id id', M id id' → M' id id') (h : node.Matches M node') :
    node.Matches M' node' :=
  ⟨h.definition, h.bindings.imp fun _ _ matched => matched.mono more⟩

theorem rename_eq {f : NodeId → NodeId} (follows : ∀ id id', M id id' → f id = id')
    (h : node.Matches M node') : node.rename f = node' := by
  have bindings : node.bindings.map (Binding.rename f) = node'.bindings := by
    rw [← List.forall₂_eq_eq_eq, List.forall₂_map_left_iff]
    exact h.bindings.imp fun _ _ matched => matched.rename_eq follows
  obtain ⟨definition, _⟩ := node
  obtain ⟨_, _⟩ := node'
  cases h.definition
  exact congrArg (Node.mk definition) bindings

/-- What one node reads the other reads from a related id. -/
theorem reads (h : node.Matches M node') (reads : node.Reads input source) :
    ∃ id', M source.node id' ∧ node'.Reads input ⟨id', source.output⟩ := by
  obtain ⟨k, at_k⟩ := List.getElem?_of_mem reads
  obtain ⟨input_k, binding_k⟩ := List.getElem?_zip_eq_some.mp at_k
  obtain ⟨inside, binding⟩ := List.getElem?_eq_some_iff.mp binding_k
  have inside' : k < node'.bindings.length := h.bindings.length_eq ▸ inside
  have matched := h.bindings.get inside inside'
  rw [List.get_eq_getElem, List.get_eq_getElem, binding] at matched
  rw [← h.definition] at input_k
  generalize binding' : node'.bindings[k] = other at matched
  cases matched with
  | @output _ id' _ related =>
    refine ⟨id', related, List.mem_of_getElem? (i := k) ?_⟩
    exact List.getElem?_zip_eq_some.mpr
      ⟨input_k, (List.getElem?_eq_getElem inside').trans (congrArg some binding')⟩

end Node.Matches

namespace Graph.Matching

variable {g g' : Graph} {root root' id : NodeId}

theorem flip (m : g.Matching g' M) : g'.Matching g fun id' id => M id id' where
  one_to_one id' id other' other h h' := (m.one_to_one id id' other other' h h').symm
  node id' id related := by
    obtain ⟨node, node', held, held', matched⟩ := m.node id id' related
    exact ⟨node', node, held', held, matched.flip⟩

/-- What a root reaches is related to what a related root reaches. -/
theorem reaches (m : g.Matching g' M) (roots : M root root') (reached : g.Reaches root id) :
    ∃ id', M id id' ∧ g'.Reaches root' id' := by
  induction reached with
  | root => exact ⟨root', roots, .root⟩
  | feed _ feeds ih =>
    obtain ⟨target', related, reached'⟩ := ih
    obtain ⟨reader, held, input, output, reads⟩ := feeds
    obtain ⟨node, node', held₁, held', matched⟩ := m.node _ _ related
    cases held₁.symm.trans held
    obtain ⟨source', related', reads'⟩ := matched.reads reads
    exact ⟨source', related', reached'.feed ⟨node', held', input, output, reads'⟩⟩

/-- Below related roots matched graphs are isomorphic. -/
theorem exists_isomorphism (m : g.Matching g' M) (roots : M root root') :
    ∃ f, g.Isomorphism g' root root' f := by
  classical
  let f (id : NodeId) : NodeId := if h : ∃ id', M id id' then h.choose else id
  have follows (id id' : NodeId) (related : M id id') : f id = id' := by
    have some_related : ∃ id', M id id' := ⟨id', related⟩
    have chosen : f id = some_related.choose := dif_pos some_related
    rw [chosen]
    exact (m.one_to_one id _ id id' some_related.choose_spec related).mp rfl
  refine ⟨f, ⟨?_, ?_, ?_⟩, follows _ _ roots, ?_, ?_⟩
  · intro id reached
    obtain ⟨id', related, reached'⟩ := m.reaches roots reached
    exact (follows id id' related).symm ▸ reached'
  · intro id reached other reached' same
    obtain ⟨id', related, _⟩ := m.reaches roots reached
    obtain ⟨other', related', _⟩ := m.reaches roots reached'
    rw [follows id id' related, follows other other' related'] at same
    exact (m.one_to_one id id' other other' related related').mpr same
  · intro id' reached'
    obtain ⟨id, related, reached⟩ := m.flip.reaches roots reached'
    exact ⟨id, reached, follows id id' related⟩
  · intro id reached
    obtain ⟨id', related, _⟩ := m.reaches roots reached
    obtain ⟨node, node', held, held', _⟩ := m.node id id' related
    rw [follows id id' related, contains_of_get? held, contains_of_get? held']
  · intro id reached
    obtain ⟨id', related, _⟩ := m.reaches roots reached
    obtain ⟨node, node', held, held', matched⟩ := m.node id id' related
    rw [follows id id' related, held, held', Option.map_some, matched.rename_eq follows]

/-- Below related roots matched graphs compile to the same, or neither compiles. -/
theorem compile (m : g.Matching g' M) (roots : M root root') (config : CompilerConfig) :
    ((∃ shader, g.compile config root = .ok shader) ↔
      ∃ shader', g'.compile config root' = .ok shader') ∧
    ∀ shader shader', g.compile config root = .ok shader →
      g'.compile config root' = .ok shader' → shader'.written = shader.written := by
  obtain ⟨f, iso⟩ := m.exists_isomorphism roots
  have same := iso.compile config
  constructor
  · cases compiled : g.compile config root <;> cases compiled' : g'.compile config root' <;>
      simp [compiled, compiled', Except.toOption] at same ⊢
  · intro shader shader' compiled compiled'
    rw [compiled, compiled'] at same
    exact Option.some.inj same

end Graph.Matching

/-! ## Layouts from two slots -/

namespace Definition

variable {start start' : Nat} {inputs : List (Input Definition)}
variable {given given' : List (Option Binding)}

/-- Slots of two rows are related one by one. -/
def Aligned (M : NodeId → NodeId → Prop) (start start' length : Nat) : Prop :=
  ∀ j < length, M (.slot (start + j)) (.slot (start' + j))

theorem Aligned.first {first later : Nat} (h : Aligned M start start' (first + later)) :
    Aligned M start start' first :=
  fun j inside => h j (by omega)

theorem Aligned.later {first first' later : Nat} (h : Aligned M start start' (first + later))
    (same : first = first') : Aligned M (start + first) (start' + first') later := by
  subst same
  intro j inside
  rw [Nat.add_assoc, Nat.add_assoc]
  exact h (first + j) (by omega)

/-- Trees of a definition match wherever their slots are related. -/
def TreesMatch (M : NodeId → NodeId → Prop) (d : Definition) : Prop :=
  ∀ start start', Aligned M start start' (d.tree start).length →
    List.Forall₂ (Node.Matches M) (d.tree start) (d.tree start')

theorem supplyOne_matches {input : Input Definition} {given given' : Option Binding}
    (nested : ∀ d, input.fallback = some (.node d) → d.TreesMatch M)
    (bound : Option.Rel (Binding.Matches M) given given')
    (aligned : Aligned M start start' (supplyOne start input given).1.length) :
    List.Forall₂ (Node.Matches M) (supplyOne start input given).1
        (supplyOne start' input given').1 ∧
      (supplyOne start input given).2.Matches M (supplyOne start' input given').2 := by
  cases bound with
  | some matched => exact ⟨.nil, matched⟩
  | none =>
    obtain ⟨name, type, fallback⟩ := input
    match fallback with
    | none => exact ⟨.nil, .literal⟩
    | some (.literal value) => exact ⟨.nil, .literal⟩
    | some (.expr source) => exact ⟨.nil, .expr⟩
    | some (.node d) =>
      have trees := nested d rfl start start' aligned
      refine ⟨trees, ?_⟩
      have positive := length_tree_pos start d
      have last := aligned ((d.tree start).length - 1) (Nat.sub_lt positive Nat.one_pos)
      rw [← Nat.add_sub_assoc positive, ← Nat.add_sub_assoc positive] at last
      have related : M (.slot (start + (d.tree start).length - 1))
          (.slot (start' + (d.tree start').length - 1)) := trees.length_eq ▸ last
      exact .output related

theorem supply_matches_of_nested
    (nested : ∀ input ∈ inputs, ∀ d, input.fallback = some (.node d) → d.TreesMatch M)
    (bound : List.Forall₂ (Option.Rel (Binding.Matches M)) given given')
    (aligned : Aligned M start start' (supply start inputs given).1.length) :
    List.Forall₂ (Node.Matches M) (supply start inputs given).1 (supply start' inputs given').1 ∧
      List.Forall₂ (Binding.Matches M) (supply start inputs given).2
        (supply start' inputs given').2 := by
  induction inputs generalizing start start' given given' with
  | nil =>
    rw [supply_nil, supply_nil]
    exact ⟨.nil, .nil⟩
  | cons input rest ih =>
    have here : Option.Rel (Binding.Matches M) given.head?.join given'.head?.join ∧
        List.Forall₂ (Option.Rel (Binding.Matches M)) given.tail given'.tail := by
      cases bound with
      | nil => exact ⟨.none, .nil⟩
      | cons first later => exact ⟨first, later⟩
    rw [supply_cons, supply_cons]
    rw [supply_cons, List.length_append] at aligned
    obtain ⟨nodes, binding⟩ :=
      supplyOne_matches (nested input List.mem_cons_self) here.1 aligned.first
    obtain ⟨nodes', bindings⟩ := ih (fun input mem => nested input (List.mem_cons_of_mem _ mem))
      here.2 (aligned.later nodes.length_eq)
    exact ⟨List.rel_append nodes nodes', .cons binding bindings⟩

theorem treesMatch (M : NodeId → NodeId → Prop) (d : Definition) : d.TreesMatch M := by
  induction d using nested_induction with
  | step d nested =>
    intro start start' aligned
    rw [tree_eq, List.length_append] at aligned
    obtain ⟨nodes, bindings⟩ := supply_matches_of_nested nested .nil aligned.first
    rw [tree_eq, tree_eq]
    exact List.rel_append nodes (.cons ⟨rfl, bindings⟩ .nil)

/-- Two layouts of the same inputs match, if what is bound and the slots do. -/
theorem supply_matches (bound : List.Forall₂ (Option.Rel (Binding.Matches M)) given given')
    (aligned : Aligned M start start' (supply start inputs given).1.length) :
    List.Forall₂ (Node.Matches M) (supply start inputs given).1 (supply start' inputs given').1 ∧
      List.Forall₂ (Binding.Matches M) (supply start inputs given).2
        (supply start' inputs given').2 :=
  supply_matches_of_nested (fun _ _ d _ => treesMatch M d) bound aligned

end Definition

end ParticleShading
