import ParticleShading.Proofs.Shader.Acceptance
import ParticleShading.Proofs.Shader.Layouts

/-!
# Declarations in any order

A reference to a key that was made is checked at once, a reference to a later
key when the graph is compiled. `Fitting` says what both checks ask for without
an order. A compilation checks it for all keys that the root uses; where it
holds, the nodes can be made in any order. So if the root uses every key, one
order is built and compiled exactly if any other is.
-/

namespace ParticleShading

/-! ## References -/

/-- What is listed for an input under its only name counts. -/
theorem NodeDescription.listed_eq_some {n : NodeDescription} {input : String}
    {description : BindingDescription} (names : (n.inputs.map (·.1)).Nodup)
    (mem : (input, description) ∈ n.inputs) : n.listed input = some description := by
  obtain ⟨before, after, split⟩ := List.append_of_mem mem
  rw [split, List.map_append, List.map_cons, List.nodup_middle, List.nodup_cons] at names
  rw [listed, split]
  simp only [List.reverse_append, List.reverse_cons, List.append_assoc, List.lookup_append]
  have absent : after.reverse.lookup input = none := by
    rw [List.lookup_eq_none_iff]
    intro entry listed
    rw [bne_iff_ne]
    rintro rfl
    exact names.1 (List.mem_append_right _
      (List.mem_map_of_mem (f := (·.1)) (List.mem_reverse.mp listed)))
  simp [absent]

/-- The node of a key reads what its references name. -/
theorem NodeDescription.Stands.reads {registry : Registry} {ids : KeyTable} {n : NodeDescription}
    {g : Graph} {node : Node} {input key output : String} (stands : n.Stands registry ids g node)
    (names : (n.inputs.map (·.1)).Nodup) (mem : (input, .node key output) ∈ n.inputs) :
    ∃ slot id, node.definition.findInput? input = some slot ∧ ids.lookup key = some id ∧
      node.Reads slot ⟨id, output⟩ := by
  obtain ⟨slot, bound, found, gives, binds⟩ :=
    stands.listed input _ (listed_eq_some names mem)
  obtain ⟨id, known, rfl⟩ := BindingDescription.gives_node_iff.mp gives
  refine ⟨slot, id, found, known, ?_⟩
  rw [Definition.findInput?, List.find?_eq_bind_findIdx?_getElem?, Option.bind_eq_some_iff] at found
  obtain ⟨index, at_index, here⟩ := found
  rw [Node.binding?_eq stands.complete at_index] at binds
  exact List.mem_of_getElem? (List.getElem?_zip_eq_some.mpr ⟨here, binds⟩)

namespace GraphDescription

/-- Each reference leads to a declared output, of a type that the input accepts. -/
def Fitting (registry : Registry) (nodes : List NodeDescription) : Prop :=
  ∀ n ∈ nodes, ∀ input key output, (input, .node key output) ∈ n.inputs →
    ∀ factory, registry.find? n.factory = some factory →
      ∀ slot, factory.definition.findInput? input = some slot →
        ∀ m ∈ nodes, m.key = key → ∀ source, registry.find? m.factory = some source →
          ∃ found, source.definition.findOutput? output = some found ∧
            slot.type.accepts found.type = true

theorem Fitting.perm {registry : Registry} {nodes nodes' : List NodeDescription}
    (perm : nodes.Perm nodes') (fitting : Fitting registry nodes) : Fitting registry nodes' := by
  intro n mem input key output listed factory known slot found m mem'
  exact fitting n (perm.mem_iff.mpr mem) input key output listed factory known slot found m
    (perm.mem_iff.mpr mem')

/-- Keys that the root uses: its own and, through references, those of the nodes behind it. -/
inductive Uses (d : GraphDescription) : String → Prop where
  | root : d.Uses d.root
  | input {n : NodeDescription} {input key output : String} (used : d.Uses n.key)
      (declared : n ∈ d.nodes) (listed : (input, .node key output) ∈ n.inputs) : d.Uses key

variable {registry : Registry} {d d' : GraphDescription} {built : BuiltGraph} {g g' : Graph}
variable {key : String}

theorem Uses.perm (root : d'.root = d.root) (perm : d.nodes.Perm d'.nodes) (used : d.Uses key) :
    d'.Uses key := by
  induction used with
  | root => exact root ▸ .root
  | input _ declared listed ih => exact ih.input (perm.mem_iff.mp declared) listed

/-- The nodes of used keys are reached from the root. -/
theorem reaches_of_uses (h : (build registry d).on .empty = (.ok built, g))
    (names : ∀ n ∈ d.nodes, (n.inputs.map (·.1)).Nodup) (used : d.Uses key) :
    ∃ id, built.ids.lookup key = some id ∧ g.Reaches built.root id := by
  induction used with
  | root => exact ⟨built.root, (build_on_ok_iff.mp h).2.2.2, .root⟩
  | @input n input key output _ declared listed ih =>
    obtain ⟨target, reserved, reached⟩ := ih
    obtain ⟨node, stands⟩ := exists_stands h declared
    obtain ⟨id, reserved', held⟩ := stands.held
    cases reserved.symm.trans reserved'
    obtain ⟨slot, source, _, known, reads⟩ := stands.reads (names n declared) listed
    exact ⟨source, known, reached.feed ⟨node, held, slot, output, reads⟩⟩

/-- A compilation has checked the references of all used keys. -/
theorem fitting_of_compile (h : (build registry d).on .empty = (.ok built, g))
    (names : ∀ n ∈ d.nodes, (n.inputs.map (·.1)).Nodup) (used : ∀ n ∈ d.nodes, d.Uses n.key)
    {config : CompilerConfig} {shader : CompiledShader}
    (compiled : g.compile config built.root = .ok shader) : Fitting registry d.nodes := by
  rintro n mem input key output listed factory known slot found m mem' rfl source known'
  obtain ⟨node, stands⟩ := exists_stands h mem
  obtain ⟨fed, stands'⟩ := exists_stands h mem'
  obtain ⟨_, made, definition⟩ := stands.made
  cases made.symm.trans known
  obtain ⟨_, made', definition'⟩ := stands'.made
  cases made'.symm.trans known'
  obtain ⟨id, reserved, held⟩ := stands.held
  obtain ⟨id', reserved', feeds⟩ := stands'.held
  obtain ⟨slot', id₂, found', reserved₂, reads⟩ := stands.reads (names n mem) listed
  cases reserved'.symm.trans reserved₂
  rw [definition] at found'
  cases found.symm.trans found'
  obtain ⟨target, reserved₃, reached⟩ := reaches_of_uses h names (used n mem)
  cases reserved.symm.trans reserved₃
  have fits := (Graph.wellFormed_of_compile compiled).fits
  rw [← definition']
  exact fits id node reached held slot _ reads fed feeds

end GraphDescription

/-! ## Slots that a step leaves behind -/

namespace Draft

variable {draft : Draft} {g : Graph} {id : NodeId}

theorem Checked.size_le_define (checked : draft.Checked g) :
    g.size ≤ ((draft.define id).on g).2.size := by
  rcases checked.define id with
    ⟨error, g', grows, ran⟩ | ⟨g', node, nodes, _, _, grows, _, defined, ran⟩
  · rw [ran]
    exact grows.size_le
  · rw [ran]
    exact (grows.keeps.trans (Graph.keeps_define defined)).size_le

/-- An id is filled after the open inputs are. -/
theorem size_fillOpen_le (pending : g.Pending id)
    (supplied : Definition.checkOpen draft.definition.name draft.openInputs = .ok ()) :
    ((Definition.fillOpen draft.definition.name draft.definition.inputs draft.bindings).on g).2.size ≤
      ((draft.define id).on g).2.size := by
  rw [define_reserved pending.1 pending.2]
  have last (node : Node) (g' : Graph) : g'.size ≤ ((Build.define id node).on g').2.size := by
    rw [Build.on_define]
    cases defined : g'.nodes.define id node with
    | error e => exact Nat.le_refl _
    | ok nodes => exact (Graph.keeps_define defined).size_le
  refine Nat.le_trans ?_ (Build.size_le_bind fun node g' _ => last node g')
  rw [resolve, Build.on_bind, Build.on_check, supplied]
  exact Build.size_le_bind fun _ _ _ => Nat.le_refl _

end Draft

namespace GraphDescription

variable {registry : Registry} {ids : KeyTable} {n : NodeDescription} {g : Graph}
variable {nodes : List NodeDescription}

theorem defineNode_on {factory : Factory} {id : NodeId} {draft : Draft}
    (known : registry.find? n.factory = some factory) (reserved : ids.lookup n.key = some id)
    (bound : bindInputs ids g (.start factory.definition) n.inputs = .ok draft) :
    (defineNode registry ids n).on g = (discard (draft.define id)).on g := by
  rw [defineNode, known, reserved]
  dsimp only
  rw [Build.on_bind, Build.on_check, bound]

theorem size_le_defineNode : g.size ≤ ((defineNode registry ids n).on g).2.size := by
  cases known : registry.find? n.factory with
  | none =>
    rw [defineNode, known]
    exact Nat.le_refl _
  | some factory =>
    cases reserved : ids.lookup n.key with
    | none =>
      rw [defineNode, known, reserved]
      exact Nat.le_refl _
    | some id =>
      cases bound : bindInputs ids g (.start factory.definition) n.inputs with
      | error e =>
        rw [defineNode, known, reserved]
        dsimp only
        rw [Build.on_bind, Build.on_check, bound]
      | ok draft =>
        rw [defineNode_on known reserved bound, Build.on_discard]
        exact (checked_bindInputs (Draft.checked_start _) bound).size_le_define

theorem size_le_defineNodes : g.size ≤ ((defineNodes registry ids nodes).on g).2.size := by
  induction nodes generalizing g with
  | nil => exact Nat.le_refl _
  | cons n rest ih =>
    rw [defineNodes]
    exact Nat.le_trans size_le_defineNode (Build.size_le_bind fun _ _ _ => ih)

/-! ## Making a node in another order -/

variable {ids' : KeyTable} {before after : Graph}

/-- An input takes in any order what it takes in one, if its references pass their checks. -/
theorem fits_again {d : Definition} {input : String} {description : BindingDescription}
    (fits : description.Fits ids before d input)
    (checked : ∀ key output, description = .node key output → ∃ id, ids'.lookup key = some id ∧
      ∀ slot, d.findInput? input = some slot →
        g.checkOutput d.name slot.name slot.type ⟨id, output⟩ = .ok ()) :
    description.Fits ids' g d input := by
  obtain ⟨index, slot, bound, at_index, here, gives, passed⟩ := fits
  rcases gives.key_or_constant with ⟨key, output, rfl⟩ | ⟨constant, plain⟩
  · obtain ⟨id, known, checks⟩ := checked key output rfl
    exact ⟨index, slot, .output ⟨id, output⟩, at_index, here,
      BindingDescription.gives_node_iff.mpr ⟨id, known, rfl⟩,
      checks slot (Definition.findInput?_eq_some at_index here)⟩
  · refine ⟨index, slot, bound, at_index, here, (constant ids' bound).mpr rfl, ?_⟩
    cases bound with
    | literal value => exact passed
    | expr source => trivial
    | output source => exact absurd rfl (plain source)

/-- The same inputs are open in any order. -/
theorem supplied_again {d : Definition} {listed : List (String × BindingDescription)}
    {given given' : List (Option Binding)} {owner : String}
    (bound : bindInputs ids before (.start d) listed = .ok ⟨d, given⟩)
    (bound' : bindInputs ids' g (.start d) listed = .ok ⟨d, given'⟩)
    (supplied : Definition.Supplied owner d.inputs given) :
    Definition.Supplied owner d.inputs given' := by
  have matched := @given_matches ids ids' before g (fun _ _ => True) d listed given given'
    (fun _ _ _ _ _ => trivial) bound bound'
  intro k input at_k free
  refine supplied k input at_k ?_
  by_cases inside : k < given.length
  · have inside' : k < given'.length := matched.length_eq ▸ inside
    have rel := matched.get inside inside'
    rw [List.get_eq_getElem, List.get_eq_getElem] at rel
    rw [List.getElem?_eq_getElem inside', Option.join_some] at free
    rw [List.getElem?_eq_getElem inside, Option.join_some]
    rw [free] at rel
    generalize given[k] = binding at rel ⊢
    cases rel
    rfl
  · rw [List.getElem?_eq_none (Nat.le_of_not_lt inside)]
    rfl

/-- A node that was made in one order can be made in another, where its id is still pending. -/
theorem Defines.again (once : Defines registry ids n before after) {id : NodeId}
    (reserved : ids'.lookup n.key = some id) (pending : g.Pending id)
    (checked : ∀ input key output, (input, .node key output) ∈ n.inputs →
      ∃ source, ids'.lookup key = some source ∧
        ∀ factory, registry.find? n.factory = some factory →
          ∀ slot, factory.definition.findInput? input = some slot →
            g.checkOutput factory.definition.name slot.name slot.type ⟨source, output⟩ = .ok ())
    (small : ((defineNode registry ids' n).on g).2.size ≤ UInt32.size) :
    ∃ g', Defines registry ids' n g g' := by
  obtain @⟨factory, _, given, _, _, _, known, _, bound, _, supplied, _, _⟩ := once
  have fits : ∀ entry ∈ n.inputs, entry.2.Fits ids' g factory.definition entry.1 := by
    rintro ⟨input, description⟩ listed
    refine fits_again (bindInputs_ok_iff.mp ⟨_, bound⟩ _ listed) ?_
    rintro key output rfl
    obtain ⟨source, reserved, checks⟩ := checked input key output listed
    exact ⟨source, reserved, checks factory known⟩
  obtain ⟨⟨definition, given'⟩, bound'⟩ :=
    (@bindInputs_ok_iff ids' g (.start factory.definition) n.inputs).mpr fits
  obtain rfl : definition = factory.definition := (definition_bindInputs bound').1
  have supplied' := supplied_again bound bound' supplied
  have open_inputs := (Draft.checkOpen_openInputs_iff (length_bindInputs bound')).mpr supplied'
  rw [defineNode_on known reserved bound', Build.on_discard] at small
  have small' := Nat.le_trans (Draft.size_fillOpen_le pending open_inputs) small
  have checked' := checked_bindInputs (Draft.checked_start _) bound'
  have fills := Definition.fillOpen_on checked' supplied' small'
  obtain ⟨grows, _⟩ := Definition.grows_of_fillOpen checked' fills
  -- the fresh nodes do not take the id, so it can still be filled
  obtain ⟨filled, defined⟩ := Arena.exists_define (grows.contains pending.1)
    ((grows.get? pending.1).trans pending.2) ⟨factory.definition, _⟩
  exact ⟨⟨filled⟩, .intro known reserved bound' pending supplied' fills defined⟩

/-! ## Making all nodes in another order -/

/-- Some nodes are made and others are to come: the ids of the keys are different, those of nodes
to come are pending, and what stands under the others is of their factories. -/
structure Partway (registry : Registry) (ids : KeyTable) (nodes rest : List NodeDescription)
    (g : Graph) : Prop where
  issued : ∀ n ∈ nodes, ∃ id, ids.lookup n.key = some id ∧ g.contains id = true
  distinct : ∀ n ∈ nodes, ∀ m ∈ nodes, ids.lookup n.key = ids.lookup m.key → n = m
  pending : ∀ n ∈ rest, ∀ id, ids.lookup n.key = some id → g.get? id = none
  made : ∀ n ∈ nodes, ∀ id node, ids.lookup n.key = some id → g.get? id = some node →
    ∃ factory, registry.find? n.factory = some factory ∧ node.definition = factory.definition

namespace Partway

variable {rest : List NodeDescription} {g' : Graph}

theorem step (partway : Partway registry ids nodes (n :: rest) g) (declared : n ∈ nodes)
    (later : ∀ m ∈ rest, m ∈ nodes ∧ m ≠ n) (h : Defines registry ids n g g') :
    Partway registry ids nodes rest g' := by
  have kept := h.keeps
  obtain ⟨factory, id, node, known, definition, reserved, _, held, untouched⟩ := h.fills
  -- keys have ids of their own, so no other node is touched
  have other {m : NodeDescription} {id' : NodeId} (mem : m ∈ nodes) (apart : m ≠ n)
      (reserved' : ids.lookup m.key = some id') : g'.get? id' = g.get? id' := by
    obtain ⟨_, reserved₂, issued⟩ := partway.issued m mem
    cases reserved'.symm.trans reserved₂
    refine untouched id' issued ?_
    rintro rfl
    exact apart (partway.distinct m mem n declared (reserved'.trans reserved.symm))
  refine ⟨?_, partway.distinct, ?_, ?_⟩
  · intro m mem
    obtain ⟨id', reserved', issued⟩ := partway.issued m mem
    exact ⟨id', reserved', kept.issued issued⟩
  · intro m mem id' reserved'
    rw [other (later m mem).1 (later m mem).2 reserved']
    exact partway.pending m (List.mem_cons_of_mem _ mem) id' reserved'
  · intro m mem id' node' reserved' held'
    by_cases same : m = n
    · subst same
      cases reserved'.symm.trans reserved
      cases held'.symm.trans held
      exact ⟨factory, known, definition⟩
    · rw [other mem same reserved'] at held'
      exact partway.made m mem id' node' reserved' held'

/-- A reference passes its check: its node is made and offers the output, or it is to come. -/
theorem checked (partway : Partway registry ids nodes rest g) (fitting : Fitting registry nodes)
    (declared : n ∈ nodes) {input key output : String}
    (listed : (input, .node key output) ∈ n.inputs) (known : key ∈ nodes.map (·.key)) :
    ∃ source, ids.lookup key = some source ∧
      ∀ factory, registry.find? n.factory = some factory →
        ∀ slot, factory.definition.findInput? input = some slot →
          g.checkOutput factory.definition.name slot.name slot.type ⟨source, output⟩ = .ok () := by
  obtain ⟨m, mem, rfl⟩ := List.mem_map.mp known
  obtain ⟨source, reserved, issued⟩ := partway.issued m mem
  refine ⟨source, reserved, ?_⟩
  intro factory known slot found
  cases held : g.get? source with
  | none => simp [Graph.checkOutput, Graph.outputType, issued, held]
  | some node =>
    obtain ⟨factory', known', definition⟩ := partway.made m mem source node reserved held
    obtain ⟨output', declared', accepted⟩ := fitting n declared input m.key output listed factory
      known slot found m mem rfl factory' known'
    rw [Graph.checkOutput_eq_ok_iff held, definition]
    exact ⟨output', declared', accepted⟩

/-- Where references fit, what was made once in some order is made in the order of a list. -/
theorem run (partway : Partway registry ids nodes rest g) (fitting : Fitting registry nodes)
    (declared : ∀ n ∈ rest, n ∈ nodes) (distinct : rest.Nodup)
    (references : ∀ n ∈ nodes, ∀ input key output, (input, .node key output) ∈ n.inputs →
      key ∈ nodes.map (·.key))
    (once : ∀ n ∈ nodes, ∃ ids before after, Defines registry ids n before after)
    (small : ((defineNodes registry ids rest).on g).2.size ≤ UInt32.size) :
    ∃ g', (defineNodes registry ids rest).on g = (.ok (), g') := by
  induction rest generalizing g with
  | nil => exact ⟨g, rfl⟩
  | cons n rest ih =>
    rw [List.forall_mem_cons] at declared
    rw [List.nodup_cons] at distinct
    obtain ⟨id, reserved, issued⟩ := partway.issued n declared.1
    have pending := partway.pending n List.mem_cons_self id reserved
    have small' : ((defineNode registry ids n).on g).2.size ≤ UInt32.size := by
      rw [defineNodes] at small
      exact Nat.le_trans (Build.size_le_bind fun _ _ _ => size_le_defineNodes) small
    obtain ⟨_, _, _, made⟩ := once n declared.1
    obtain ⟨middle, made'⟩ := made.again reserved ⟨issued, pending⟩
      (fun input key output listed => partway.checked fitting declared.1 listed
        (references n declared.1 input key output listed)) small'
    have later : ∀ m ∈ rest, m ∈ nodes ∧ m ≠ n := by
      refine fun m mem => ⟨declared.2 m mem, ?_⟩
      rintro rfl
      exact distinct.1 mem
    have ran : (defineNodes registry ids (n :: rest)).on g =
        (defineNodes registry ids rest).on middle := by
      rw [defineNodes, Build.on_bind, defineNode_on_ok_iff.mpr made']
    rw [ran] at small ⊢
    exact ih (partway.step declared.1 later made') declared.2 distinct.2 small

end Partway

/-- Before any node is made all ids are pending. -/
theorem partway_blank (distinct : (nodes.map (·.key)).Nodup) (enough : nodes.length ≤ UInt32.size) :
    Partway registry (keyTable 0 nodes) nodes nodes (.blank nodes.length) := by
  have reserved (n : NodeDescription) (mem : n ∈ nodes) :
      ∃ id, (keyTable 0 nodes).lookup n.key = some id := by
    obtain ⟨i, at_i⟩ := List.getElem?_of_mem mem
    exact ⟨_, lookup_keyTable distinct at_i⟩
  refine ⟨?_, ?_, fun _ _ id _ => Graph.get?_blank _ id, ?_⟩
  · intro n mem
    obtain ⟨id, known⟩ := reserved n mem
    refine ⟨id, known, Graph.contains_iff.mpr ?_⟩
    rw [Graph.size_blank]
    exact toNat_lt_of_lookup enough known
  · intro n mem m mem' same
    obtain ⟨id, known⟩ := reserved n mem
    exact List.inj_on_of_nodup_map distinct mem mem'
      (key_eq_of_lookup enough known (same ▸ known))
  · intro n mem id node _ held
    rw [Graph.get?_blank] at held
    cases held

variable {d d' : GraphDescription} {built : BuiltGraph}

theorem size_defineNodes_le_build (distinct : (d.nodes.map (·.key)).Nodup) :
    ((defineNodes registry (keyTable 0 d.nodes) d.nodes).on (.blank d.nodes.length)).2.size ≤
      ((build registry d).on .empty).2.size := by
  rw [build, Build.on_bind, reserveKeys_on_empty distinct]
  dsimp only
  refine Build.size_le_bind fun _ g _ => ?_
  split <;> exact Nat.le_refl _

/-- Where all references fit, a description that is built in one order is built in any other. -/
theorem exists_build_of_perm (root : d'.root = d.root) (perm : d.nodes.Perm d'.nodes)
    (h : (build registry d).on .empty = (.ok built, g)) (fitting : Fitting registry d.nodes)
    (small : ((build registry d').on .empty).2.size ≤ UInt32.size) :
    ∃ built' g', (build registry d').on .empty = (.ok built', g') := by
  obtain ⟨distinct, defined, _, _⟩ := build_on_ok_iff.mp h
  obtain ⟨declared, references⟩ := declared_of_build h
  have keys : (d.nodes.map (·.key)).Perm (d'.nodes.map (·.key)) := perm.map _
  have distinct' := keys.nodup_iff.mp distinct
  have length := perm.length_eq ▸ length_le_of_defineNodes distinct defined
  have references' : ∀ n ∈ d'.nodes, ∀ input key output, (input, .node key output) ∈ n.inputs →
      key ∈ d'.nodes.map (·.key) := fun n mem input key output listed =>
    keys.mem_iff.mp (references n (perm.mem_iff.mpr mem) input key output listed)
  have once : ∀ n ∈ d'.nodes, ∃ ids before after, Defines registry ids n before after := by
    intro n mem
    obtain ⟨before, after, _, made, _⟩ := exists_defines defined (perm.mem_iff.mpr mem)
    exact ⟨_, before, after, made⟩
  obtain ⟨g', defined'⟩ := (partway_blank distinct' length).run (fitting.perm perm) (fun _ mem => mem)
    distinct'.of_map references' once (Nat.le_trans (size_defineNodes_le_build distinct') small)
  have known : ((keyTable 0 d'.nodes).lookup d'.root).isSome = true := by
    rw [isSome_lookup_iff, keys_keyTable, root]
    exact keys.mem_iff.mp declared
  obtain ⟨id, known⟩ := Option.isSome_iff_exists.mp known
  exact ⟨⟨id, keyTable 0 d'.nodes⟩, g', build_on_ok_iff.mpr ⟨distinct', defined', rfl, known⟩⟩

/-- A description is built, and the graph is compiled from its root. -/
def Compiles (registry : Registry) (config : CompilerConfig) (d : GraphDescription) : Prop :=
  ∃ built g shader, (build registry d).on .empty = (.ok built, g) ∧
    g.compile config built.root = .ok shader

theorem compiles_of_perm {config : CompilerConfig} (root : d'.root = d.root)
    (perm : d.nodes.Perm d'.nodes)
    (small : ((build registry d).on .empty).2.size ≤ UInt32.size)
    (small' : ((build registry d').on .empty).2.size ≤ UInt32.size)
    (names : ∀ n ∈ d.nodes, (n.inputs.map (·.1)).Nodup) (used : ∀ n ∈ d.nodes, d.Uses n.key)
    (compiles : d.Compiles registry config) : d'.Compiles registry config := by
  obtain ⟨built, g, shader, h, compiled⟩ := compiles
  have fitting := fitting_of_compile h names used compiled
  obtain ⟨built', g', h'⟩ := exists_build_of_perm root perm h fitting small'
  rw [h] at small
  rw [h'] at small'
  obtain ⟨shader', compiled'⟩ :=
    (compile_of_perm root perm h h' small small' config).1.mp ⟨shader, compiled⟩
  exact ⟨built', g', shader', h', compiled'⟩

/-- The order in which nodes are declared does not matter, as long as the ids last: they are 32 bits
wide, and past the last one two nodes would share it. Two orders that are built compile to the same
sources, uniforms and number of nodes, or neither compiles. If the root uses every key, one order is
built and compiled exactly if the other is; the inputs of a node are a map, with names that differ. -/
theorem build_perm {registry : Registry} {d d' : GraphDescription} (root : d'.root = d.root)
    (perm : d.nodes.Perm d'.nodes)
    (small : ((build registry d).on .empty).2.size ≤ UInt32.size)
    (small' : ((build registry d').on .empty).2.size ≤ UInt32.size) (config : CompilerConfig) :
    (∀ built g built' g', (build registry d).on .empty = (.ok built, g) →
      (build registry d').on .empty = (.ok built', g') →
      ((∃ shader, g.compile config built.root = .ok shader) ↔
        ∃ shader', g'.compile config built'.root = .ok shader') ∧
      ∀ shader shader', g.compile config built.root = .ok shader →
        g'.compile config built'.root = .ok shader' →
          shader'.vertex.text = shader.vertex.text ∧
            shader'.fragment.text = shader.fragment.text ∧
            shader'.uniforms = shader.uniforms ∧ shader'.nodeCount = shader.nodeCount) ∧
    ((∀ n ∈ d.nodes, (n.inputs.map (·.1)).Nodup) → (∀ n ∈ d.nodes, d.Uses n.key) →
      (d.Compiles registry config ↔ d'.Compiles registry config)) := by
  constructor
  · intro built g built' g' h h'
    rw [h] at small
    rw [h'] at small'
    obtain ⟨succeeds, same⟩ := compile_of_perm root perm h h' small small' config
    refine ⟨succeeds, ?_⟩
    intro shader shader' compiled compiled'
    have written := same shader shader' compiled compiled'
    simpa only [CompiledShader.written, Prod.mk.injEq] using written
  · intro names used
    have names' : ∀ n ∈ d'.nodes, (n.inputs.map (·.1)).Nodup :=
      fun n mem => names n (perm.mem_iff.mpr mem)
    have used' : ∀ n ∈ d'.nodes, d'.Uses n.key :=
      fun n mem => (used n (perm.mem_iff.mpr mem)).perm root perm
    exact ⟨compiles_of_perm root perm small small' names used,
      compiles_of_perm root.symm perm.symm small' small names' used'⟩

/-- The scaled wave with the wave declared first. -/
def waveScaled : GraphDescription := ⟨"scaled", scaledWave.nodes.reverse⟩

theorem build_waveScaled : (build waves waveScaled).on .empty =
    (.ok ⟨⟨1⟩, [("wave", ⟨0⟩), ("scaled", ⟨1⟩)]⟩,
      ⟨⟨#[some ⟨Library.sineWave, [.node ⟨2⟩, .literal (.float 2), .literal (.float 1)]⟩,
        some ⟨Library.scale .float, [.node ⟨0⟩, .literal (.float 1)]⟩,
        some ⟨Library.time, []⟩]⟩⟩) := rfl

/-- The wave has other ids in the two orders, and they compile to one text. -/
theorem build_perm_scaledWave :
    ∃ built g shader built' g' shader',
      (build waves scaledWave).on .empty = (.ok built, g) ∧
      g.compile ⟨[⟨.fragment, "csm_DiffuseColor = vec3({value});"⟩], true⟩ built.root = .ok shader ∧
      (build waves waveScaled).on .empty = (.ok built', g') ∧
      g'.compile ⟨[⟨.fragment, "csm_DiffuseColor = vec3({value});"⟩], true⟩ built'.root =
        .ok shader' ∧
      built'.root ≠ built.root ∧ shader'.fragment.text = shader.fragment.text ∧
      shader'.nodeCount = 3 := by
  let config : CompilerConfig := ⟨[⟨.fragment, "csm_DiffuseColor = vec3({value});"⟩], true⟩
  have perm : scaledWave.nodes.Perm waveScaled.nodes := (List.reverse_perm _).symm
  have small : ((build waves scaledWave).on .empty).2.size ≤ UInt32.size := by
    rw [build_scaledWave]
    decide
  have small' : ((build waves waveScaled).on .empty).2.size ≤ UInt32.size := by
    rw [build_waveScaled]
    decide
  have used : ∀ n ∈ scaledWave.nodes, scaledWave.Uses n.key := by
    have first : scaledWave.Uses "scaled" := .root
    have second : scaledWave.Uses "wave" :=
      @Uses.input scaledWave ⟨"scaled", "scale", [("a", .node "wave" "value")]⟩ "a" "wave" "value"
        first List.mem_cons_self List.mem_cons_self
    simpa [scaledWave] using ⟨first, second⟩
  have names : ∀ n ∈ scaledWave.nodes, (n.inputs.map (·.1)).Nodup := by decide
  obtain ⟨alike, compiles⟩ := @build_perm waves scaledWave waveScaled rfl perm small small' config
  have count : (((build waves scaledWave).on .empty).2.compile config ⟨0⟩).toOption.map
      (·.nodeCount) = some 3 := by
    rw [build_scaledWave]
    dsimp only
    cbv
  obtain ⟨g, ran⟩ : ∃ g, (build waves scaledWave).on .empty =
      (.ok ⟨⟨0⟩, [("scaled", ⟨0⟩), ("wave", ⟨1⟩)]⟩, g) := ⟨_, build_scaledWave⟩
  rw [ran] at count
  cases compiled : g.compile config ⟨0⟩ with
  | error e => simp [compiled, Except.toOption] at count
  | ok shader =>
    rw [compiled] at count
    obtain ⟨built', g', shader', ran', compiled'⟩ :=
      (compiles names used).mp ⟨_, g, shader, ran, compiled⟩
    obtain ⟨_, same⟩ := alike _ g built' g' ran ran'
    obtain ⟨_, fragment, _, nodes⟩ := same shader shader' compiled compiled'
    have root : built'.root = ⟨1⟩ := by
      cases ran'.symm.trans build_waveScaled
      rfl
    refine ⟨_, g, shader, built', g', shader', ran, compiled, ran', compiled', ?_, fragment,
      nodes.trans (Option.some.inj count)⟩
    rw [root]
    decide

end GraphDescription

end ParticleShading
