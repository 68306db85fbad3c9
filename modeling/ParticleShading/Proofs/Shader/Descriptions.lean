import ParticleShading.Proofs.Shader.DescriptionSteps

/-!
# Built descriptions

What a description that builds has become: its keys are different and have the
ids of their positions, every id has a node, and the node of a key is what the
description says, with what is listed for its inputs and defaults for the rest.
No id is left for the compiler to miss. Repeated and undeclared keys are
refused.
-/

namespace ParticleShading

/-! ## Reserved slots -/

namespace Arena

variable {α : Type} {a b : Arena α} {h : Handle} {value : α}

theorem reservedCount_insert : (a.insert value).2.reservedCount = a.reservedCount := by
  simp [insert, reservedCount]

theorem reservedCount_define (filled : a.define h value = .ok b) :
    b.reservedCount + 1 = a.reservedCount := by
  rw [define] at filled
  split at filled
  · cases filled
  · cases filled
  · rename_i slot
    cases filled
    obtain ⟨inside, empty⟩ := Array.getElem?_eq_some_iff.mp slot
    have counted : 0 < a.reservedCount :=
      Array.countP_pos_iff.mpr ⟨none, empty ▸ Array.getElem_mem inside, rfl⟩
    rw [reservedCount, Array.setIfInBounds, dif_pos inside, Array.countP_set, empty]
    simp only [reservedCount, Option.isNone_none, Option.isNone_some, if_true] at counted ⊢
    simp
    omega

/-- Where nothing is reserved every slot has a value. -/
theorem exists_of_reservedCount_eq_zero (full : a.reservedCount = 0) (inside : a.contains h = true) :
    ∃ value, a.get? h = some value := by
  have bound : h.toNat < a.slots.size := of_decide_eq_true inside
  have filled := Array.countP_eq_zero.mp full _ (Array.getElem_mem bound)
  cases slot : a.slots[h.toNat] with
  | none => simp [slot] at filled
  | some value => exact ⟨value, by simp [get?, bound, slot]⟩

end Arena

namespace Graph

variable {g g' : Graph}

theorem pendingCount_blank (count : Nat) : (blank count).pendingCount = count := by
  rw [pendingCount, Arena.reservedCount, blank, Array.countP_replicate]
  rfl

theorem Grows.pendingCount (h : g.Grows g') : g'.pendingCount = g.pendingCount := by
  induction h with
  | refl => rfl
  | append _ _ ih => exact Arena.reservedCount_insert.trans ih

end Graph

/-! ## Calls -/

namespace Construction

theorem graph_step (c : Construction) (call : GraphCall) :
    (c.step call).graph = (call.build.on c.graph).2 := by
  cases ran : call.build.on c.graph with
  | mk result graph =>
    simp only [step, ran]
    cases call <;> cases result <;> rfl

theorem graph_run_concat (calls : List GraphCall) (call : GraphCall) :
    (run (calls ++ [call])).graph = (call.build.on (run calls).graph).2 := by
  rw [run_append]
  exact graph_step (run calls) call

theorem graph_run_reserves (count : Nat) :
    (run (List.replicate count .reserve)).graph = .blank count := by
  induction count with
  | zero => rfl
  | succ count ih =>
    rw [List.replicate_succ', graph_run_concat, ih, GraphCall.build, Build.on_reserve_blank]

end Construction

namespace GraphDescription

variable {registry : Registry} {ids : KeyTable} {n : NodeDescription} {g g' : Graph}
variable {nodes : List NodeDescription} {draft out : Draft}
variable {listed : List (String × BindingDescription)}

/-- Listed inputs are bound as resolved ones are. -/
theorem exists_bindAll (h : bindInputs ids g draft listed = .ok out) :
    ∃ bindings, draft.bindAll g bindings = .ok out := by
  induction listed generalizing draft with
  | nil => exact ⟨[], h⟩
  | cons first rest ih =>
    obtain ⟨binding, _, h⟩ := bind_eq_ok_iff.mp h
    obtain ⟨next, bound, h⟩ := bind_eq_ok_iff.mp h
    obtain ⟨bindings, later⟩ := ih h
    exact ⟨(first.1, binding) :: bindings, bind_eq_ok_iff.mpr ⟨next, bound, later⟩⟩

theorem Defines.exists_call (h : Defines registry ids n g g') :
    ∃ call : GraphCall, (call.build.on g).2 = g' := by
  obtain @⟨factory, id, given, bindings, middle, filled, _, _, bound, pending, supplied, fills,
    defined⟩ := h
  obtain ⟨resolved, all⟩ := exists_bindAll bound
  have resolves : (Draft.mk factory.definition given).resolve.on g =
      (.ok ⟨factory.definition, bindings⟩, middle) :=
    (resolve_on_ok_iff (length_bindInputs bound)).mpr ⟨bindings, supplied, fills, rfl⟩
  obtain ⟨made, done⟩ := define_on_ok_iff.mpr ⟨pending, _, middle, filled, resolves, defined, rfl⟩
  refine ⟨.define factory.definition resolved id, ?_⟩
  rw [GraphCall.build, Build.on_bind, Build.draft, Build.on_check, all]
  exact congrArg Prod.snd done

theorem exists_calls_of_defineNodes (h : (defineNodes registry ids nodes).on g = (.ok (), g'))
    {calls : List GraphCall} (start : (Construction.run calls).graph = g) :
    ∃ calls, (Construction.run calls).graph = g' := by
  induction nodes generalizing g calls with
  | nil =>
    cases h
    exact ⟨calls, start⟩
  | cons n rest ih =>
    obtain ⟨middle, made, later⟩ := defineNodes_cons_on_ok_iff.mp h
    obtain ⟨call, called⟩ := made.exists_call
    refine @ih middle later (calls ++ [call]) ?_
    rw [Construction.graph_run_concat, start, called]

/-- What a description builds is constructed by calls. -/
theorem exists_calls {d : GraphDescription} {built : BuiltGraph}
    (h : (build registry d).on .empty = (.ok built, g)) :
    ∃ calls, (Construction.run calls).graph = g := by
  obtain ⟨_, defined, _⟩ := build_on_ok_iff.mp h
  exact exists_calls_of_defineNodes defined (Construction.graph_run_reserves d.nodes.length)

/-! ## Ids -/

variable {key : String} {id : NodeId} {start i : Nat}

theorem Defines.pendingCount (h : Defines registry ids n g g') :
    g'.pendingCount + 1 = g.pendingCount := by
  obtain ⟨middle, id, node, filled, grown, _, defined, rfl⟩ := h.checked
  exact (Arena.reservedCount_define defined).trans grown.pendingCount

theorem pendingCount_defineNodes (h : (defineNodes registry ids nodes).on g = (.ok (), g')) :
    g'.pendingCount + nodes.length = g.pendingCount := by
  induction nodes generalizing g with
  | nil =>
    cases h
    rfl
  | cons n rest ih =>
    obtain ⟨middle, made, later⟩ := defineNodes_cons_on_ok_iff.mp h
    rw [List.length_cons, ← made.pendingCount, ← ih later, Nat.add_assoc]

theorem lookup_keyTable (distinct : (nodes.map (·.key)).Nodup) (at_i : nodes[i]? = some n) :
    (keyTable start nodes).lookup n.key = some (.slot (start + i)) := by
  induction nodes generalizing start i with
  | nil => cases at_i
  | cons first rest ih =>
    rw [List.map_cons, List.nodup_cons] at distinct
    rw [keyTable_cons, List.lookup_cons]
    cases i with
    | zero =>
      cases at_i
      simp
    | succ i =>
      have apart : (n.key == first.key) = false := by
        rw [beq_eq_false_iff_ne]
        intro same
        exact distinct.1 (same ▸ List.mem_map_of_mem (List.mem_of_getElem? at_i))
      rw [apart, ih distinct.2 at_i, Nat.add_assoc, Nat.add_comm 1]

theorem of_lookup_keyTable (h : (keyTable start nodes).lookup key = some id) :
    ∃ i n, nodes[i]? = some n ∧ n.key = key ∧ id = .slot (start + i) := by
  induction nodes generalizing start with
  | nil => cases h
  | cons first rest ih =>
    rw [keyTable_cons, List.lookup_cons] at h
    split at h
    · rename_i same
      cases h
      exact ⟨0, first, rfl, (by simpa using same : key = first.key).symm, rfl⟩
    · obtain ⟨i, n, at_i, named, rfl⟩ := ih h
      exact ⟨i + 1, n, at_i, named, by rw [Nat.add_assoc, Nat.add_comm 1]⟩

/-- The ids of the keys come first. -/
theorem toNat_lt_of_lookup (enough : nodes.length ≤ UInt32.size)
    (h : (keyTable 0 nodes).lookup key = some id) : id.toNat < nodes.length := by
  obtain ⟨i, n, at_i, _, rfl⟩ := of_lookup_keyTable h
  have inside := (List.getElem?_eq_some_iff.mp at_i).1
  rw [Handle.toNat_slot (by omega)]
  omega

/-- Keys have ids of their own. -/
theorem key_eq_of_lookup {key' : String} (enough : nodes.length ≤ UInt32.size)
    (h : (keyTable 0 nodes).lookup key = some id)
    (h' : (keyTable 0 nodes).lookup key' = some id) : key = key' := by
  obtain ⟨i, n, at_i, rfl, rfl⟩ := of_lookup_keyTable h
  obtain ⟨i', n', at_i', rfl, same⟩ := of_lookup_keyTable h'
  have inside := (List.getElem?_eq_some_iff.mp at_i).1
  have inside' := (List.getElem?_eq_some_iff.mp at_i').1
  rw [Handle.slot_inj (by omega) (by omega), Nat.add_left_cancel_iff] at same
  subst same
  cases at_i.symm.trans at_i'
  rfl

/-- The id of the key is pending before and has a node of the factory after; no other id that was
issued is touched. -/
theorem Defines.fills (h : Defines registry ids n g g') : ∃ factory id node,
    registry.find? n.factory = some factory ∧ node.definition = factory.definition ∧
      ids.lookup n.key = some id ∧ g.Pending id ∧ g'.get? id = some node ∧
      ∀ other, g.contains other = true → other ≠ id → g'.get? other = g.get? other := by
  obtain @⟨factory, id, given, bindings, middle, filled, known, reserved, bound, pending, _, fills,
    defined⟩ := h
  obtain ⟨grows, _⟩ :=
    Definition.grows_of_fillOpen (checked_bindInputs (Draft.checked_start _) bound) fills
  refine ⟨factory, id, ⟨factory.definition, bindings⟩, known, rfl, reserved, pending,
    Arena.get?_define_self defined, ?_⟩
  intro other issued apart
  exact (Arena.get?_define_of_ne defined apart).trans (grows.get? issued)

/-- An id is filled once, so nodes that are made have different ids. -/
theorem nodup_ids (h : (defineNodes registry ids nodes).on g = (.ok (), g')) :
    (nodes.map fun n => ids.lookup n.key).Nodup := by
  induction nodes generalizing g with
  | nil => exact List.nodup_nil
  | cons n rest ih =>
    obtain ⟨middle, made, later⟩ := defineNodes_cons_on_ok_iff.mp h
    rw [List.map_cons, List.nodup_cons]
    refine ⟨?_, ih later⟩
    intro mem
    obtain ⟨other, listed, same⟩ := List.mem_map.mp mem
    obtain ⟨before, after, kept, made', _⟩ := exists_defines later listed
    obtain ⟨_, id, node, _, _, reserved, _, held, _⟩ := made.fills
    obtain ⟨_, id', _, _, _, reserved', pending, _⟩ := made'.fills
    obtain rfl : id' = id := Option.some.inj ((reserved'.symm.trans same).trans reserved)
    exact absurd (pending.2.symm.trans (kept.held id' node held)) (by simp)

/-- There are ids for all keys. -/
theorem length_le_of_defineNodes (distinct : (nodes.map (·.key)).Nodup)
    (h : (defineNodes registry (keyTable 0 nodes) nodes).on g = (.ok (), g')) :
    nodes.length ≤ UInt32.size := by
  by_contra more
  have at_i (i : Nat) (inside : i < nodes.length) :
      (nodes.map fun n => (keyTable 0 nodes).lookup n.key)[i]? = some (some (.slot (0 + i))) := by
    rw [List.getElem?_map, List.getElem?_eq_getElem inside, Option.map_some,
      lookup_keyTable distinct (List.getElem?_eq_getElem inside)]
  -- the last two of too many keys share the last id
  have shared : Handle.slot (0 + (UInt32.size - 1)) = Handle.slot (0 + UInt32.size) := by decide
  have before := at_i (UInt32.size - 1) (by omega)
  rw [shared, ← at_i UInt32.size (by omega)] at before
  refine List.nodup_iff_getElem?_ne_getElem?.mp (nodup_ids h) _ _ (by decide) ?_ before
  rw [List.length_map]
  omega

end GraphDescription

/-! ## Nodes -/

/-- What feeds the first input of a name stands at the position of that input. -/
theorem Node.binding?_eq {node : Node} {input : String} {index : Nat}
    (complete : node.bindings.length = node.definition.inputs.length)
    (at_index : node.definition.inputs.findIdx? (·.name = input) = some index) :
    node.binding? input = node.bindings[index]? := by
  have inputs : node.inputs.map (·.1) = node.definition.inputs :=
    List.map_fst_zip (Nat.le_of_eq complete.symm)
  have at_index' : node.inputs.findIdx? (·.1.name = input) = some index := by
    rw [← at_index, ← inputs, List.findIdx?_map]
    rfl
  obtain ⟨inside, _⟩ := List.findIdx?_eq_some_iff_getElem.mp at_index
  have here : node.inputs[index]? = some (node.definition.inputs[index], node.bindings[index]) :=
    List.getElem?_zip_eq_some.mpr ⟨List.getElem?_eq_getElem inside, List.getElem?_eq_getElem _⟩
  rw [binding?, List.find?_eq_bind_findIdx?_getElem?, at_index', Option.bind_some, here,
    List.getElem?_eq_getElem (complete ▸ inside)]
  rfl

theorem Graph.Keeps.holds {g g' : Graph} {start : Nat} {nodes : List Node} (h : g.Keeps g')
    (held : g.Holds start nodes) : g'.Holds start nodes :=
  fun j node at_j => h.held _ node (held j node at_j)

/-- The node that stands for a key: its definition is that of the factory, what is listed feeds
the first input of its name, and the other inputs have their defaults, which are nodes with ids
of their own as long as the ids last. -/
structure NodeDescription.Stands (n : NodeDescription) (registry : Registry) (ids : KeyTable)
    (g : Graph) (node : Node) : Prop where
  made : ∃ factory, registry.find? n.factory = some factory ∧ node.definition = factory.definition
  held : ∃ id, ids.lookup n.key = some id ∧ g.get? id = some node
  complete : node.bindings.length = node.definition.inputs.length
  listed : ∀ input description, n.listed input = some description →
    ∃ slot bound, node.definition.findInput? input = some slot ∧
      description.Gives ids slot.type bound ∧ node.binding? input = some bound
  unlisted : g.size ≤ UInt32.size → ∀ (k : Nat) (slot : Input Definition),
    node.definition.inputs[k]? = some slot →
      (∀ input ∈ n.inputs.map (·.1),
        node.definition.inputs.findIdx? (·.name = input) ≠ some k) →
      ∃ bound, node.bindings[k]? = some bound ∧ g.Supplies slot bound

namespace GraphDescription

variable {registry : Registry} {ids : KeyTable} {n : NodeDescription} {g g' : Graph}

theorem Defines.stands (h : Defines registry ids n g g') {last : Graph} (kept : g'.Keeps last) :
    ∃ node, n.Stands registry ids last node := by
  obtain @⟨factory, id, given, bindings, middle, filled, known, reserved, bound, pending, supplied,
    fills, defined⟩ := h
  have checked := checked_bindInputs (Draft.checked_start _) bound
  obtain ⟨grows, complete, _⟩ := Definition.grows_of_fillOpen checked fills
  have held := Arena.get?_define_self defined
  have kept' := (Graph.keeps_define defined).trans kept
  refine ⟨⟨factory.definition, bindings⟩, ⟨factory, known, rfl⟩,
    ⟨id, reserved, kept.held id _ held⟩, complete, ?_, ?_⟩
  · intro input description last
    obtain ⟨index, slot, bound', at_index, here, gives, taken⟩ :=
      getElem?_bindInputs_of_listed bound (List.length_map ..) last
    have inside := (List.getElem?_eq_some_iff.mp here).1
    refine ⟨slot, bound', Definition.findInput?_eq_some at_index here, gives, ?_⟩
    exact (Node.binding?_eq complete at_index).trans
      (Definition.getElem?_of_fillOpen fills inside taken)
  · intro small k slot at_k unlisted
    have inside := (List.getElem?_eq_some_iff.mp at_k).1
    have free : given[k]?.join = none := by
      rw [getElem?_bindInputs_of_unlisted bound unlisted, Draft.start, List.getElem?_map, at_k]
      rfl
    have small' := Nat.le_trans kept'.size_le small
    obtain ⟨rfl, _, stand⟩ := Definition.laid_of_fillOpen checked supplied fills small'
    exact Definition.supplies_supply supplied (kept'.holds stand) at_k free

end GraphDescription

/-! ## What is left for the compiler -/

namespace Graph

variable {g : Graph} {config : CompilerConfig} {root id : NodeId} {error : ShaderError}

/-- From an issued id only issued ids are reached, where all references are issued. -/
theorem Reaches.issued (bound : ∀ id node, g.get? id = some node → node.Bound g)
    (start : g.contains root = true) (reached : g.Reaches root id) : g.contains id = true := by
  cases reached with
  | root => exact start
  | feed _ feeds =>
    obtain ⟨node, held, input, output, reads⟩ := feeds
    exact (bound _ node held).issued input _ reads

/-- Where every id has a node, and references are issued, a compilation is refused for one of four
reasons. -/
theorem compile_error_of_defined (bound : ∀ id node, g.get? id = some node → node.Bound g)
    (defined : ∀ id, g.contains id = true → ∃ node, g.get? id = some node)
    (start : g.contains root = true) (refused : g.compile config root = .error error) :
    (∃ path, error = .graph (.cycle path)) ∨
    (∃ node output, error = .graph (.missingOutput node output)) ∨
    (∃ node input expected found, error = .typeMismatch node input expected found) ∨
    ∃ name first second, error = .graph (.conflictingUniform name first second) := by
  cases defect_of_compile refused with
  | unknownNode reached foreign =>
    exact absurd (reached.issued bound start) (by simp [foreign])
  | undefinedNode reached issued reserved =>
    obtain ⟨node, held⟩ := defined _ issued
    exact absurd (reserved.symm.trans held) (by simp)
  | cycle _ _ _ => exact Or.inl ⟨_, rfl⟩
  | missingOutput _ _ _ _ _ => exact Or.inr (Or.inl ⟨_, _, rfl⟩)
  | missingInjected _ _ _ _ => exact Or.inr (Or.inl ⟨_, _, rfl⟩)
  | typeMismatch _ _ _ _ _ _ => exact Or.inr (Or.inr (Or.inl ⟨_, _, _, _, rfl⟩))
  | conflictingUniform _ _ _ _ => exact Or.inr (Or.inr (Or.inr ⟨_, _, _, rfl⟩))

end Graph

namespace GraphDescription

variable {registry : Registry} {d : GraphDescription} {built : BuiltGraph} {g : Graph}

/-- A build that succeeds has resolved every reference and the root. -/
theorem declared_of_build (h : (build registry d).on .empty = (.ok built, g)) :
    d.root ∈ d.nodes.map (·.key) ∧
      ∀ n ∈ d.nodes, ∀ input key output, (input, .node key output) ∈ n.inputs →
        key ∈ d.nodes.map (·.key) := by
  obtain ⟨_, defined, ids, root⟩ := build_on_ok_iff.mp h
  have declared {key : String} {id : NodeId} (known : (keyTable 0 d.nodes).lookup key = some id) :
      key ∈ d.nodes.map (·.key) := by
    rw [← keys_keyTable 0, ← isSome_lookup_iff, known]
    rfl
  refine ⟨declared (ids ▸ root), ?_⟩
  intro n mem input key output listed
  obtain ⟨before, after, _, made, _⟩ := exists_defines defined mem
  obtain ⟨_, _, bound, _, _, _, _⟩ := made
  obtain ⟨_, _, _, _, _, ⟨binding, resolved, _⟩, _⟩ :=
    bindInputs_ok_iff.mp ⟨_, bound⟩ _ listed
  rw [BindingDescription.resolve] at resolved
  split at resolved
  · rename_i id known
    exact declared known
  · cases resolved

/-- Every declared node stands for its key. -/
theorem exists_stands (h : (build registry d).on .empty = (.ok built, g)) {n : NodeDescription}
    (mem : n ∈ d.nodes) : ∃ node, n.Stands registry built.ids g node := by
  obtain ⟨_, defined, ids, _⟩ := build_on_ok_iff.mp h
  obtain ⟨_, _, _, made, kept⟩ := exists_defines defined mem
  exact ids ▸ made.stands kept

/-- A description that builds has different keys, and the node at position `i` has the id `i`. Every
id has a node, the node of a key stands for it, and a compilation from the root fails for one of
four reasons only. Repeated keys and undeclared ones are refused. -/
theorem build_faithful (registry : Registry) (d : GraphDescription) :
    (∀ built g, (build registry d).on .empty = (.ok built, g) →
      (d.nodes.map (·.key)).Nodup ∧
      built.ids.map (·.1) = d.nodes.map (·.key) ∧
      (∀ i n, d.nodes[i]? = some n →
        ∃ id, built.ids.lookup n.key = some id ∧ id.toNat = i) ∧
      built.ids.lookup d.root = some built.root ∧
      g.pendingCount = 0 ∧
      (∀ id, g.contains id = true → ∃ node, g.get? id = some node) ∧
      (∀ n ∈ d.nodes, ∃ node, n.Stands registry built.ids g node) ∧
      ∀ config error, g.compile config built.root = .error error →
        (∃ path, error = .graph (.cycle path)) ∨
        (∃ node output, error = .graph (.missingOutput node output)) ∨
        (∃ node input expected found, error = .typeMismatch node input expected found) ∨
        ∃ name first second, error = .graph (.conflictingUniform name first second)) ∧
    (¬ (d.nodes.map (·.key)).Nodup → ∃ before n after, d.nodes = before ++ n :: after ∧
      n.key ∈ before.map (·.key) ∧
      ((build registry d).on .empty).1 = .error (.graph (.duplicateKey n.key))) ∧
    ((∃ n ∈ d.nodes, ∃ input key output, (input, .node key output) ∈ n.inputs ∧
        key ∉ d.nodes.map (·.key)) ∨ d.root ∉ d.nodes.map (·.key) →
      ∃ error, ((build registry d).on .empty).1 = .error error) := by
  refine ⟨?_, build_duplicate, ?_⟩
  · intro built g h
    obtain ⟨distinct, defined, ids, root⟩ := build_on_ok_iff.mp h
    obtain ⟨calls, rfl⟩ := exists_calls h
    have none_pending := pendingCount_defineNodes defined
    rw [Graph.pendingCount_blank, Nat.add_eq_right] at none_pending
    have full (id : NodeId) (issued : (Construction.run calls).graph.contains id = true) :=
      Arena.exists_of_reservedCount_eq_zero none_pending issued
    refine ⟨distinct, ids ▸ keys_keyTable 0 d.nodes, ?_, root, none_pending, full,
      fun _ mem => exists_stands h mem, ?_⟩
    · intro i n at_i
      have inside := (List.getElem?_eq_some_iff.mp at_i).1
      have count := length_le_of_defineNodes distinct defined
      refine ⟨.slot (0 + i), ids ▸ lookup_keyTable distinct at_i, ?_⟩
      rw [Handle.toNat_slot (by omega), Nat.zero_add]
    · intro config error refused
      obtain ⟨n, mem, named⟩ := List.mem_map.mp (declared_of_build h).1
      obtain ⟨node, stands⟩ := exists_stands h mem
      obtain ⟨id, reserved, held⟩ := stands.held
      rw [named, root] at reserved
      cases reserved
      exact Graph.compile_error_of_defined (fun _ _ => Construction.bound_run) full
        (Graph.contains_of_get? held) refused
  · intro undeclared
    cases ran : ((build registry d).on .empty).1 with
    | error e => exact ⟨e, rfl⟩
    | ok built =>
      obtain ⟨declared, references⟩ := @declared_of_build registry d built _ (Prod.ext ran rfl)
      rcases undeclared with ⟨n, mem, input, key, output, listed, unknown⟩ | unknown
      · exact absurd (references n mem input key output listed) unknown
      · exact absurd declared unknown

/-- A wave is scaled by a node that is declared before it. -/
def scaledWave : GraphDescription :=
  ⟨"scaled", [⟨"scaled", "scale", [("a", .node "wave" "value")]⟩,
    ⟨"wave", "wave", [("frequency", .float 2)]⟩]⟩

/-- The factories that it names. -/
def waves : Registry :=
  ⟨[("scale", ⟨0, Library.scale .float⟩), ("wave", ⟨1, Library.sineWave⟩)]⟩

theorem build_scaledWave : (build waves scaledWave).on .empty =
    (.ok ⟨⟨0⟩, [("scaled", ⟨0⟩), ("wave", ⟨1⟩)]⟩,
      ⟨⟨#[some ⟨Library.scale .float, [.node ⟨1⟩, .literal (.float 1)]⟩,
        some ⟨Library.sineWave, [.node ⟨2⟩, .literal (.float 2), .literal (.float 1)]⟩,
        some ⟨Library.time, []⟩]⟩⟩) := rfl

theorem compile_scaledWave :
    ((build waves scaledWave).on .empty).2.compile .standard ⟨0⟩ =
      .error (.graph (.missingOutput "Scale" "position")) := by
  rw [build_scaledWave]
  dsimp only
  cbv

/-- The wave has the listed frequency and a fresh clock, and it lacks an output that the host asks
for. Declared twice, or with another root, the description is refused. -/
theorem build_faithful_scaledWave :
    ∃ built g node, (build waves scaledWave).on .empty = (.ok built, g) ∧ g.pendingCount = 0 ∧
      g.get? ⟨1⟩ = some node ∧ node.binding? "frequency" = some (.literal (.float 2)) ∧
      (∃ time, node.bindings[0]? = some time ∧
        g.Supplies (Library.fedBy "time" .float Library.time) time) ∧
      (∃ name output, g.compile .standard built.root =
        .error (.graph (.missingOutput name output))) ∧
      (∃ before n after, scaledWave.nodes ++ scaledWave.nodes = before ++ n :: after ∧
        ((build waves ⟨"scaled", scaledWave.nodes ++ scaledWave.nodes⟩).on .empty).1 =
          .error (.graph (.duplicateKey n.key))) ∧
      ∃ error, ((build waves ⟨"tone", scaledWave.nodes⟩).on .empty).1 = .error error := by
  obtain ⟨faithful, _, _⟩ := build_faithful waves scaledWave
  obtain ⟨_, _, _, _, none_pending, _, stands, errors⟩ := faithful _ _ build_scaledWave
  obtain ⟨node, stood⟩ := stands ⟨"wave", "wave", [("frequency", .float 2)]⟩
    (List.mem_cons_of_mem _ List.mem_cons_self)
  obtain ⟨id, reserved, held⟩ := stood.held
  cases reserved
  have definition : node.definition = Library.sineWave := by
    cases held
    rfl
  have frequency : node.binding? "frequency" = some (.literal (.float 2)) := by
    obtain ⟨slot, bound, found, ⟨binding, resolved, made⟩, binds⟩ := stood.listed "frequency" _ rfl
    rw [definition] at found
    cases found
    cases resolved
    exact binds.trans made.symm
  have time := stood.unlisted (by decide) 0 _ (by rw [definition]; rfl) (by
    rw [definition]
    decide)
  refine ⟨_, _, node, build_scaledWave, none_pending, held, frequency, time, ?_, ?_, ?_⟩
  · have refused := compile_scaledWave
    rw [build_scaledWave] at refused
    rcases errors .standard _ refused with ⟨_, other⟩ | ⟨name, output, same⟩ | ⟨_, _, _, _, other⟩ |
      ⟨_, _, _, other⟩
    · cases other
    · exact ⟨name, output, same ▸ refused⟩
    · cases other
    · cases other
  · obtain ⟨_, repeated, _⟩ :=
      build_faithful waves ⟨"scaled", scaledWave.nodes ++ scaledWave.nodes⟩
    obtain ⟨before, n, after, split, _, refused⟩ := repeated (by decide)
    exact ⟨before, n, after, split, refused⟩
  · obtain ⟨_, _, undeclared⟩ := build_faithful waves ⟨"tone", scaledWave.nodes⟩
    exact undeclared (Or.inr (by decide))

end GraphDescription

end ParticleShading
