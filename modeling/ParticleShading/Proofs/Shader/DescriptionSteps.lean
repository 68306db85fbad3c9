import ParticleShading.Shader.Description
import ParticleShading.Proofs.Shader.Bindings
import ParticleShading.Proofs.Shader.Fallbacks

/-!
# Steps of a description

What it takes for each step of a description to succeed, and what it leaves
behind: binding the listed inputs of a node, handing out an id for every key,
making one node and making them all. The rules say it without the monad, so
nothing after this module opens a step again.
-/

namespace ParticleShading

/-! ## Listed inputs -/

/-- What a description gives an input of a type: what it stands for, literals coerced. -/
def BindingDescription.Gives (ids : KeyTable) (type : ValueType) (description : BindingDescription)
    (bound : Binding) : Prop :=
  ∃ binding, description.resolve ids = .ok binding ∧ binding.coerce? type = some bound

namespace BindingDescription

variable {ids ids' : KeyTable} {type : ValueType} {description : BindingDescription}
variable {bound : Binding} {key output : String}

/-- A key gives the output of its id. -/
theorem gives_node_iff : (node key output).Gives ids type bound ↔
    ∃ id, ids.lookup key = some id ∧ bound = .output ⟨id, output⟩ := by
  constructor
  · rintro ⟨binding, resolved, made⟩
    rw [resolve] at resolved
    split at resolved
    · rename_i id known
      cases resolved
      cases made
      exact ⟨id, known, rfl⟩
    · cases resolved
  · rintro ⟨id, known, rfl⟩
    exact ⟨.output ⟨id, output⟩, by rw [resolve, known], rfl⟩

/-- What is not a key gives the same whatever ids the keys have, and it is no reference. -/
theorem Gives.key_or_constant (gives : description.Gives ids type bound) :
    (∃ key output, description = .node key output) ∨
      (∀ ids' bound', description.Gives ids' type bound' ↔ bound' = bound) ∧
        ∀ source, bound ≠ .output source := by
  by_cases named : ∃ key output, description = .node key output
  · exact Or.inl named
  · have constant (ids') : description.resolve ids' = description.resolve ids := by
      cases description with
      | node key output => exact absurd ⟨key, output, rfl⟩ named
      | _ => rfl
    obtain ⟨binding, resolved, made⟩ := gives
    refine Or.inr ⟨?_, ?_⟩
    · intro ids' bound'
      simp [Gives, constant, resolved, made, eq_comm]
    · rintro source rfl
      cases binding with
      | literal value => simp [Binding.coerce?] at made
      | expr source => cases made
      | output source =>
        cases description with
        | node key output => exact named ⟨key, output, rfl⟩
        | color hex =>
          rw [resolve] at resolved
          split at resolved <;> cases resolved
        | _ => cases resolved

end BindingDescription

/-- An input takes what a description gives it. -/
def BindingDescription.Fits (ids : KeyTable) (g : Graph) (d : Definition) (input : String)
    (description : BindingDescription) : Prop :=
  ∃ index slot bound, d.inputs.findIdx? (·.name = input) = some index ∧
    d.inputs[index]? = some slot ∧ description.Gives ids slot.type bound ∧
    bound.Checked g d.name slot

/-- The description of an input; of several under one name the last one counts. -/
def NodeDescription.listed (n : NodeDescription) (input : String) : Option BindingDescription :=
  n.inputs.reverse.lookup input

namespace GraphDescription

variable {ids : KeyTable} {g : Graph} {draft out : Draft}
variable {listed : List (String × BindingDescription)} {input : String}
variable {description : BindingDescription}

theorem bindInputs_cons_ok_iff :
    bindInputs ids g draft ((input, description) :: listed) = .ok out ↔
      ∃ index slot bound, draft.definition.inputs.findIdx? (·.name = input) = some index ∧
        draft.definition.inputs[index]? = some slot ∧ description.Gives ids slot.type bound ∧
        bound.Checked g draft.definition.name slot ∧
        bindInputs ids g { draft with bindings := draft.bindings.set index (some bound) } listed =
          .ok out := by
  rw [bindInputs, bind_eq_ok_iff]
  constructor
  · rintro ⟨binding, resolved, h⟩
    obtain ⟨next, taken, rest⟩ := bind_eq_ok_iff.mp h
    obtain ⟨index, slot, bound, at_index, here, made, checked, rfl⟩ := Draft.bind_ok_iff.mp taken
    exact ⟨index, slot, bound, at_index, here, ⟨binding, resolved, made⟩, checked, rest⟩
  · rintro ⟨index, slot, bound, at_index, here, ⟨binding, resolved, made⟩, checked, rest⟩
    refine ⟨binding, resolved, bind_eq_ok_iff.mpr ⟨_, Draft.bind_ok_iff.mpr ?_, rest⟩⟩
    exact ⟨index, slot, bound, at_index, here, made, checked, rfl⟩

theorem definition_bindInputs (h : bindInputs ids g draft listed = .ok out) :
    out.definition = draft.definition ∧ out.bindings.length = draft.bindings.length := by
  induction listed generalizing draft with
  | nil =>
    cases h
    exact ⟨rfl, rfl⟩
  | cons first rest ih =>
    obtain ⟨index, slot, bound, _, _, _, _, h⟩ := bindInputs_cons_ok_iff.mp h
    obtain ⟨definition, length⟩ := ih h
    exact ⟨definition, length.trans (List.length_set ..)⟩

/-- There is a place for every input. -/
theorem length_bindInputs {d : Definition} {given : List (Option Binding)}
    (h : bindInputs ids g (.start d) listed = .ok ⟨d, given⟩) : given.length = d.inputs.length :=
  (definition_bindInputs h).2.trans (List.length_map ..)

theorem checked_bindInputs (checked : draft.Checked g)
    (h : bindInputs ids g draft listed = .ok out) : out.Checked g := by
  induction listed generalizing draft with
  | nil =>
    cases h
    exact checked
  | cons first rest ih =>
    obtain ⟨binding, _, h⟩ := bind_eq_ok_iff.mp h
    obtain ⟨next, bound, h⟩ := bind_eq_ok_iff.mp h
    exact ih (checked.bind bound) h

theorem bindInputs_ok_iff : (∃ out, bindInputs ids g draft listed = .ok out) ↔
    ∀ entry ∈ listed, entry.2.Fits ids g draft.definition entry.1 := by
  induction listed generalizing draft with
  | nil => simp [bindInputs]
  | cons first rest ih =>
    rw [List.forall_mem_cons]
    constructor
    · rintro ⟨out, h⟩
      obtain ⟨index, slot, bound, at_index, here, gives, checked, h⟩ :=
        bindInputs_cons_ok_iff.mp h
      have later := ih.mp ⟨out, h⟩
      exact ⟨⟨index, slot, bound, at_index, here, gives, checked⟩, later⟩
    · rintro ⟨⟨index, slot, bound, at_index, here, gives, checked⟩, later⟩
      obtain ⟨out, h⟩ := (@ih { draft with bindings := draft.bindings.set index bound }).mpr later
      exact ⟨out, bindInputs_cons_ok_iff.mpr
        ⟨index, slot, bound, at_index, here, gives, checked, h⟩⟩

/-- An input that is not listed stays as it was. -/
theorem getElem?_bindInputs_of_unlisted (h : bindInputs ids g draft listed = .ok out) {k : Nat}
    (unlisted : ∀ input ∈ listed.map (·.1),
      draft.definition.inputs.findIdx? (·.name = input) ≠ some k) :
    out.bindings[k]? = draft.bindings[k]? := by
  induction listed generalizing draft with
  | nil =>
    cases h
    rfl
  | cons first rest ih =>
    obtain ⟨index, slot, bound, at_index, _, _, _, h⟩ := bindInputs_cons_ok_iff.mp h
    rw [List.map_cons, List.forall_mem_cons] at unlisted
    have apart : index ≠ k := by
      rintro rfl
      exact unlisted.1 at_index
    exact (ih h unlisted.2).trans (List.getElem?_set_ne apart)

/-- An input that is listed gets what is listed last under its name. -/
theorem getElem?_bindInputs_of_listed (h : bindInputs ids g draft listed = .ok out)
    (complete : draft.bindings.length = draft.definition.inputs.length)
    (last : listed.reverse.lookup input = some description) :
    ∃ index slot bound, draft.definition.inputs.findIdx? (·.name = input) = some index ∧
      draft.definition.inputs[index]? = some slot ∧ description.Gives ids slot.type bound ∧
      out.bindings[index]? = some (some bound) := by
  induction listed generalizing draft with
  | nil => cases last
  | cons first rest ih =>
    obtain ⟨name, other⟩ := first
    obtain ⟨index, slot, bound, at_index, here, gives, _, bound_rest⟩ :=
      bindInputs_cons_ok_iff.mp h
    rw [List.reverse_cons, List.lookup_append] at last
    cases later : rest.reverse.lookup input with
    | some found =>
      rw [later, Option.some_or] at last
      cases last
      have last := ih bound_rest ((List.length_set ..).trans complete) later
      exact last
    | none =>
      rw [later, Option.none_or, List.lookup_cons] at last
      split at last
      · rename_i same
        cases last
        obtain rfl : input = name := by simpa using same
        -- no later name leads to this index, since the index decides the name
        have unlisted : ∀ name ∈ rest.map (·.1),
            draft.definition.inputs.findIdx? (·.name = name) ≠ some index := by
          intro name mem at_index'
          obtain ⟨_, named, _⟩ := List.findIdx?_eq_some_iff_getElem.mp at_index
          obtain ⟨_, named', _⟩ := List.findIdx?_eq_some_iff_getElem.mp at_index'
          have same : input = name := by
            rw [← of_decide_eq_true named, ← of_decide_eq_true named']
          subst same
          obtain ⟨entry, listed, rfl⟩ := List.mem_map.mp mem
          have absent := List.lookup_eq_none_iff.mp later entry (List.mem_reverse.mpr listed)
          simp at absent
        refine ⟨index, slot, bound, at_index, here, gives, ?_⟩
        rw [getElem?_bindInputs_of_unlisted bound_rest unlisted]
        have inside := (List.getElem?_eq_some_iff.mp here).1
        exact List.getElem?_set_self (complete ▸ inside)
      · cases last

end GraphDescription

/-! ## Keys -/

/-- A graph in which ids were handed out and none was filled. -/
def Graph.blank (count : Nat) : Graph := ⟨⟨Array.replicate count none⟩⟩

theorem Graph.size_blank (count : Nat) : (blank count).size = count := Array.size_replicate

theorem Graph.get?_blank (count : Nat) (id : NodeId) : (blank count).get? id = none := by
  by_cases inside : id.toNat < count <;> simp [get?, Arena.get?, blank, inside]

theorem Build.on_reserve_blank (count : Nat) :
    reserve.on (.blank count) = (.ok (.slot count), .blank (count + 1)) := by
  change (Except.ok (Handle.slot (Graph.blank count).size),
    Graph.mk ⟨(Array.replicate count none).push none⟩) = _
  rw [Graph.size_blank, ← Array.replicate_succ]
  rfl

namespace GraphDescription

/-- The key of each node with the id of its position, counted from a slot on. -/
def keyTable (start : Nat) (nodes : List NodeDescription) : KeyTable :=
  nodes.mapIdx fun i n => (n.key, .slot (start + i))

variable {ids : KeyTable} {nodes : List NodeDescription} {count : Nat}

theorem keyTable_cons (start : Nat) (n : NodeDescription) (nodes : List NodeDescription) :
    keyTable start (n :: nodes) = (n.key, .slot start) :: keyTable (start + 1) nodes := by
  rw [keyTable, List.mapIdx_cons]
  simp [keyTable, Nat.add_assoc, Nat.add_comm 1]

theorem keys_keyTable (start : Nat) (nodes : List NodeDescription) :
    (keyTable start nodes).map (·.1) = nodes.map (·.key) := by
  induction nodes generalizing start with
  | nil => rfl
  | cons n rest ih => rw [keyTable_cons, List.map_cons, List.map_cons, ih]

theorem isSome_lookup_iff {β : Type} {table : List (String × β)} {key : String} :
    (table.lookup key).isSome = true ↔ key ∈ table.map (·.1) := by
  rw [← Option.ne_none_iff_isSome, ne_eq, List.lookup_eq_none_iff]
  simp

theorem reserveKeys_cons_on (n : NodeDescription) :
    (reserveKeys ids (n :: nodes)).on (.blank count) =
      if n.key ∈ ids.map (·.1) then
        (.error (.graph (.duplicateKey n.key)), .blank (count + 1))
      else (reserveKeys (ids ++ [(n.key, .slot count)]) nodes).on (.blank (count + 1)) := by
  rw [reserveKeys, Build.on_bind, Build.on_reserve_blank]
  dsimp only
  simp only [isSome_lookup_iff]
  split <;> rfl

/-- Ids are handed out in the order of the nodes, as long as every key is new. -/
theorem reserveKeys_on (fresh : (ids.map (·.1) ++ nodes.map (·.key)).Nodup) :
    (reserveKeys ids nodes).on (.blank count) =
      (.ok (ids ++ keyTable count nodes), .blank (count + nodes.length)) := by
  induction nodes generalizing ids count with
  | nil =>
    rw [reserveKeys, keyTable, List.mapIdx_nil, List.append_nil]
    rfl
  | cons n rest ih =>
    rw [List.map_cons] at fresh
    have new : n.key ∉ ids.map (·.1) := fun mem =>
      (List.nodup_append.mp fresh).2.2 _ mem _ List.mem_cons_self rfl
    have later : ((ids ++ [(n.key, Handle.slot count)]).map (·.1) ++ rest.map (·.key)).Nodup := by
      simpa using fresh
    rw [reserveKeys_cons_on, if_neg new, ih later, keyTable_cons, List.append_assoc,
      List.length_cons, Nat.add_right_comm, Nat.add_assoc]
    rfl

theorem reserveKeys_on_empty (distinct : (nodes.map (·.key)).Nodup) :
    (reserveKeys [] nodes).on .empty = (.ok (keyTable 0 nodes), .blank nodes.length) := by
  have reserved := @reserveKeys_on [] nodes 0 (by simpa using distinct)
  rwa [List.nil_append, Nat.zero_add] at reserved

/-- The first key that has come before is refused. -/
theorem reserveKeys_duplicate (distinct : (ids.map (·.1)).Nodup)
    (repeated : ¬ (ids.map (·.1) ++ nodes.map (·.key)).Nodup) :
    ∃ before n after, nodes = before ++ n :: after ∧
      n.key ∈ ids.map (·.1) ++ before.map (·.key) ∧
      ((reserveKeys ids nodes).on (.blank count)).1 = .error (.graph (.duplicateKey n.key)) := by
  induction nodes generalizing ids count with
  | nil => simp [distinct] at repeated
  | cons n rest ih =>
    rw [reserveKeys_cons_on]
    by_cases here : n.key ∈ ids.map (·.1)
    · exact ⟨[], n, rest, rfl, List.mem_append_left _ here, by rw [if_pos here]⟩
    · rw [if_neg here]
      have distinct' : ((ids ++ [(n.key, Handle.slot count)]).map (·.1)).Nodup := by
        rw [List.map_append, List.nodup_append]
        refine ⟨distinct, List.nodup_singleton _, ?_⟩
        rintro key mem _ last rfl
        rw [List.mem_singleton.mp last] at mem
        exact here mem
      obtain ⟨before, other, after, rfl, mem, refused⟩ :=
        @ih _ (count + 1) distinct' (by simpa using repeated)
      exact ⟨n :: before, other, after, rfl, by simpa using mem, refused⟩

end GraphDescription

/-! ## Nodes -/

/-- All open inputs pass their check exactly if each of them has a fallback that can fill it. -/
theorem Draft.checkOpen_openInputs_iff {d : Definition} {given : List (Option Binding)}
    {owner : String} (complete : given.length = d.inputs.length) :
    Definition.checkOpen owner (Draft.mk d given).openInputs = .ok () ↔
      Definition.Supplied owner d.inputs given := by
  rw [Definition.checkOpen_eq_ok_iff]
  constructor
  · intro h k input at_k free
    have inside := (List.getElem?_eq_some_iff.mp at_k).1
    have here : given[k]? = some none := by
      rw [List.getElem?_eq_getElem (complete ▸ inside)] at free ⊢
      exact congrArg some free
    have zipped : (d.inputs.zip given)[k]? = some (input, none) :=
      List.getElem?_zip_eq_some.mpr ⟨at_k, here⟩
    have mem := List.mem_of_getElem? zipped
    exact h input (List.mem_map.mpr ⟨_, List.mem_filter.mpr ⟨mem, rfl⟩, rfl⟩)
  · intro h input mem
    obtain ⟨⟨_, binding⟩, listed, rfl⟩ := List.mem_map.mp mem
    obtain ⟨zipped, free⟩ := List.mem_filter.mp listed
    obtain ⟨k, at_k⟩ := List.getElem?_of_mem zipped
    obtain ⟨input_k, binding_k⟩ := List.getElem?_zip_eq_some.mp at_k
    refine h k _ input_k ?_
    rw [binding_k]
    simpa using free

theorem Build.on_discard {α : Type} (step : Build α) (g : Graph) :
    (discard step).on g = ((step.on g).1.map fun _ => (), (step.on g).2) := by
  have ran : (discard step).on g = (step >>= fun _ => pure ()).on g := by
    simp only [Functor.discard, map_const, Function.comp, map_eq_pure_bind]
  rw [ran, on_bind]
  cases step.on g with
  | mk result g' => cases result <;> rfl

theorem Build.on_discard_ok_iff {α : Type} {step : Build α} {g g' : Graph} :
    (discard step).on g = (.ok (), g') ↔ ∃ a, step.on g = (.ok a, g') := by
  rw [on_discard]
  cases step.on g with
  | mk result middle => cases result <;> simp [Except.map]

namespace GraphDescription

variable {registry : Registry} {ids : KeyTable} {n : NodeDescription} {g g' : Graph}
variable {nodes : List NodeDescription}

/-- Making the node of one key: its inputs are bound on the graph as it is, the open ones are
filled, and the node comes under the id of the key. -/
inductive Defines (registry : Registry) (ids : KeyTable) (n : NodeDescription) (g : Graph) :
    Graph → Prop where
  | intro {factory : Factory} {id : NodeId} {given : List (Option Binding)}
      {bindings : List Binding} {middle : Graph} {filled : Arena Node}
      (known : registry.find? n.factory = some factory) (reserved : ids.lookup n.key = some id)
      (bound : bindInputs ids g (.start factory.definition) n.inputs =
        .ok ⟨factory.definition, given⟩)
      (pending : g.Pending id)
      (supplied : Definition.Supplied factory.definition.name factory.definition.inputs given)
      (fills : (Definition.fillOpen factory.definition.name factory.definition.inputs given).on g =
        (.ok bindings, middle))
      (defined : middle.nodes.define id ⟨factory.definition, bindings⟩ = .ok filled) :
    Defines registry ids n g ⟨filled⟩

theorem resolve_on_ok_iff {draft : Draft} {node : Node}
    (complete : draft.bindings.length = draft.definition.inputs.length) :
    draft.resolve.on g = (.ok node, g') ↔ ∃ bindings,
      Definition.Supplied draft.definition.name draft.definition.inputs draft.bindings ∧
        (Definition.fillOpen draft.definition.name draft.definition.inputs draft.bindings).on g =
          (.ok bindings, g') ∧ node = ⟨draft.definition, bindings⟩ := by
  rw [Draft.resolve, Build.on_bind_eq_ok_iff, ← Draft.checkOpen_openInputs_iff complete]
  constructor
  · rintro ⟨_, _, checked, h⟩
    rw [Build.on_check] at checked
    obtain ⟨passed, rfl⟩ := Prod.mk.inj checked
    obtain ⟨bindings, _, filled, answer⟩ := Build.on_bind_eq_ok_iff.mp h
    cases answer
    exact ⟨bindings, passed, filled, rfl⟩
  · rintro ⟨bindings, passed, filled, rfl⟩
    refine ⟨(), g, by rw [Build.on_check, passed], ?_⟩
    exact Build.on_bind_eq_ok_iff.mpr ⟨bindings, g', filled, rfl⟩

theorem define_on_ok_iff {draft : Draft} {id : NodeId} :
    (∃ made, (draft.define id).on g = (.ok made, g')) ↔ g.Pending id ∧ ∃ node middle filled,
      draft.resolve.on g = (.ok node, middle) ∧ middle.nodes.define id node = .ok filled ∧
      g' = ⟨filled⟩ := by
  by_cases pending : g.Pending id
  · rw [Draft.define_reserved pending.1 pending.2]
    simp only [Build.on_bind_eq_ok_iff]
    constructor
    · rintro ⟨_, node, middle, resolved, made⟩
      rw [Build.on_define] at made
      cases filled : middle.nodes.define id node with
      | error e => simp [filled] at made
      | ok nodes =>
        simp only [filled] at made
        cases made
        exact ⟨pending, node, middle, nodes, resolved, filled, rfl⟩
    · rintro ⟨_, node, middle, nodes, resolved, filled, rfl⟩
      exact ⟨id, node, middle, resolved, by rw [Build.on_define, filled]⟩
  · obtain ⟨error, refused⟩ := Draft.define_refused draft (not_and.mp pending)
    simp [refused, pending]

theorem defineNode_on_ok_iff :
    (defineNode registry ids n).on g = (.ok (), g') ↔ Defines registry ids n g g' := by
  have opened {factory : Factory} {id : NodeId} (known : registry.find? n.factory = some factory)
      (reserved : ids.lookup n.key = some id) :
      (defineNode registry ids n).on g = (.ok (), g') ↔
        ∃ draft, bindInputs ids g (.start factory.definition) n.inputs = .ok draft ∧
          ∃ made, (draft.define id).on g = (.ok made, g') := by
    rw [defineNode, known, reserved]
    dsimp only
    rw [Build.on_bind_eq_ok_iff]
    constructor
    · rintro ⟨draft, middle, checked, made⟩
      rw [Build.on_check] at checked
      obtain ⟨bound, rfl⟩ := Prod.mk.inj checked
      exact ⟨draft, bound, Build.on_discard_ok_iff.mp made⟩
    · rintro ⟨draft, bound, made⟩
      exact ⟨draft, g, by rw [Build.on_check, bound], Build.on_discard_ok_iff.mpr made⟩
  constructor
  · intro h
    cases known : registry.find? n.factory with
    | none =>
      rw [defineNode, known] at h
      cases h
    | some factory =>
      cases reserved : ids.lookup n.key with
      | none =>
        rw [defineNode, known, reserved] at h
        cases h
      | some id =>
        obtain ⟨⟨definition, given⟩, bound, made⟩ := (opened known reserved).mp h
        obtain ⟨pending, node, middle, filled, resolved, defined, rfl⟩ := define_on_ok_iff.mp made
        obtain rfl : definition = factory.definition := (definition_bindInputs bound).1
        have complete := length_bindInputs bound
        obtain ⟨bindings, supplied, fills, rfl⟩ := (resolve_on_ok_iff complete).mp resolved
        exact .intro known reserved bound pending supplied fills defined
  · rintro ⟨known, reserved, bound, pending, supplied, fills, defined⟩
    refine (opened known reserved).mpr ⟨_, bound, define_on_ok_iff.mpr ⟨pending, ?_⟩⟩
    exact ⟨_, _, _, (resolve_on_ok_iff (length_bindInputs bound)).mpr ⟨_, supplied, fills, rfl⟩,
      defined, rfl⟩

theorem defineNodes_cons_on_ok_iff :
    (defineNodes registry ids (n :: nodes)).on g = (.ok (), g') ↔
      ∃ middle, Defines registry ids n g middle ∧
        (defineNodes registry ids nodes).on middle = (.ok (), g') := by
  rw [defineNodes, Build.on_bind_eq_ok_iff]
  constructor
  · rintro ⟨_, middle, made, rest⟩
    exact ⟨middle, defineNode_on_ok_iff.mp made, rest⟩
  · rintro ⟨middle, made, rest⟩
    exact ⟨(), middle, defineNode_on_ok_iff.mpr made, rest⟩

/-- What is filled is a checked node on a graph that has only grown. -/
theorem Defines.checked (h : Defines registry ids n g g') : ∃ middle id node filled,
    g.Grows middle ∧ node.Checked middle ∧ middle.nodes.define id node = .ok filled ∧
      g' = ⟨filled⟩ := by
  obtain @⟨factory, id, given, bindings, middle, filled, _, _, bound, _, _, fills, defined⟩ := h
  obtain ⟨grows, complete, fits⟩ :=
    Definition.grows_of_fillOpen (checked_bindInputs (Draft.checked_start _) bound) fills
  exact ⟨middle, id, ⟨factory.definition, bindings⟩, filled, grows, ⟨complete, fits⟩, defined, rfl⟩

theorem Defines.keeps (h : Defines registry ids n g g') : g.Keeps g' := by
  obtain ⟨_, _, _, _, grows, _, defined, rfl⟩ := h.checked
  exact grows.keeps.trans (Graph.keeps_define defined)

theorem keeps_defineNodes (h : (defineNodes registry ids nodes).on g = (.ok (), g')) :
    g.Keeps g' := by
  induction nodes generalizing g with
  | nil =>
    cases h
    exact .refl _
  | cons n rest ih =>
    obtain ⟨middle, made, h⟩ := defineNodes_cons_on_ok_iff.mp h
    exact made.keeps.trans (ih h)

/-- Every node is made at some point, on a graph that is kept from then on. -/
theorem exists_defines (h : (defineNodes registry ids nodes).on g = (.ok (), g')) (mem : n ∈ nodes) :
    ∃ before after, g.Keeps before ∧ Defines registry ids n before after ∧ after.Keeps g' := by
  induction nodes generalizing g with
  | nil => cases mem
  | cons first rest ih =>
    obtain ⟨middle, made, later⟩ := defineNodes_cons_on_ok_iff.mp h
    rcases List.mem_cons.mp mem with rfl | mem
    · exact ⟨g, middle, .refl _, made, keeps_defineNodes later⟩
    · obtain ⟨before, after, kept, made', kept'⟩ := ih later mem
      exact ⟨before, after, made.keeps.trans kept, made', kept'⟩

end GraphDescription

/-! ## The whole build -/

namespace GraphDescription

variable {registry : Registry} {g : Graph}
variable {d : GraphDescription} {built : BuiltGraph}

theorem build_on_ok_iff : (build registry d).on .empty = (.ok built, g) ↔
    (d.nodes.map (·.key)).Nodup ∧
      (defineNodes registry (keyTable 0 d.nodes) d.nodes).on (.blank d.nodes.length) =
        (.ok (), g) ∧
      built.ids = keyTable 0 d.nodes ∧ built.ids.lookup d.root = some built.root := by
  rw [build, Build.on_bind]
  by_cases distinct : (d.nodes.map (·.key)).Nodup
  · rw [reserveKeys_on_empty distinct]
    dsimp only
    rw [Build.on_bind_eq_ok_iff]
    constructor
    · rintro ⟨_, middle, defined, found⟩
      split at found
      · rename_i root known
        cases found
        exact ⟨distinct, defined, rfl, known⟩
      · cases found
    · rintro ⟨_, defined, ids, root⟩
      obtain ⟨id, table⟩ := built
      obtain rfl : table = keyTable 0 d.nodes := ids
      refine ⟨(), g, defined, ?_⟩
      rw [root]
      rfl
  · obtain ⟨before, n, after, _, _, refused⟩ :=
      @reserveKeys_duplicate [] d.nodes 0 List.nodup_nil (by simpa using distinct)
    constructor
    · intro h
      cases ran : (reserveKeys [] d.nodes).on .empty with
      | mk result middle =>
        have empty : Graph.empty = .blank 0 := rfl
        rw [← empty, ran] at refused
        rw [ran] at h
        cases refused
        cases h
    · exact fun h => absurd h.1 distinct

/-- A repeated key is refused before any node is made. -/
theorem build_duplicate (repeated : ¬ (d.nodes.map (·.key)).Nodup) :
    ∃ before n after, d.nodes = before ++ n :: after ∧ n.key ∈ before.map (·.key) ∧
      ((build registry d).on .empty).1 = .error (.graph (.duplicateKey n.key)) := by
  have empty : Graph.empty = .blank 0 := rfl
  obtain ⟨before, n, after, split, mem, refused⟩ :=
    @reserveKeys_duplicate [] d.nodes 0 List.nodup_nil (by simpa using repeated)
  refine ⟨before, n, after, split, by simpa using mem, ?_⟩
  rw [build, Build.on_bind, empty]
  cases ran : (reserveKeys [] d.nodes).on (.blank 0) with
  | mk result middle =>
    rw [ran] at refused
    cases refused
    rfl

end GraphDescription

end ParticleShading
