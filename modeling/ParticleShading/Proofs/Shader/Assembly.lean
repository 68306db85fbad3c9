import ParticleShading.Proofs.Shader.Agreement
import ParticleShading.Proofs.Shader.DeclarationOrder

/-!
# Descriptions assembled node by node

`GraphDescription.build` hands out the ids of all keys and then fills them, with
the default trees of all nodes behind them. `GraphDescription.assemble` inserts
one node after another and looks references up among the ids handed out so far.
Where references lead backwards the two run in step: every id differs, and a
relation between the ids grows with each node so that the graphs match. So both
fail with one error, or both roots compile to the same.
-/

namespace ParticleShading

namespace GraphDescription

/-- Inserts the node of one key. -/
def insertNode (registry : Registry) (ids : KeyTable) (node : NodeDescription) : Build NodeId := do
  match registry.find? node.factory with
  | some factory =>
    let draft ← Build.check fun g => bindInputs ids g (Draft.start factory.definition) node.inputs
    draft.insert
  | none => throw (.unknownFactory node.factory)

/-- Inserts nodes in their order, with the ids of those before them. -/
def insertNodes (registry : Registry) (ids : KeyTable) : List NodeDescription → Build KeyTable
  | [] => return ids
  | node :: rest => do
    let id ← insertNode registry ids node
    insertNodes registry (ids ++ [(node.key, id)]) rest

/-- Inserts all nodes and finds the root. -/
def assemble (registry : Registry) (d : GraphDescription) : Build BuiltGraph := do
  let ids ← insertNodes registry [] d.nodes
  match ids.lookup d.root with
  | some root => return ⟨root, ids⟩
  | none => throw (.graph (.unknownKey d.root))

/-- Keys are different, the root is one of them, and references lead to keys declared before. -/
structure Backward (d : GraphDescription) : Prop where
  distinct : (d.nodes.map (·.key)).Nodup
  root : d.root ∈ d.nodes.map (·.key)
  earlier : ∀ before n after, d.nodes = before ++ n :: after →
    ∀ input key output, (input, .node key output) ∈ n.inputs → key ∈ before.map (·.key)

/-- Some nodes are filled on one side and inserted on the other, and `rest` is to come: the graphs
match, the keys so far have related ids, and those to come have pending ids of their own, which
make up the difference in slots. -/
structure Abreast (M : NodeId → NodeId → Prop) (ids made : KeyTable) (rest : List NodeDescription)
    (g h : Graph) : Prop where
  matching : g.Matching h M
  tables : KeysMatch M ids made
  pending : ∀ n ∈ rest, ∃ id, ids.lookup n.key = some id ∧ g.Pending id
  distinct : (rest.map fun n => ids.lookup n.key).Nodup
  size : g.size = h.size + rest.length

variable {registry : Registry} {M M' : NodeId → NodeId → Prop} {ids made : KeyTable}
variable {n : NodeDescription} {rest : List NodeDescription} {g h g' h' : Graph}

theorem ready_bindInputs {d : Definition} {draft : Draft}
    {listed : List (String × BindingDescription)}
    (bound : bindInputs ids g (.start d) listed = .ok draft) : draft.Ready g := by
  obtain ⟨definition, length⟩ := definition_bindInputs bound
  refine ⟨checked_bindInputs (Draft.checked_start d) bound, ?_⟩
  rw [length, definition]
  exact List.length_map _

/-- One more key has related ids. -/
theorem KeysMatch.concat {key : String} {id id' : NodeId} (tables : KeysMatch M ids made)
    (more : ∀ a b, M a b → M' a b) (reserved : ids.lookup key = some id) (related : M' id id') :
    KeysMatch M' ids (made ++ [(key, id')]) := by
  intro other listed
  rw [List.lookup_append]
  by_cases old : other ∈ made.map (·.1)
  · obtain ⟨a, b, known, known', before⟩ := tables other old
    exact ⟨a, b, known, by rw [known', Option.some_or], more a b before⟩
  · have latest : other = key := by simpa [old] using listed
    subst latest
    have absent : made.lookup other = none := by
      rw [← Option.not_isSome_iff_eq_none, isSome_lookup_iff]
      exact old
    exact ⟨id, id', reserved, by simp [absent], related⟩

namespace Abreast

/-- A node that is filled on one side and inserted on the other joins both graphs. -/
theorem join {id id' : NodeId} {fresh fresh' : List Node} {node node' : Node}
    (abreast : Abreast M ids made (n :: rest) g h) (reserved : ids.lookup n.key = some id)
    (fills : g.Fills fresh node id g') (appends : h.Appends fresh' node' id' h')
    (length : fresh'.length = fresh.length)
    (matching : g'.Matching h' (M ⊔ Graph.Added g.size h.size fresh.length id id')) :
    Abreast (M ⊔ Graph.Added g.size h.size fresh.length id id') ids (made ++ [(n.key, id')]) rest
      g' h' := by
  obtain ⟨apart, distinct⟩ := List.nodup_cons.mp abreast.distinct
  refine ⟨matching, abreast.tables.concat (fun _ _ => Or.inl) reserved (Or.inr .made), ?_, distinct,
    ?_⟩
  · -- the ids to come are other ids, so this one is the only one that is filled
    intro m later
    obtain ⟨other, reserved', issued, empty⟩ := abreast.pending m (List.mem_cons_of_mem _ later)
    have untouched : g'.get? other = g.get? other := by
      refine fills.others other issued ?_
      rintro rfl
      exact apart (List.mem_map.mpr ⟨m, later, reserved'.trans reserved.symm⟩)
    exact ⟨other, reserved', fills.keeps.issued issued, untouched.trans empty⟩
  · rw [fills.size, appends.size, abreast.size, List.length_cons]
    omega

/-- One node is refused on both sides with one error, or it joins both graphs. -/
theorem step (abreast : Abreast M ids made (n :: rest) g h)
    (known : ∀ input key output, (input, .node key output) ∈ n.inputs → key ∈ made.map (·.1))
    (small : ((defineNode registry ids n).on g).2.size ≤ UInt32.size) :
    Build.InStep (fun _ g' id' h' => ∃ M', Abreast M' ids (made ++ [(n.key, id')]) rest g' h')
      (defineNode registry ids n) g (insertNode registry made n) h := by
  obtain ⟨id, reserved, pending⟩ := abreast.pending n List.mem_cons_self
  cases found : registry.find? n.factory with
  | none =>
    refine Or.inl ⟨.unknownFactory n.factory, g, h, ?_, ?_⟩
    · rw [defineNode, found]
      rfl
    · rw [insertNode, found]
      rfl
  | some factory =>
    have bound := bindInputs_sameOutcome abreast.matching abreast.tables
      (Draft.matches_start factory.definition) known
    have behind : h.size < g.size := by
      rw [abreast.size, List.length_cons]
      omega
    rw [defineNode, insertNode, found, reserved]
    dsimp only
    refine Build.InStep.check_bind bound fun draft draft' all all' drafts => Build.InStep.discard ?_
    rw [defineNode_on found reserved all, Build.on_discard] at small
    refine (drafts.define_insert abreast.matching (ready_bindInputs all) (ready_bindInputs all')
      pending behind small).imp ?_
    rintro _ g' id' h' ⟨_, _, _, _, fills, appends, length, matching⟩
    exact ⟨_, abreast.join reserved fills appends length matching⟩

/-- All nodes to come join both graphs, or one of them is refused on both sides. -/
theorem run (abreast : Abreast M ids made rest g h)
    (earlier : ∀ before n after, rest = before ++ n :: after → ∀ input key output,
      (input, .node key output) ∈ n.inputs → key ∈ made.map (·.1) ++ before.map (·.key))
    (small : ((defineNodes registry ids rest).on g).2.size ≤ UInt32.size) :
    Build.InStep (fun _ g' made' h' => ∃ M', Abreast M' ids made' [] g' h' ∧
        made'.map (·.1) = made.map (·.1) ++ rest.map (·.key))
      (defineNodes registry ids rest) g (insertNodes registry made rest) h := by
  induction rest generalizing M made g h with
  | nil => exact Or.inr ⟨(), g, made, h, rfl, rfl, M, abreast, by simp⟩
  | cons n rest ih =>
    rw [defineNodes] at small
    have small' : ((defineNode registry ids n).on g).2.size ≤ UInt32.size :=
      Nat.le_trans (Build.size_le_bind fun _ _ _ => size_le_defineNodes) small
    have first := abreast.step (fun input key output listed => by
      simpa using earlier [] n rest rfl input key output listed) small'
    rw [defineNodes, insertNodes]
    refine first.bind ?_
    rintro _ g' id' h' ran ⟨M', abreast'⟩
    rw [Build.on_bind, ran] at small
    refine (ih abreast' ?_ small).imp ?_
    · rintro before m after rfl input key output listed
      simpa using earlier (n :: before) m after rfl input key output listed
    · rintro _ g'' made' h'' ⟨M'', abreast'', keys⟩
      exact ⟨M'', abreast'', by simpa using keys⟩

end Abreast

variable {d : GraphDescription}

/-- Before any node is made no ids are related. -/
theorem abreast_blank (distinct : (d.nodes.map (·.key)).Nodup)
    (enough : d.nodes.length ≤ UInt32.size) :
    Abreast (fun _ _ => False) (keyTable 0 d.nodes) [] d.nodes (.blank d.nodes.length) .empty := by
  have partway := @partway_blank .empty d.nodes distinct enough
  refine ⟨⟨by simp, by simp⟩, by simp [KeysMatch], ?_, ?_, ?_⟩
  · intro n mem
    obtain ⟨id, reserved, issued⟩ := partway.issued n mem
    exact ⟨id, reserved, issued, partway.pending n mem id reserved⟩
  · exact distinct.of_map.map_on fun n mem m mem' same => partway.distinct n mem m mem' same
  · rw [Graph.size_blank]
    exact (Nat.zero_add _).symm

/-- A description whose references lead backwards is built and assembled in step. -/
theorem Backward.inStep (backward : d.Backward)
    (small : ((build registry d).on .empty).2.size ≤ UInt32.size) :
    Build.InStep (fun built g assembled h => ∃ M, g.Matching h M ∧ M built.root assembled.root)
      (build registry d) .empty (assemble registry d) .empty := by
  have small' := Nat.le_trans (size_defineNodes_le_build backward.distinct) small
  have enough : d.nodes.length ≤ UInt32.size := by
    have grown := Nat.le_trans size_le_defineNodes small'
    rwa [Graph.size_blank] at grown
  have made := (abreast_blank backward.distinct enough).run
    (by simpa using backward.earlier) small'
  rw [build, assemble]
  refine Build.InStep.after (reserveKeys_on_empty backward.distinct) (made.bind ?_)
  rintro _ g made' h _ ⟨M, abreast, keys⟩
  obtain ⟨root, root', reserved, inserted, related⟩ :=
    abreast.tables d.root (by rw [keys]; exact backward.root)
  simp only [reserved, inserted]
  exact Or.inr ⟨_, g, _, h, rfl, rfl, M, abreast.matching, related⟩

/-- Descriptions and single insertions agree, as long as the ids last: they are 32 bits wide, and
past the last one two keys would share it. If references lead backwards, a description is built
exactly if its nodes can be inserted one after another, and both are refused with one error. Both
roots compile to the same sources, uniforms and number of nodes, or neither compiles. -/
theorem build_assembles {registry : Registry} {d : GraphDescription} (backward : d.Backward)
    (small : ((build registry d).on .empty).2.size ≤ UInt32.size) :
    ((∃ built, ((build registry d).on .empty).1 = .ok built) ↔
      ∃ assembled, ((assemble registry d).on .empty).1 = .ok assembled) ∧
    (∀ error, ((build registry d).on .empty).1 = .error error ↔
      ((assemble registry d).on .empty).1 = .error error) ∧
    ∀ built g assembled h, (build registry d).on .empty = (.ok built, g) →
      (assemble registry d).on .empty = (.ok assembled, h) → ∀ config,
        ((∃ shader, g.compile config built.root = .ok shader) ↔
          ∃ shader', h.compile config assembled.root = .ok shader') ∧
        ∀ shader shader', g.compile config built.root = .ok shader →
          h.compile config assembled.root = .ok shader' →
            shader'.vertex.text = shader.vertex.text ∧
              shader'.fragment.text = shader.fragment.text ∧
              shader'.uniforms = shader.uniforms ∧ shader'.nodeCount = shader.nodeCount := by
  have run := backward.inStep small
  refine ⟨run.ok_iff, run.error_iff, ?_⟩
  intro built g assembled h ran ran' config
  obtain ⟨M, matching, roots⟩ := run.related ran ran'
  obtain ⟨succeeds, same⟩ := matching.compile roots config
  refine ⟨succeeds, ?_⟩
  intro shader shader' compiled compiled'
  have written := same shader shader' compiled compiled'
  simpa only [CompiledShader.written, Prod.mk.injEq] using written

theorem backward_waveScaled : waveScaled.Backward := by
  refine ⟨by decide, by decide, ?_⟩
  rintro before n after split input key output listed
  rcases before with _ | ⟨first, _ | ⟨second, before⟩⟩
  · obtain ⟨rfl, _⟩ := List.cons.inj split
    simp at listed
  · obtain ⟨rfl, later⟩ := List.cons.inj split
    obtain ⟨rfl, _⟩ := List.cons.inj later
    simp at listed
    simp [listed]
  · have lengths := congrArg List.length split
    simp [waveScaled, scaledWave] at lengths

theorem assemble_waveScaled : (assemble waves waveScaled).on .empty =
    (.ok ⟨⟨2⟩, [("wave", ⟨1⟩), ("scaled", ⟨2⟩)]⟩,
      ⟨⟨#[some ⟨Library.time, []⟩,
        some ⟨Library.sineWave, [.node ⟨0⟩, .literal (.float 2), .literal (.float 1)]⟩,
        some ⟨Library.scale .float, [.node ⟨1⟩, .literal (.float 1)]⟩]⟩⟩) := rfl

/-- The clock comes before the wave on one side and behind both keys on the other. -/
theorem build_assembles_waveScaled :
    ∃ built g shader assembled h shader',
      (build waves waveScaled).on .empty = (.ok built, g) ∧
      g.compile ⟨[⟨.fragment, "csm_DiffuseColor = vec3({value});"⟩], true⟩ built.root = .ok shader ∧
      (assemble waves waveScaled).on .empty = (.ok assembled, h) ∧
      h.compile ⟨[⟨.fragment, "csm_DiffuseColor = vec3({value});"⟩], true⟩ assembled.root =
        .ok shader' ∧
      assembled.root ≠ built.root ∧ shader'.fragment.text = shader.fragment.text ∧
      shader'.nodeCount = 3 := by
  have small : ((build waves waveScaled).on .empty).2.size ≤ UInt32.size := by
    rw [build_waveScaled]
    decide
  obtain ⟨_, _, agree⟩ := build_assembles backward_waveScaled small
  obtain ⟨succeeds, same⟩ := agree _ _ _ _ build_waveScaled assemble_waveScaled
    ⟨[⟨.fragment, "csm_DiffuseColor = vec3({value});"⟩], true⟩
  have count : (((build waves waveScaled).on .empty).2.compile
      ⟨[⟨.fragment, "csm_DiffuseColor = vec3({value});"⟩], true⟩ ⟨1⟩).toOption.map
        (·.nodeCount) = some 3 := by
    rw [build_waveScaled]
    dsimp only
    cbv
  rw [build_waveScaled] at count
  obtain ⟨shader, compiled, nodes⟩ := exists_ok_of_toOption_map count
  obtain ⟨shader', compiled'⟩ := succeeds.mp ⟨shader, compiled⟩
  obtain ⟨_, fragment, _, counts⟩ := same shader shader' compiled compiled'
  exact ⟨_, _, shader, _, _, shader', build_waveScaled, compiled, assemble_waveScaled, compiled',
    by decide, fragment, counts.trans nodes⟩

end GraphDescription

end ParticleShading
