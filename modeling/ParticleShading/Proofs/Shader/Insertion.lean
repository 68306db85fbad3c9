import ParticleShading.Proofs.Shader.DefaultTrees
import ParticleShading.Proofs.Shader.Descriptions

/-!
# Inserting and defining

What an insertion or a definition leaves behind, whether it fails or succeeds.
All that can fail is looked at before the first fallback node is made: the
bindings one by one, the id that is to be filled, and the open inputs all the
way down. After that every step succeeds, so a failure changes nothing, and a
success adds the default trees of the open inputs and the node that reads them.
Ids saturate, so this holds as long as a graph has no more slots than there are
ids.
-/

namespace ParticleShading

/-! ## What is bound -/

/-- What was bound last under the name of each input. Only the first input of a name is bound. -/
def Definition.lastBound (d : Definition) (bindings : List (String × Binding)) :
    List (Option Binding) :=
  d.inputs.mapIdx fun k input =>
    if d.inputs.findIdx? (·.name = input.name) = some k then bindings.reverse.lookup input.name
    else none

/-- Of what was bound, each input has what its type makes of it, and nothing was refused. -/
def Definition.Takes (inputs : List (Input Definition)) (raw given : List (Option Binding)) :
    Prop :=
  ∀ (k : Nat) (input : Input Definition), inputs[k]? = some input →
    raw[k]?.join.map (·.coerce? input.type) = given[k]?.join.map some

theorem Definition.Takes.open_iff {inputs : List (Input Definition)}
    {raw given : List (Option Binding)} (takes : Takes inputs raw given) {k : Nat}
    {input : Input Definition} (at_k : inputs[k]? = some input) :
    raw[k]?.join = none ↔ given[k]?.join = none := by
  have same := takes k input at_k
  cases here : raw[k]?.join with
  | none => cases there : given[k]?.join <;> simp_all
  | some binding => cases there : given[k]?.join <;> simp_all

theorem Definition.getElem?_lastBound {d : Definition} {bindings : List (String × Binding)}
    {k : Nat} {input : Input Definition} (at_k : d.inputs[k]? = some input) :
    (d.lastBound bindings)[k]?.join =
      if d.inputs.findIdx? (·.name = input.name) = some k then bindings.reverse.lookup input.name
      else none := by
  rw [lastBound, List.getElem?_mapIdx, at_k]
  rfl

namespace Draft

variable {g : Graph} {d : Definition} {draft next : Draft}

theorem bindAll_concat (draft : Draft) (bindings : List (String × Binding)) (input : String)
    (binding : Binding) : draft.bindAll g (bindings ++ [(input, binding)]) =
      draft.bindAll g bindings >>= fun bound => bound.bind g input binding := by
  induction bindings generalizing draft with
  | nil =>
    have only : draft.bindAll g [(input, binding)] = draft.bind g input binding >>= pure := rfl
    rw [List.nil_append, only, bind_pure]
    rfl
  | cons first rest ih =>
    rw [List.cons_append, bindAll, bindAll, bind_assoc]
    exact congrArg _ (funext fun bound => ih bound)

/-- Binding one input more sets the first input of the name and leaves the others. -/
theorem takes_bind {bindings : List (String × Binding)} {input : String} {binding : Binding}
    (complete : draft.bindings.length = draft.definition.inputs.length)
    (takes : Definition.Takes draft.definition.inputs (draft.definition.lastBound bindings)
      draft.bindings)
    (h : draft.bind g input binding = .ok next) :
    Definition.Takes draft.definition.inputs
      (draft.definition.lastBound (bindings ++ [(input, binding)])) next.bindings := by
  obtain ⟨index, slot, bound, at_index, here, made, _, rfl⟩ := bind_ok_iff.mp h
  have named : slot.name = input := by
    have found := Definition.findInput?_eq_some at_index here
    simpa using List.find?_some found
  intro k other at_k
  have before := takes k other at_k
  rw [Definition.getElem?_lastBound at_k] at before ⊢
  rw [List.reverse_concat, List.lookup_cons]
  by_cases same : k = index
  · subst same
    obtain rfl : slot = other := Option.some.inj (here.symm.trans at_k)
    have inside := (List.getElem?_eq_some_iff.mp here).1
    rw [named, if_pos at_index, List.getElem?_set_self (complete ▸ inside)]
    simp [made]
  · rw [List.getElem?_set_ne (Ne.symm same)]
    rw [← before]
    by_cases first : draft.definition.inputs.findIdx? (·.name = other.name) = some k
    · have apart : (other.name == input) = false := by
        rw [beq_eq_false_iff_ne]
        rintro rfl
        exact same (Option.some.inj (first.symm.trans at_index))
      rw [apart]
    · rw [if_neg first, if_neg first]

theorem takes_bindAll {bindings : List (String × Binding)}
    (h : (start d).bindAll g bindings = .ok draft) :
    draft.definition = d ∧ draft.bindings.length = d.inputs.length ∧
      Definition.Takes d.inputs (d.lastBound bindings) draft.bindings := by
  induction bindings using List.reverseRecOn generalizing draft with
  | nil =>
    cases h
    refine ⟨rfl, List.length_map _, ?_⟩
    intro k input at_k
    have blank : (start d).bindings[k]? = some none := by
      rw [start, List.getElem?_map, at_k]
      rfl
    rw [Definition.getElem?_lastBound at_k, blank]
    simp
  | append_singleton bindings last ih =>
    rw [bindAll_concat, bind_eq_ok_iff] at h
    obtain ⟨bound, before, h⟩ := h
    obtain ⟨rfl, complete, takes⟩ := ih before
    obtain ⟨_, _, _, _, _, _, _, same⟩ := bind_ok_iff.mp h
    refine ⟨by rw [same], ?_, takes_bind complete takes h⟩
    rw [same, List.length_set, complete]

end Draft

/-! ## Resolution -/

/-- A step that succeeds unless it runs out of ids. -/
def Build.Succeeds {α : Type} (step : Build α) (g : Graph) : Prop :=
  (step.on g).2.size ≤ UInt32.size → ∃ a, (step.on g).1 = .ok a

/-- A step that leaves the graph as it was if it fails, unless it runs out of ids. -/
def Build.Atomic {α : Type} (step : Build α) (g : Graph) : Prop :=
  ∀ error g', step.on g = (.error error, g') → g'.size ≤ UInt32.size → g' = g

namespace Draft

variable {g : Graph} {draft : Draft} {α : Type} {next : Node → Build α}

/-- A draft that binds inputs of its definition to what has passed the checks of a graph. -/
structure Ready (g : Graph) (draft : Draft) : Prop where
  checked : draft.Checked g
  complete : draft.bindings.length = draft.definition.inputs.length

theorem ready_bindAll {d : Definition} {bindings : List (String × Binding)}
    (h : (start d).bindAll g bindings = .ok draft) : draft.Ready g := by
  obtain ⟨rfl, complete, _⟩ := takes_bindAll h
  exact ⟨(checked_start _).bindAll h, complete⟩

/-- The nodes that filling the open inputs appends. -/
def fresh (g : Graph) (draft : Draft) : List Node :=
  (Definition.supply g.size draft.definition.inputs draft.bindings).1

/-- The node with all its inputs filled. -/
def filled (g : Graph) (draft : Draft) : Node :=
  ⟨draft.definition, (Definition.supply g.size draft.definition.inputs draft.bindings).2⟩

/-- If the open inputs do not pass their check nothing has happened, and once they do nothing fails
before the node is there. -/
theorem Ready.resolve_bind_on (ready : draft.Ready g)
    (grows : ∀ node g', g'.size ≤ ((next node).on g').2.size)
    (small : ((draft.resolve >>= next).on g).2.size ≤ UInt32.size) :
    (∃ e, Definition.checkOpen draft.definition.name draft.openInputs = .error e ∧
      (draft.resolve >>= next).on g = (.error e, g)) ∨
    Definition.checkOpen draft.definition.name draft.openInputs = .ok () ∧
      (draft.resolve >>= next).on g =
        (next (draft.filled g)).on (g.appendAll (draft.fresh g)) := by
  rw [resolve, bind_assoc, Build.on_bind, Build.on_check] at small ⊢
  cases passed : Definition.checkOpen draft.definition.name draft.openInputs with
  | error e => exact Or.inl ⟨e, rfl, rfl⟩
  | ok _ =>
    refine Or.inr ⟨rfl, ?_⟩
    rw [passed] at small
    dsimp only at small ⊢
    have supplied := (checkOpen_openInputs_iff ready.complete).mp passed
    have later (bindings : List Binding) (g' : Graph) :
        g'.size ≤ ((Pure.pure (Node.mk draft.definition bindings) >>= next).on g').2.size := by
      rw [pure_bind]
      exact grows _ g'
    rw [bind_assoc] at small ⊢
    have small' := Nat.le_trans (Build.size_le_bind fun bindings g' _ => later bindings g') small
    rw [Build.on_bind, Definition.fillOpen_on ready.checked supplied small']
    dsimp only
    rw [pure_bind]
    rfl

theorem Ready.insert_on (ready : draft.Ready g)
    (small : (draft.insert.on g).2.size ≤ UInt32.size) :
    (∃ e, Definition.checkOpen draft.definition.name draft.openInputs = .error e ∧
      draft.insert.on g = (.error e, g)) ∨
    Definition.checkOpen draft.definition.name draft.openInputs = .ok () ∧
      draft.insert.on g = (.ok (.slot (g.size + (draft.fresh g).length)),
        g.appendAll (draft.fresh g ++ [draft.filled g])) := by
  have grows (node : Node) (g' : Graph) : g'.size ≤ ((Build.insert node).on g').2.size := by
    rw [Build.on_insert, Graph.size_append]
    exact Nat.le_succ _
  have ran := ready.resolve_bind_on grows small
  rw [Build.on_insert, Graph.size_appendAll] at ran
  rw [Graph.appendAll_append]
  exact ran

/-- The last write finds the id still pending, since nodes were only appended. -/
theorem Ready.define_on {id : NodeId} (ready : draft.Ready g) (pending : g.Pending id)
    (small : ((draft.define id).on g).2.size ≤ UInt32.size) :
    (∃ e, Definition.checkOpen draft.definition.name draft.openInputs = .error e ∧
      (draft.define id).on g = (.error e, g)) ∨
    Definition.checkOpen draft.definition.name draft.openInputs = .ok () ∧
      ∃ nodes, (g.appendAll (draft.fresh g)).nodes.define id (draft.filled g) = .ok nodes ∧
        (draft.define id).on g = (.ok id, ⟨nodes⟩) := by
  have grows (node : Node) (g' : Graph) : g'.size ≤ ((Build.define id node).on g').2.size := by
    rw [Build.on_define]
    cases filled : g'.nodes.define id node with
    | error e => exact Nat.le_refl _
    | ok nodes => exact (Arena.size_define filled).ge
  rw [define_reserved pending.1 pending.2] at small ⊢
  have inside := Graph.contains_iff.mp pending.1
  have issued : (g.appendAll (draft.fresh g)).contains id = true := by
    rw [Graph.contains_iff, Graph.size_appendAll]
    omega
  have empty : (g.appendAll (draft.fresh g)).get? id = none := by
    rw [Graph.get?_appendAll, if_pos inside]
    exact pending.2
  obtain ⟨nodes, filled⟩ := Arena.exists_define issued empty (draft.filled g)
  rcases ready.resolve_bind_on grows small with refused | ⟨passed, ran⟩
  · exact Or.inl refused
  · rw [Build.on_define, filled] at ran
    exact Or.inr ⟨passed, nodes, filled, ran⟩

end Draft

namespace Build

variable {g : Graph} {d : Definition} {bindings : List (String × Binding)} {α : Type}

theorem draft_on : (draft d bindings).on g = ((Draft.start d).bindAll g bindings, g) := on_check _

/-- What starts with a draft changes nothing if the bindings are refused. -/
theorem draft_bind_on (next : Draft → Build α) :
    (∃ e, (Draft.start d).bindAll g bindings = .error e ∧
      (draft d bindings >>= next).on g = (.error e, g)) ∨
    ∃ bound, (Draft.start d).bindAll g bindings = .ok bound ∧ bound.Ready g ∧
      (draft d bindings >>= next).on g = (next bound).on g := by
  rw [on_bind, draft_on]
  cases all : (Draft.start d).bindAll g bindings with
  | error e => exact Or.inl ⟨e, rfl, rfl⟩
  | ok bound => exact Or.inr ⟨bound, rfl, Draft.ready_bindAll all, rfl⟩

theorem atomic_of_draft {next : Draft → Build α}
    (atomic : ∀ bound : Draft, bound.Ready g → (next bound).Atomic g) :
    (draft d bindings >>= next).Atomic g := by
  intro error g' failed small
  rcases draft_bind_on next with ⟨e, _, ran⟩ | ⟨bound, _, ready, ran⟩
  · cases failed.symm.trans ran
    rfl
  · exact atomic bound ready error g' (ran.symm.trans failed) small

end Build

namespace Draft

variable {g : Graph} {draft : Draft}

theorem Ready.insert_atomic (ready : draft.Ready g) : draft.insert.Atomic g := by
  intro error g' failed small
  rcases ready.insert_on (by rwa [failed]) with ⟨e, _, ran⟩ | ⟨_, ran⟩
  · cases failed.symm.trans ran
    rfl
  · cases failed.symm.trans ran

theorem Ready.define_atomic (ready : draft.Ready g) (id : NodeId) :
    (draft.define id).Atomic g := by
  intro error g' failed small
  by_cases pending : g.Pending id
  · rcases ready.define_on pending (by rwa [failed]) with ⟨e, _, ran⟩ | ⟨_, nodes, _, ran⟩
    · cases failed.symm.trans ran
      rfl
    · cases failed.symm.trans ran
  · obtain ⟨e, ran⟩ := define_refused draft (not_and.mp pending)
    cases failed.symm.trans ran
    rfl

theorem Ready.succeed (ready : draft.Ready g)
    (passed : Definition.checkOpen draft.definition.name draft.openInputs = .ok ()) :
    draft.resolve.Succeeds g ∧ draft.insert.Succeeds g ∧
      ∀ id, g.Pending id → (draft.define id).Succeeds g := by
  refine ⟨?_, ?_, ?_⟩
  · intro small
    rw [← bind_pure draft.resolve] at small ⊢
    rcases ready.resolve_bind_on (fun _ _ => Nat.le_refl _) small with ⟨e, refused, _⟩ | ⟨_, ran⟩
    · cases passed.symm.trans refused
    · exact ⟨_, congrArg Prod.fst ran⟩
  · intro small
    rcases ready.insert_on small with ⟨e, refused, _⟩ | ⟨_, ran⟩
    · cases passed.symm.trans refused
    · exact ⟨_, congrArg Prod.fst ran⟩
  · intro id pending small
    rcases ready.define_on pending small with ⟨e, refused, _⟩ | ⟨_, _, _, ran⟩
    · cases passed.symm.trans refused
    · exact ⟨_, congrArg Prod.fst ran⟩

end Draft

/-- Binding, inserting and defining leave the graph as it was if they fail. Once the open inputs of
a draft have passed their check, filling them, the default trees behind them, the node itself and
the last write all succeed. -/
theorem Build.failure_changes_nothing (g : Graph) (d : Definition)
    (bindings : List (String × Binding)) :
    (draft d bindings).Atomic g ∧ (node d bindings).Atomic g ∧
    (∀ id, (GraphCall.define d bindings id).build.Atomic g) ∧
    ∀ bound, (Draft.start d).bindAll g bindings = .ok bound →
      Definition.checkOpen d.name bound.openInputs = .ok () →
        (bound.resolve.Succeeds g ∧ bound.insert.Succeeds g ∧
          ∀ id, g.Pending id → (bound.define id).Succeeds g) ∧
        ∀ inner ∈ Definition.fillers d.inputs bound.bindings,
          ∀ g', (Definition.insertOpen inner).Succeeds g' := by
  refine ⟨?_, ?_, ?_, ?_⟩
  · intro error g' failed _
    rw [draft_on] at failed
    exact (Prod.mk.inj failed).2.symm
  · exact atomic_of_draft fun bound ready => ready.insert_atomic
  · exact fun id => atomic_of_draft fun bound ready => ready.define_atomic id
  · intro bound all passed
    have ready := Draft.ready_bindAll all
    obtain ⟨rfl, complete, _⟩ := Draft.takes_bindAll all
    refine ⟨ready.succeed passed, ?_⟩
    intro inner mem g' small
    have supplied := (Draft.checkOpen_openInputs_iff complete).mp passed
    have laid := inner.lays g' (supplied.checkOpen_filler mem) small
    exact ⟨_, congrArg Prod.fst laid⟩

/-- An id without a node, and a clock. -/
def Graph.waiting : Graph := ⟨⟨#[none, some ⟨Library.time, []⟩]⟩⟩

/-- A wave behind its first input, and behind the second a node whose clock does not fit. -/
def Definition.detuned : Definition :=
  { name := "Detuned"
    inputs := [Library.fedBy "low" .float Library.sineWave,
      Library.fedBy "high" .float
        { name := "Misled", inputs := [Library.fedBy "time" .vec3 Library.time]
          outputs := Library.main .float "in_time.x" }]
    outputs := Library.main .float "in_low + in_high" }

/-- The misfit lies two trees down, and still the wave before it is not left behind. With something
bound to the second input, inserting and defining succeed. -/
theorem Build.failure_changes_nothing_detuned :
    (∃ g', (node .detuned []).on .waiting =
        (.error (.typeMismatch "Misled" "time" .vec3 .float), g') ∧ g' = .waiting) ∧
    (∃ g', (GraphCall.define .detuned [] ⟨0⟩).build.on .waiting =
        (.error (.typeMismatch "Misled" "time" .vec3 .float), g') ∧ g' = .waiting) ∧
    ∃ bound, (Draft.start .detuned).bindAll .waiting [("high", .node ⟨1⟩)] = .ok bound ∧
      Definition.checkOpen "Detuned" bound.openInputs = .ok () ∧
      (∃ id, (bound.insert.on .waiting).1 = .ok id) ∧
      ∃ id, ((bound.define ⟨0⟩).on .waiting).1 = .ok id := by
  obtain ⟨_, inserting, defining, _⟩ := failure_changes_nothing .waiting .detuned []
  obtain ⟨_, _, _, succeeding⟩ :=
    failure_changes_nothing .waiting .detuned [("high", .node ⟨1⟩)]
  have inserted : (node .detuned []).on .waiting =
      (.error (.typeMismatch "Misled" "time" .vec3 .float), .waiting) := rfl
  have defined : (GraphCall.define .detuned [] ⟨0⟩).build.on .waiting =
      (.error (.typeMismatch "Misled" "time" .vec3 .float), .waiting) := rfl
  refine ⟨⟨_, inserted, inserting _ _ inserted (by decide)⟩,
    ⟨_, defined, defining ⟨0⟩ _ _ defined (by decide)⟩, ?_⟩
  have all : (Draft.start .detuned).bindAll .waiting [("high", .node ⟨1⟩)] =
      .ok ⟨.detuned, [none, some (.node ⟨1⟩)]⟩ := rfl
  have passed : Definition.checkOpen "Detuned"
      (Draft.mk .detuned [none, some (.node ⟨1⟩)]).openInputs = .ok () := rfl
  obtain ⟨⟨_, inserts, defines⟩, _⟩ := succeeding _ all passed
  exact ⟨_, all, passed, inserts (by decide), defines ⟨0⟩ ⟨rfl, rfl⟩ (by decide)⟩

/-! ## What a call adds -/

namespace Definition

/-- What feeds an input of a new node: what was bound last, as the type of the input takes it, and
otherwise its default. A default tree takes slots from `first` on, the last one for its root. -/
inductive Fed (first : Nat) (input : Input Definition) : Option Binding → Binding → Prop where
  | bound {binding taken : Binding} (coerced : binding.coerce? input.type = some taken) :
    Fed first input (some binding) taken
  | literal {value coerced : Value} (fallback : input.fallback = some (.literal value))
      (made : value.coerce? input.type = some coerced) : Fed first input none (.literal coerced)
  | expr {source : String} (fallback : input.fallback = some (.expr source)) :
    Fed first input none (.expr source)
  | node {d : Definition} (fallback : input.fallback = some (.node d)) :
    Fed first input none (.node (.slot (first + d.treeSize - 1)))

/-- What making a node adds from a slot on, if `raw` was bound to its inputs: the default trees of
the other inputs one behind another, and the node that reads their roots. The tree of an input
stands behind those of the inputs before it. -/
structure Adds (d : Definition) (raw : List (Option Binding)) (start : Nat) (fresh : List Node)
    (node : Node) : Prop where
  trees : fresh = plant start (fillers d.inputs raw)
  size : fresh.length = totalSize (fillers d.inputs raw)
  nested : ∀ inner ∈ fillers d.inputs raw, checkOpen inner.name inner.inputs = .ok ()
  definition : node.definition = d
  complete : node.bindings.length = d.inputs.length
  fed : ∀ (k : Nat) (input : Input Definition), d.inputs[k]? = some input →
    ∃ binding, node.bindings[k]? = some binding ∧
      Fed (start + totalSize (fillers (d.inputs.take k) raw)) input raw[k]?.join binding
  behind : ∀ (k : Nat) (input : Input Definition) (inner : Definition),
    d.inputs[k]? = some input → raw[k]?.join = none → input.fallback = some (.node inner) →
      (fresh.drop (totalSize (fillers (d.inputs.take k) raw))).take inner.treeSize =
        inner.tree (start + totalSize (fillers (d.inputs.take k) raw))

variable {start : Nat} {owner : String} {input : Input Definition} {d : Definition}
variable {given raw : List (Option Binding)}

theorem Fed.of_node {binding : Binding} (fed : Fed start input none binding)
    (fallback : input.fallback = some (.node d)) :
    binding = .node (.slot (start + d.treeSize - 1)) := by
  cases fed with
  | literal other => cases fallback.symm.trans other
  | expr other => cases fallback.symm.trans other
  | node other =>
    cases fallback.symm.trans other
    rfl

theorem fed_supplyOne {given raw : Option Binding}
    (passed : given = none → checkFallback owner input = .ok ())
    (takes : raw.map (·.coerce? input.type) = given.map some) :
    Fed start input raw (supplyOne start input given).2 := by
  cases given with
  | some taken =>
    obtain ⟨binding, rfl, coerced⟩ := Option.map_eq_some_iff.mp takes
    exact .bound coerced
  | none =>
    obtain rfl := Option.map_eq_none_iff.mp takes
    have filled := passed rfl
    obtain ⟨name, type, fallback⟩ := input
    rcases fallback with _ | value | source | inner
    · cases filled
    · cases coerced : value.coerce? type with
      | none =>
        simp only [checkFallback, Value.coerceFor, coerced] at filled
        cases filled
      | some result =>
        have same : (supplyOne start ⟨name, type, some (.literal value)⟩ none).2 =
            .literal result := by simp [supplyOne, coerced]
        exact same ▸ .literal rfl coerced
    · exact .expr rfl
    · have same : (supplyOne start ⟨name, type, some (.node inner)⟩ none).2 =
          .node (.slot (start + inner.treeSize - 1)) := by simp [supplyOne, length_tree]
      exact same ▸ .node rfl

theorem adds_supply (supplied : Supplied owner d.inputs given) (takes : Takes d.inputs raw given) :
    d.Adds raw start (supply start d.inputs given).1 ⟨d, (supply start d.inputs given).2⟩ := by
  have same : fillers d.inputs raw = fillers d.inputs given :=
    fillers_congr fun k input at_k => takes.open_iff at_k
  have trees : (supply start d.inputs given).1 = plant start (fillers d.inputs raw) := by
    rw [supply_fst, same]
  refine ⟨trees, ?_, ?_, rfl, length_supply .., ?_, ?_⟩
  · rw [trees, length_plant]
  · intro inner mem
    exact supplied.checkOpen_filler (same ▸ mem)
  · intro k input at_k
    have before : fillers (d.inputs.take k) raw = fillers (d.inputs.take k) given := by
      apply fillers_congr
      intro j other at_j
      rw [List.getElem?_take] at at_j
      split at at_j
      · exact takes.open_iff at_j
      · cases at_j
    rw [before]
    exact ⟨_, getElem?_supply at_k, fed_supplyOne (supplied k input at_k) (takes k input at_k)⟩
  · intro k input inner at_k free fallback
    rw [trees]
    exact tree_of_plant at_k free fallback

/-- The default tree of a definition is what making a node of it with nothing bound adds. -/
theorem tree_adds (passed : checkOpen d.name d.inputs = .ok ()) (start : Nat) :
    ∃ fresh node, d.tree start = fresh ++ [node] ∧ d.Adds [] start fresh node :=
  ⟨_, _, tree_eq start d, adds_supply (supplied_of_checkOpen passed) fun _ _ _ => rfl⟩

end Definition

theorem Draft.adds_of_bindAll {g : Graph} {d : Definition} {bindings : List (String × Binding)}
    {draft : Draft} (all : (start d).bindAll g bindings = .ok draft)
    (passed : Definition.checkOpen draft.definition.name draft.openInputs = .ok ()) :
    d.Adds (d.lastBound bindings) g.size (draft.fresh g) (draft.filled g) := by
  obtain ⟨rfl, complete, takes⟩ := takes_bindAll all
  exact Definition.adds_supply ((checkOpen_openInputs_iff complete).mp passed) takes

namespace Graph

/-- Fresh nodes and then a node are appended, the node in the slot of the id; no slot that was
there is touched. -/
structure Appends (g : Graph) (fresh : List Node) (node : Node) (id : NodeId) (g' : Graph) :
    Prop where
  appended : g' = g.appendAll (fresh ++ [node])
  last : id.toNat = g.size + fresh.length
  held : g'.get? id = some node
  size : g'.size = g.size + fresh.length + 1
  others : ∀ other, g.contains other = true → g'.get? other = g.get? other

/-- Fresh nodes are appended and a pending id is filled with a node; no other slot that was there
is touched. -/
structure Fills (g : Graph) (fresh : List Node) (node : Node) (id : NodeId) (g' : Graph) :
    Prop where
  pending : g.Pending id
  filled : (g.appendAll fresh).nodes.define id node = .ok g'.nodes
  held : g'.get? id = some node
  size : g'.size = g.size + fresh.length
  appended : g'.Holds g.size fresh
  others : ∀ other, g.contains other = true → other ≠ id → g'.get? other = g.get? other

variable {g : Graph} {fresh : List Node} {node : Node} {id : NodeId}

theorem get?_appendAll_of_contains (issued : g.contains id = true) :
    (g.appendAll fresh).get? id = g.get? id :=
  get?_appendAll.trans (if_pos (contains_iff.mp issued))

theorem appends_appendAll (small : (g.appendAll (fresh ++ [node])).size ≤ UInt32.size) :
    g.Appends fresh node (.slot (g.size + fresh.length)) (g.appendAll (fresh ++ [node])) := by
  have slots : (g.appendAll (fresh ++ [node])).size = g.size + fresh.length + 1 := by
    rw [size_appendAll, List.length_append]
    rfl
  have last : (Handle.slot (g.size + fresh.length)).toNat = g.size + fresh.length :=
    Handle.toNat_slot (by omega)
  refine ⟨rfl, last, ?_, slots, fun other issued => get?_appendAll_of_contains issued⟩
  rw [get?_appendAll, last, if_neg (by omega), Nat.add_sub_cancel_left]
  exact List.getElem?_concat_length

theorem fills_define {nodes : Arena Node} (pending : g.Pending id)
    (filled : (g.appendAll fresh).nodes.define id node = .ok nodes)
    (small : (Graph.mk nodes).size ≤ UInt32.size) : g.Fills fresh node id ⟨nodes⟩ := by
  have slots : (Graph.mk nodes).size = g.size + fresh.length :=
    (Arena.size_define filled).trans size_appendAll
  rw [slots] at small
  refine ⟨pending, filled, Arena.get?_define_self filled, slots,
    (keeps_define filled).holds (holds_appendAll small), ?_⟩
  intro other issued apart
  exact (Arena.get?_define_of_ne filled apart).trans (get?_appendAll_of_contains issued)

end Graph

/-- An insertion appends the default trees of the inputs that nothing was bound to, and then the
node; a definition appends the same trees and fills its id. A default tree is what making a node
with nothing bound adds. -/
theorem GraphCall.adds_exactly :
    (∀ (d : Definition) (start : Nat), Definition.checkOpen d.name d.inputs = .ok () →
      ∃ fresh node, d.tree start = fresh ++ [node] ∧ d.Adds [] start fresh node) ∧
    (∀ g d bindings id g', (GraphCall.insert d bindings).build.on g = (.ok id, g') →
      g'.size ≤ UInt32.size → ∃ fresh node,
        d.Adds (d.lastBound bindings) g.size fresh node ∧ g.Appends fresh node id g') ∧
    ∀ g d bindings id made g', (GraphCall.define d bindings id).build.on g = (.ok made, g') →
      g'.size ≤ UInt32.size → made = id ∧ ∃ fresh node,
        d.Adds (d.lastBound bindings) g.size fresh node ∧ g.Fills fresh node id g' := by
  refine ⟨fun d start passed => Definition.tree_adds passed start, ?_, ?_⟩
  · intro g d bindings id g' ran small
    rcases Build.draft_bind_on Draft.insert with ⟨e, _, refused⟩ | ⟨draft, all, ready, drafted⟩
    · cases ran.symm.trans refused
    have inserts : draft.insert.on g = (.ok id, g') := drafted.symm.trans ran
    rcases ready.insert_on (by rwa [inserts]) with ⟨e, _, refused⟩ | ⟨passed, inserted⟩
    · cases inserts.symm.trans refused
    cases inserts.symm.trans inserted
    exact ⟨_, _, Draft.adds_of_bindAll all passed, Graph.appends_appendAll small⟩
  · intro g d bindings id made g' ran small
    rcases Build.draft_bind_on fun draft => draft.define id with
      ⟨e, _, refused⟩ | ⟨draft, all, ready, drafted⟩
    · cases ran.symm.trans refused
    have defines : (draft.define id).on g = (.ok made, g') := drafted.symm.trans ran
    have pending : g.Pending id := by
      by_contra unreserved
      obtain ⟨e, refused⟩ := Draft.define_refused draft (not_and.mp unreserved)
      cases defines.symm.trans refused
    rcases ready.define_on pending (by rwa [defines]) with
      ⟨e, _, refused⟩ | ⟨passed, nodes, filled, defined⟩
    · cases defines.symm.trans refused
    cases defines.symm.trans defined
    exact ⟨rfl, _, _, Draft.adds_of_bindAll all passed, Graph.fills_define pending filled small⟩

/-- Two waves and a gain. -/
def Definition.chorus : Definition :=
  { name := "Chorus"
    inputs := [Library.fedBy "low" .float Library.sineWave, Library.required "gain" .float,
      Library.fedBy "high" .float Library.sineWave]
    outputs := Library.main .float "(in_low + in_high) * in_gain" }

/-- The gain is bound twice. -/
def GraphCall.gains : List (String × Binding) :=
  [("gain", .literal (.float 2)), ("gain", .expr "0.5")]

/-- The gain keeps the later value. Each wave is a node of its own, behind a clock of its own. -/
theorem GraphCall.adds_exactly_chorus :
    (∃ (g : Graph) (node : Node),
      (GraphCall.insert .chorus gains).build.on .waiting = (.ok ⟨6⟩, g) ∧
      g.size = 7 ∧ g.get? ⟨6⟩ = some node ∧ g.get? ⟨0⟩ = none ∧
      node.bindings[1]? = some (Binding.expr "0.5") ∧
      node.bindings[2]? = some (Binding.node ⟨5⟩)) ∧
    (∃ (g : Graph) (node : Node),
      (GraphCall.define .chorus gains ⟨0⟩).build.on .waiting = (.ok ⟨0⟩, g) ∧
      g.size = 6 ∧ g.get? ⟨0⟩ = some node ∧
      node.bindings[1]? = some (Binding.expr "0.5") ∧
      node.bindings[2]? = some (Binding.node ⟨5⟩)) ∧
    ∃ (fresh : List Node) (node : Node), Library.sineWave.tree 4 = fresh ++ [node] ∧
      fresh.length = 1 ∧ node.bindings[0]? = some (Binding.node ⟨4⟩) := by
  obtain ⟨trees, inserting, defining⟩ := adds_exactly
  have added {fresh : List Node} {node : Node}
      (adds : Definition.chorus.Adds (Definition.chorus.lastBound gains) 2 fresh node) :
      fresh.length = 4 ∧ node.bindings[1]? = some (Binding.expr "0.5") ∧
        node.bindings[2]? = some (Binding.node ⟨5⟩) := by
    obtain ⟨gain, gain_bound, gain_fed⟩ := adds.fed 1 _ rfl
    obtain ⟨high, high_bound, high_fed⟩ := adds.fed 2 _ rfl
    cases gain_fed with
    | bound coerced =>
      exact ⟨adds.size, gain_bound.trans coerced.symm,
        high_bound.trans (congrArg some (high_fed.of_node rfl))⟩
  refine ⟨?_, ?_, ?_⟩
  · have ran : ((GraphCall.insert .chorus gains).build.on .waiting).1 = .ok ⟨6⟩ := rfl
    obtain ⟨fresh, node, adds, appends⟩ :=
      inserting .waiting _ _ _ _ (Prod.ext ran rfl) (by decide)
    obtain ⟨count, gain, high⟩ := added adds
    refine ⟨_, node, Prod.ext ran rfl, ?_, appends.held, appends.others ⟨0⟩ rfl, gain, high⟩
    rw [appends.size, count]
    rfl
  · have ran : ((GraphCall.define .chorus gains ⟨0⟩).build.on .waiting).1 = .ok ⟨0⟩ := rfl
    obtain ⟨_, fresh, node, adds, fills⟩ :=
      defining .waiting _ _ _ _ _ (Prod.ext ran rfl) (by decide)
    obtain ⟨count, gain, high⟩ := added adds
    refine ⟨_, node, Prod.ext ran rfl, ?_, fills.held, gain, high⟩
    rw [fills.size, count]
    rfl
  · obtain ⟨fresh, node, split, adds⟩ := trees Library.sineWave 4 rfl
    obtain ⟨clock, bound, fed⟩ := adds.fed 0 _ rfl
    exact ⟨fresh, node, split, adds.size, bound.trans (congrArg some (fed.of_node rfl))⟩

/-- Two inputs of one name. -/
def Definition.twin : Definition :=
  { name := "Twin"
    inputs := [Library.optional "a" .float (.float 0), Library.optional "a" .float (.float 1)]
    outputs := Library.main .float "in_a" }

theorem GraphCall.insert_twin : (insert .twin [("a", .literal (.float 5))]).build.on .empty =
    (.ok ⟨0⟩, ⟨⟨#[some ⟨.twin, [.literal (.float 5), .literal (.float 1)]⟩]⟩⟩) := rfl

/-- What is bound goes to the first input of a name, and a later one keeps its default. -/
theorem GraphCall.later_input_keeps_default :
    ¬ ∀ g d bindings id g', (GraphCall.insert d bindings).build.on g = (.ok id, g') →
      g'.size ≤ UInt32.size → ∀ node, g'.get? id = some node →
        ∀ (k : Nat) (input : Input Definition) (binding : Binding), d.inputs[k]? = some input →
          bindings.reverse.lookup input.name = some binding →
            ∃ taken, binding.coerce? input.type = some taken ∧
              node.bindings[k]? = some taken := by
  intro everywhere
  obtain ⟨taken, coerced, bound⟩ :=
    everywhere _ _ _ _ _ insert_twin (by decide) _ rfl 1 _ (.literal (.float 5)) rfl rfl
  cases bound
  revert coerced
  decide

end ParticleShading
