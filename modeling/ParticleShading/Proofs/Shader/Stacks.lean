import ParticleShading.Proofs.Shader.NewNodes

/-!
# Stacks

What a stack leaves behind: a head that hands the base on, and behind it a node
for each filter. The input `a` of a node is bound to the node before it first
and then to what the filter lists, so a filter that lists `a` is not fed by the
node before it. From the last such filter on every node reaches the answer, and
what stands before that filter does not.
-/

namespace ParticleShading

/-! ## Unissued ids -/

/-- Different ids that a graph has not issued. -/
structure Graph.Unissued (g : Graph) (ids : List NodeId) : Prop where
  nodup : ids.Nodup
  absent : ∀ id ∈ ids, g.contains id = false

/-- An id that was issued before the others were. -/
theorem Graph.Unissued.cons {g g' : Graph} {id : NodeId} {ids : List NodeId}
    (later : g'.Unissued ids) (keeps : g.Keeps g') (issued : g'.contains id = true)
    (new : g.contains id = false) : g.Unissued (id :: ids) := by
  constructor
  · refine List.nodup_cons.mpr ⟨fun mem => ?_, later.nodup⟩
    rw [later.absent id mem] at issued
    cases issued
  · intro other mem
    rcases List.mem_cons.mp mem with rfl | mem
    · exact new
    · cases before : g.contains other with
      | false => rfl
      | true => exact (keeps.issued before).symm.trans (later.absent other mem)

theorem Build.Extends.grows_of_on {α : Type} {step : Build α} {g g' : Graph}
    {post : Graph → α → Prop} {result : Except ShaderError α} (h : step.Extends g post)
    (ran : step.on g = (result, g')) : g.Grows g' := by
  have grows := h.grows
  rwa [ran] at grows

/-! ## Chains -/

/-- The filter leaves the input `a` to the node before it. -/
def Filter.Follows (filter : Filter) : Prop := "a" ∉ filter.bindings.map (·.1)

instance (filter : Filter) : Decidable filter.Follows :=
  inferInstanceAs (Decidable ("a" ∉ filter.bindings.map (·.1)))

/-- The filter lists outputs of ids that a graph has issued. -/
def Filter.ListsIssued (g : Graph) (filter : Filter) : Prop :=
  ∀ name source, (name, Binding.output source) ∈ filter.bindings → g.contains source.node = true

/-- The nodes of a graph read ids that it has issued. -/
def Graph.ReadsIssued (g : Graph) : Prop :=
  ∀ id node, g.get? id = some node → ∀ input source, node.Reads input source →
    g.contains source.node = true

/-- Calls leave graphs of this kind behind. -/
theorem Construction.readsIssued_run (calls : List GraphCall) : (run calls).graph.ReadsIssued :=
  fun _ _ held => (bound_run held).issued

/-- The node of a filter behind another one: it is bound to that one and then to what the filter
lists, and has the output that the node behind it is bound to. -/
structure Graph.Linked (g : Graph) (type : ValueType) (filter : Filter) (previous id : NodeId)
    (node : Node) : Prop where
  held : g.get? id = some node
  definition : node.definition = filter.definition
  chained : filter.Follows → node.binding? "a" = some (.node previous)
  listed : ∀ name binding, filter.bindings.reverse.lookup name = some binding →
    node.Takes name binding
  offers : g.Offers ⟨id, defaultOutput⟩ type

/-- Nodes that stand for filters, one behind the other. -/
inductive Graph.Chained (g : Graph) (type : ValueType) :
    NodeId → List Filter → List NodeId → Prop where
  | nil {previous : NodeId} : Chained g type previous [] []
  | cons {previous id : NodeId} {filter : Filter} {rest : List Filter} {ids : List NodeId}
      {node : Node} (linked : g.Linked type filter previous id node)
      (later : Chained g type id rest ids) : Chained g type previous (filter :: rest) (id :: ids)

theorem Graph.Linked.kept {g g' : Graph} {type : ValueType} {filter : Filter}
    {previous id : NodeId} {node : Node} (linked : g.Linked type filter previous id node)
    (keeps : g.Keeps g') : g'.Linked type filter previous id node :=
  { linked with
    held := keeps.held _ _ linked.held
    offers := keeps.offers linked.offers }

namespace Graph.Chained

variable {g : Graph} {type : ValueType} {previous last id : NodeId} {filters : List Filter}
variable {ids : List NodeId}

/-- A node reaches the end of a chain if all filters behind it follow. -/
theorem reaches (chained : g.Chained type previous filters ids)
    (ends : (previous :: ids).getLast? = some last) {k : Nat}
    (at_k : (previous :: ids)[k]? = some id) (follow : ∀ filter ∈ filters.drop k, filter.Follows) :
    g.Reaches last id := by
  induction chained generalizing k id with
  | nil =>
    cases ends
    obtain rfl := List.mem_singleton.mp (List.mem_of_getElem? at_k)
    exact .root
  | @cons previous next filter rest ids node linked later ih =>
    rw [List.getLast?_cons_cons] at ends
    cases k with
    | succ k => exact ih ends at_k follow
    | zero =>
      cases at_k
      have next_reached := ih ends (k := 0) rfl fun other mem =>
        follow other (List.mem_cons_of_mem _ mem)
      obtain ⟨input, reads⟩ := Node.reads_of_binding? (linked.chained (follow filter (by simp)))
      exact next_reached.reads linked.held reads

theorem offers (chained : g.Chained type previous filters ids)
    (ends : (previous :: ids).getLast? = some last)
    (start : g.Offers ⟨previous, defaultOutput⟩ type) : g.Offers ⟨last, defaultOutput⟩ type := by
  induction chained with
  | nil =>
    cases ends
    exact start
  | cons linked later ih =>
    rw [List.getLast?_cons_cons] at ends
    exact ih ends linked.offers

end Graph.Chained

namespace Build

variable {g g' base : Graph} {type : ValueType} {previous last : NodeId} {filter : Filter}
variable {filters rest : List Filter}

/-- A chain makes the node of its first filter and goes on behind it. -/
theorem chain_cons_on (ran : (chain type previous (filter :: rest)).on g = (.ok last, g')) :
    ∃ id middle,
      filter.definition.checkMain filter.definition.name defaultOutput type = .ok () ∧
      (node filter.definition (("a", .node previous) :: filter.bindings)).on g =
        (.ok id, middle) ∧
      (chain type id rest).on middle = (.ok last, g') ∧ g.Grows middle ∧ middle.Grows g' := by
  obtain ⟨_, _, passed, ran⟩ := on_bind_eq_ok_iff.mp ran
  rw [on_check] at passed
  obtain ⟨fits, rfl⟩ := Prod.mk.inj passed
  obtain ⟨id, middle, inserted, later⟩ := on_bind_eq_ok_iff.mp ran
  exact ⟨id, middle, fits, inserted, later, (node_extends _ _).grows_of_on inserted,
    (chain_extends type id rest).grows_of_on later⟩

/-- What feeds an input is what the filter lists, or the node before it if the filter follows. -/
theorem lookup_chained {name : String} :
    (("a", Binding.node previous) :: filter.bindings).reverse.lookup name =
      (filter.bindings.reverse.lookup name).or
        (if name = "a" then some (.node previous) else none) := by
  rw [List.reverse_cons, List.lookup_append, List.lookup_cons]
  by_cases same : name = "a"
  · simp [same]
  · rw [if_neg same, beq_false_of_ne same]
    rfl

theorem lookup_eq_none_iff_follows :
    filter.bindings.reverse.lookup "a" = none ↔ filter.Follows := by
  rw [← Option.not_isSome_iff_eq_none, GraphDescription.isSome_lookup_iff]
  simp [Filter.Follows]

/-- An output that feeds the node of a filter is listed, or it is that of the node before it. -/
theorem listed_or_previous {name : String} {source : OutputRef}
    (fed : (("a", Binding.node previous) :: filter.bindings).reverse.lookup name =
      some (.output source)) :
    (name, Binding.output source) ∈ filter.bindings ∨ filter.Follows ∧ source.node = previous := by
  rw [lookup_chained] at fed
  cases own : filter.bindings.reverse.lookup name with
  | some binding =>
    rw [own, Option.some_or] at fed
    cases fed
    obtain ⟨before, after, split, _⟩ := List.lookup_eq_some_iff.mp own
    refine Or.inl (List.mem_reverse.mp ?_)
    rw [split]
    exact List.mem_append_right _ List.mem_cons_self
  | none =>
    rw [own, Option.none_or] at fed
    split at fed
    · rename_i same
      subst same
      cases fed
      exact Or.inr ⟨lookup_eq_none_iff_follows.mp own, rfl⟩
    · cases fed

/-- Each filter is bound to the node before it and adds a new node. -/
theorem linked_of_node {id : NodeId}
    (fits : filter.definition.checkMain filter.definition.name defaultOutput type = .ok ())
    (ran : (node filter.definition (("a", .node previous) :: filter.bindings)).on g = (.ok id, g'))
    (small : g'.size ≤ UInt32.size) :
    g.contains id = false ∧ ∃ made, g'.Linked type filter previous id made := by
  obtain ⟨new, made, held, definition, takes⟩ := takes_of_node ran small
  refine ⟨new, made, held, definition, ?_, ?_, ?_⟩
  · intro follows
    obtain ⟨input, taken, _, coerced, bound⟩ := takes "a" (.node previous) (by
      rw [lookup_chained, lookup_eq_none_iff_follows.mpr follows]
      rfl)
    cases coerced
    exact bound
  · intro name binding last
    apply takes
    rw [lookup_chained, last, Option.some_or]
  · obtain ⟨output, found, accepted⟩ := Definition.checkMain_eq_ok_iff.mp fits
    exact ⟨made, output, held, definition ▸ found, accepted⟩

/-- What a chain adds reads what it adds, or what the filters list, or the node that it starts from
if the first filter follows. -/
theorem reads_of_chain (allowed : NodeId → Prop)
    (ran : (chain type previous filters).on g = (.ok last, g')) (small : g'.size ≤ UInt32.size)
    (above : ∀ id, g.contains id = false → allowed id)
    (listed : ∀ filter ∈ filters, ∀ name source,
      (name, Binding.output source) ∈ filter.bindings → allowed source.node)
    (start : ∀ filter ∈ filters.head?, filter.Follows → allowed previous)
    {id : NodeId} {made : Node} (new : g.contains id = false) (held : g'.get? id = some made)
    {input : Input Definition} {source : OutputRef} (reads : made.Reads input source) :
    allowed source.node := by
  induction filters generalizing g previous with
  | nil =>
    cases ran
    rw [Graph.contains_of_get? held] at new
    cases new
  | cons filter rest ih =>
    obtain ⟨next, middle, _, inserted, later, grown, grows⟩ := chain_cons_on ran
    have small' := Nat.le_trans grows.size_le small
    have above' (id : NodeId) (absent : middle.contains id = false) : allowed id := by
      apply above
      rw [← Bool.not_eq_true] at absent ⊢
      exact mt grown.contains absent
    cases here : middle.contains id with
    | false =>
      obtain ⟨absent, _⟩ := takes_of_node inserted small'
      exact ih later above' (fun filter mem => listed filter (List.mem_cons_of_mem _ mem))
        (fun _ _ _ => above next absent) here
    | true =>
      rw [grows.get? here] at held
      rcases reads_of_node inserted small' new held reads with fresh | ⟨name, bound⟩
      · exact above _ fresh
      rcases listed_or_previous bound with own | ⟨follows, rfl⟩
      · exact listed filter List.mem_cons_self name source own
      · exact start filter rfl follows

/-- A filter that does not follow cuts off all that was added to the graph before it. -/
theorem not_reaches_of_chain (grown : base.Grows g) (sound : base.ReadsIssued)
    (ran : (chain type previous (filter :: rest)).on g = (.ok last, g'))
    (small : g'.size ≤ UInt32.size) (leads : ¬ filter.Follows)
    (listed : ∀ other ∈ filter :: rest, other.ListsIssued base) (new : g.contains last = false)
    {id : NodeId} (issued : g.contains id = true) (absent : base.contains id = false) :
    ¬ g'.Reaches last id := by
  have whole := grown.trans ((chain_extends type previous (filter :: rest)).grows_of_on ran)
  -- what is older than the stack reads nothing that is newer, so no path leads out of this set
  have closed : ∀ id, g'.Reaches last id → base.contains id = true ∨ g.contains id = false := by
    intro id reached
    induction reached with
    | root => exact Or.inr new
    | @feed source target _ feeds ih =>
      obtain ⟨made, held, input, output, reads⟩ := feeds
      rcases ih with old | fresh
      · rw [whole.get? old] at held
        exact Or.inl (sound target made held input _ reads)
      · refine reads_of_chain (fun id => base.contains id = true ∨ g.contains id = false)
          ran small (fun _ => Or.inr) ?_ ?_ fresh held reads
        · intro other mem name source mem'
          exact Or.inl (listed other mem name source mem')
        · rintro other ⟨⟩ follows
          exact absurd follows leads
  intro reached
  rcases closed id reached with old | fresh
  · rw [absent] at old
    cases old
  · rw [issued] at fresh
    cases fresh

/-- A chain makes a node for each filter, one behind the other. What was added to an older graph
before a filter that does not follow is cut off. -/
theorem chained_of_chain (ran : (chain type previous filters).on g = (.ok last, g'))
    (small : g'.size ≤ UInt32.size) :
    ∃ ids, g'.Chained type previous filters ids ∧ (previous :: ids).getLast? = some last ∧
      g.Unissued ids ∧
      ∀ base : Graph, base.Grows g → base.ReadsIssued →
        ∀ (k : Nat) (filter : Filter), filters[k]? = some filter → ¬ filter.Follows →
          (∀ other ∈ filters, other.ListsIssued base) → ∀ id, base.contains id = false →
            id ∈ ids.take k ∨ g.contains id = true → ¬ g'.Reaches last id := by
  induction filters generalizing g previous with
  | nil =>
    cases ran
    exact ⟨[], .nil, rfl, ⟨List.nodup_nil, by simp⟩, by simp⟩
  | cons filter rest ih =>
    obtain ⟨id, middle, fits, inserted, later, grown, grows⟩ := chain_cons_on ran
    obtain ⟨new, node, linked⟩ :=
      linked_of_node fits inserted (Nat.le_trans grows.size_le small)
    have issued := Graph.contains_of_get? linked.held
    obtain ⟨ids, chained, ends, unissued, cut⟩ := ih later
    have unissued := unissued.cons grown.keeps issued new
    refine ⟨id :: ids, .cons (linked.kept grows.keeps) chained, ?_, unissued, ?_⟩
    · rw [List.getLast?_cons_cons, ends]
    · intro base older sound k leading at_k leads listed other absent before
      cases k with
      | zero =>
        cases at_k
        have issued : g.contains other = true := by simpa using before
        exact not_reaches_of_chain older sound ran small leads listed
          (unissued.absent last (List.mem_of_getLast? ends)) issued absent
      | succ k =>
        refine cut base (older.trans grown) sound k leading at_k leads
          (fun filter mem => listed filter (List.mem_cons_of_mem _ mem)) other absent ?_
        rw [List.take_succ_cons, List.mem_cons] at before
        rcases before with (rfl | mem) | here
        · exact Or.inr issued
        · exact Or.inl mem
        · exact Or.inr (grown.contains here)

end Build

theorem ValueType.accepts_self (type : ValueType) : type.accepts type = true := by
  cases type <;> rfl

/-- The head of a stack hands the base on, and each filter has a node that is bound to the node
before it, unless the filter lists the input `a` itself. All of these nodes are new, the last one is
the answer and has the output of the stack, and what stood in the graph stays. The head or the node
of a filter reaches the answer if all filters behind it leave their `a` alone, and no otherwise as
long as what is read and listed had been issued before. -/
theorem Build.stack_chains {g g' : Graph} {type : ValueType} {name : String} {base : Binding}
    {filters : List Filter} {answer : NodeId}
    (ran : (stack type name base filters).on g = (.ok answer, g'))
    (small : g'.size ≤ UInt32.size) :
    ∃ (head : NodeId) (ids : List NodeId),
      (∃ node taken, g'.get? head = some node ∧
        node.definition = Library.passThrough name type ∧ base.coerce? type = some taken ∧
        node.binding? "a" = some taken) ∧
      g'.Chained type head filters ids ∧ (head :: ids).getLast? = some answer ∧
      g'.Offers ⟨answer, defaultOutput⟩ type ∧
      g.Unissued (head :: ids) ∧
      (∀ other, g.contains other = true → g'.get? other = g.get? other) ∧
      (∀ (k : Nat) (id : NodeId), (head :: ids)[k]? = some id →
        (∀ filter ∈ filters.drop k, filter.Follows) → g'.Reaches answer id) ∧
      (g.ReadsIssued → (∀ filter ∈ filters, filter.ListsIssued g) →
        ∀ (k : Nat) (id : NodeId), (head :: ids)[k]? = some id → g'.Reaches answer id →
          ∀ filter ∈ filters.drop k, filter.Follows) := by
  obtain ⟨head, middle, inserted, chains⟩ := on_bind_eq_ok_iff.mp ran
  have grown := (node_extends _ _).grows_of_on inserted
  have grows := (chain_extends type head filters).grows_of_on chains
  have whole := (stack_extends type name base filters).grows_of_on ran
  obtain ⟨new, node, held, definition, takes⟩ :=
    takes_of_node inserted (Nat.le_trans grows.size_le small)
  have issued := Graph.contains_of_get? held
  have held := grows.keeps.held _ _ held
  obtain ⟨ids, chained, ends, unissued, cut⟩ := chained_of_chain chains small
  have unissued := unissued.cons grown.keeps issued new
  refine ⟨head, ids, ?_, chained, ends, chained.offers ends ?_, unissued,
    fun other before => whole.get? before, fun k id at_k => chained.reaches ends at_k, ?_⟩
  · obtain ⟨input, taken, found, coerced, bound⟩ := takes "a" base rfl
    rw [definition] at found
    cases found
    exact ⟨node, taken, held, definition, coerced, bound⟩
  · exact ⟨node, Library.output defaultOutput type "in_a", held, definition ▸ rfl,
      type.accepts_self⟩
  · intro sound listed k id at_k reached filter mem
    by_contra leads
    obtain ⟨j, at_j⟩ := List.getElem?_of_mem mem
    rw [List.getElem?_drop] at at_j
    have absent := unissued.absent id (List.mem_of_getElem? at_k)
    refine cut g grown sound (k + j) filter at_j leads listed id absent ?_ reached
    cases k with
    | zero =>
      cases at_k
      exact Or.inr issued
    | succ k =>
      left
      apply List.mem_of_getElem? (i := k)
      rw [List.getElem?_take_of_lt (by omega)]
      exact at_k

/-- A clock. -/
def Graph.clock : Graph := ⟨⟨#[some ⟨Library.time, []⟩]⟩⟩

theorem Graph.readsIssued_clock : clock.ReadsIssued := by
  have made : (Construction.run [.insert Library.time []]).graph = clock := rfl
  rw [← made]
  exact Construction.readsIssued_run _

/-- A sine, faded. -/
def Filter.faded : List Filter :=
  [⟨Library.sin, []⟩, ⟨Library.scale .float, [("factor", .literal (.float 2))]⟩]

/-- A sine, and behind it a cosine that lists what it is fed by. -/
def Filter.detached : List Filter := [⟨Library.sin, []⟩, ⟨Library.cos, [("a", .node ⟨0⟩)]⟩]

theorem Build.stack_faded_on :
    (stack .float "Chain" (.node ⟨0⟩) Filter.faded).on .clock = (.ok ⟨3⟩,
      ⟨⟨#[some ⟨Library.time, []⟩,
        some ⟨Library.passThrough "Chain" .float, [.node ⟨0⟩]⟩,
        some ⟨Library.sin, [.node ⟨1⟩]⟩,
        some ⟨Library.scale .float, [.node ⟨2⟩, .literal (.float 2)]⟩]⟩⟩) := rfl

theorem Build.stack_detached_on :
    (stack .float "Chain" (.node ⟨0⟩) Filter.detached).on .clock = (.ok ⟨3⟩,
      ⟨⟨#[some ⟨Library.time, []⟩,
        some ⟨Library.passThrough "Chain" .float, [.node ⟨0⟩]⟩,
        some ⟨Library.sin, [.node ⟨1⟩]⟩, some ⟨Library.cos, [.node ⟨0⟩]⟩]⟩⟩) := rfl

/-- The head of the first stack reaches its answer, the head of the second one does not. -/
theorem Build.stack_chains_clock :
    (∃ g' head, (stack .float "Chain" (.node ⟨0⟩) Filter.faded).on .clock = (.ok ⟨3⟩, g') ∧
      Graph.clock.contains head = false ∧ g'.Reaches ⟨3⟩ head ∧
      g'.Offers ⟨⟨3⟩, defaultOutput⟩ .float) ∧
    ∃ g' head, (stack .float "Chain" (.node ⟨0⟩) Filter.detached).on .clock = (.ok ⟨3⟩, g') ∧
      Graph.clock.contains head = false ∧ ¬ g'.Reaches ⟨3⟩ head := by
  constructor
  · obtain ⟨head, ids, _, _, _, offers, unissued, _, reaches, _⟩ :=
      stack_chains stack_faded_on (by decide)
    exact ⟨_, head, stack_faded_on, unissued.absent head (by simp),
      reaches 0 head rfl (by decide), offers⟩
  · obtain ⟨head, ids, _, _, _, _, unissued, _, _, cut⟩ :=
      stack_chains stack_detached_on (by decide)
    have listed : ∀ filter ∈ Filter.detached, filter.ListsIssued .clock := by
      simp only [Filter.detached, List.forall_mem_cons]
      refine ⟨by simp [Filter.ListsIssued], ?_, by simp⟩
      intro name source mem
      cases List.mem_singleton.mp mem
      rfl
    refine ⟨_, head, stack_detached_on, unissued.absent head (by simp), fun reached => ?_⟩
    exact absurd (cut Graph.readsIssued_clock listed 0 head rfl reached) (by decide)

/-- The answer is fed by the clock, and not by the sine before it. -/
theorem Build.listed_input_breaks_chain :
    ¬ ∀ g type name base filters answer g',
      (stack type name base filters).on g = (.ok answer, g') → g'.size ≤ UInt32.size →
        filters ≠ [] → ∃ node previous, g'.get? answer = some node ∧
          node.binding? "a" = some (.node previous) ∧ g.contains previous = false := by
  intro everywhere
  obtain ⟨node, previous, held, fed, new⟩ :=
    everywhere _ _ _ _ _ _ _ stack_detached_on (by decide) (by simp [Filter.detached])
  cases held
  obtain rfl : previous = ⟨0⟩ := by
    have clock : Binding.node ⟨0⟩ = Binding.node previous := Option.some.inj fed
    cases clock
    rfl
  cases new

end ParticleShading
