import ParticleShading.Proofs.Shader.Stacks

/-!
# Stacks that fail

A stack whose base is refused leaves nothing behind. Otherwise there is a first
filter that fails, and the graph is the one that the filters before it leave on
their own: each step of a stack either adds a complete node or changes nothing.
-/

namespace ParticleShading

/-- The filter has a main output that a stack of this type can hand on. -/
def Filter.Fits (type : ValueType) (filter : Filter) : Prop :=
  ∃ output, filter.definition.findOutput? defaultOutput = some output ∧
    type.accepts output.type = true

/-- What stops a stack at a filter behind a node: its main output, the first of its bindings that is
refused, or the insertion of its node. -/
inductive Filter.Refused (g : Graph) (type : ValueType) (previous : NodeId) (filter : Filter) :
    ShaderError → Prop where
  | missing (absent : filter.definition.findOutput? defaultOutput = none) :
    Refused g type previous filter (.graph (.missingOutput filter.definition.name defaultOutput))
  | misfit {output : Output}
      (found : filter.definition.findOutput? defaultOutput = some output)
      (unfit : type.accepts output.type = false) :
    Refused g type previous filter
      (.typeMismatch filter.definition.name defaultOutput type output.type)
  | binding {earlier later : List (String × Binding)} {input : String} {binding : Binding}
      {draft : Draft} {error : ShaderError} (fits : filter.Fits type)
      (listed : ("a", .node previous) :: filter.bindings = earlier ++ (input, binding) :: later)
      (accepted : (Draft.start filter.definition).bindAll g earlier = .ok draft)
      (refused : draft.bind g input binding = .error error) : Refused g type previous filter error
  | insertion {draft : Draft} {error : ShaderError} (fits : filter.Fits type)
      (accepted : (Draft.start filter.definition).bindAll g
        (("a", .node previous) :: filter.bindings) = .ok draft)
      (refused : draft.insert.on g = (.error error, g)) : Refused g type previous filter error

/-! ## One step -/

theorem Definition.checkMain_eq_error_iff {d : Definition} {owner input : String}
    {type : ValueType} {error : ShaderError} : d.checkMain owner input type = .error error ↔
      d.findOutput? defaultOutput = none ∧
        error = .graph (.missingOutput d.name defaultOutput) ∨
      ∃ output, d.findOutput? defaultOutput = some output ∧ type.accepts output.type = false ∧
        error = .typeMismatch owner input type output.type := by
  cases found : d.findOutput? defaultOutput with
  | none =>
    simp only [checkMain, found, Except.error.injEq, true_and, reduceCtorEq, false_and,
      exists_false, or_false]
    exact eq_comm
  | some output =>
    cases accepted : type.accepts output.type with
    | true => simp [checkMain, found, accepted]
    | false =>
      simp [checkMain, found, accepted]
      exact eq_comm

/-- Bindings that are refused have a first one that is. -/
theorem Draft.split_of_bindAll_error {g : Graph} {draft : Draft}
    {bindings : List (String × Binding)} {error : ShaderError}
    (failed : draft.bindAll g bindings = .error error) :
    ∃ earlier input binding later bound, bindings = earlier ++ (input, binding) :: later ∧
      draft.bindAll g earlier = .ok bound ∧ bound.bind g input binding = .error error := by
  induction bindings generalizing draft with
  | nil => cases failed
  | cons first rest ih =>
    obtain ⟨input, binding⟩ := first
    rcases bind_eq_error_iff.mp failed with refused | ⟨next, accepted, failed⟩
    · exact ⟨[], input, binding, rest, draft, rfl, rfl, refused⟩
    · obtain ⟨earlier, other, its, later, bound, rfl, before, refused⟩ := ih failed
      exact ⟨(input, binding) :: earlier, other, its, later, bound, rfl,
        bind_eq_ok_iff.mpr ⟨next, accepted, before⟩, refused⟩

namespace Build

variable {g g' : Graph} {d : Definition} {type : ValueType} {previous : NodeId}
variable {bindings : List (String × Binding)} {filter : Filter} {filters : List Filter}
variable {error : ShaderError}

/-- A node is refused when it is bound or when it is inserted, and leaves nothing behind. -/
theorem refused_of_node (failed : (node d bindings).on g = (.error error, g'))
    (small : g'.size ≤ UInt32.size) :
    g' = g ∧ ((Draft.start d).bindAll g bindings = .error error ∨
      ∃ draft, (Draft.start d).bindAll g bindings = .ok draft ∧
        draft.insert.on g = (.error error, g)) := by
  rcases draft_bind_on Draft.insert with ⟨e, refused, ran⟩ | ⟨draft, accepted, ready, ran⟩
  · cases failed.symm.trans ran
    exact ⟨rfl, Or.inl refused⟩
  · have inserting := ran.symm.trans failed
    obtain rfl := ready.insert_atomic error g' inserting small
    exact ⟨rfl, Or.inr ⟨draft, accepted, inserting⟩⟩

/-- The step of a chain that adds the node of a filter. -/
def link (type : ValueType) (previous : NodeId) (filter : Filter) : Build NodeId := do
  check fun _ => filter.definition.checkMain filter.definition.name defaultOutput type
  node filter.definition (("a", .node previous) :: filter.bindings)

/-- A filter that is refused leaves nothing behind. -/
theorem refused_of_link (failed : (link type previous filter).on g = (.error error, g'))
    (small : g'.size ≤ UInt32.size) : g' = g ∧ filter.Refused g type previous error := by
  rcases on_bind_eq_error_iff.mp failed with checked | ⟨_, _, checked, inserting⟩
  · rw [on_check] at checked
    obtain ⟨misfit, rfl⟩ := Prod.mk.inj checked
    rcases Definition.checkMain_eq_error_iff.mp misfit with
      ⟨absent, rfl⟩ | ⟨output, found, unfit, rfl⟩
    · exact ⟨rfl, .missing absent⟩
    · exact ⟨rfl, .misfit found unfit⟩
  · rw [on_check] at checked
    obtain ⟨passed, rfl⟩ := Prod.mk.inj checked
    have fits := Definition.checkMain_eq_ok_iff.mp passed
    obtain ⟨rfl, refused | ⟨draft, accepted, refused⟩⟩ := refused_of_node inserting small
    · obtain ⟨earlier, input, binding, later, draft, listed, accepted, refused⟩ :=
        Draft.split_of_bindAll_error refused
      exact ⟨rfl, .binding fits listed accepted refused⟩
    · exact ⟨rfl, .insertion fits accepted refused⟩

/-! ## Chains and stacks -/

theorem chain_on (rest : List Filter) : (chain type previous (filter :: rest)).on g =
    match (link type previous filter).on g with
    | (.ok id, g') => (chain type id rest).on g'
    | (.error e, g') => (.error e, g') := by
  have step : chain type previous (filter :: rest) =
      link type previous filter >>= fun id => chain type id rest := by
    rw [link, bind_assoc, chain]
  rw [step, on_bind]
  cases (link type previous filter).on g with
  | mk result g' => cases result <;> rfl

/-- The first filter that fails in a chain. The filters before it are accepted and leave the same
graph behind, and those after it are not looked at. -/
theorem chain_stops (failed : (chain type previous filters).on g = (.error error, g'))
    (small : g'.size ≤ UInt32.size) :
    ∃ (k : Nat) (filter : Filter) (before : NodeId), filters[k]? = some filter ∧
      (chain type previous (filters.take k)).on g = (.ok before, g') ∧
      filter.Refused g' type before error ∧
      (∀ j ≤ k, ∃ last middle, (chain type previous (filters.take j)).on g = (.ok last, middle)) ∧
      ∀ j, k < j → (chain type previous (filters.take j)).on g = (.error error, g') := by
  induction filters generalizing g previous with
  | nil => cases failed
  | cons filter rest ih =>
    rw [chain_on] at failed
    cases linked : (link type previous filter).on g with
    | mk result middle =>
      rw [linked] at failed
      cases result with
      | error e =>
        cases failed
        obtain ⟨rfl, refused⟩ := refused_of_link linked small
        refine ⟨0, filter, previous, rfl, rfl, refused, ?_, ?_⟩
        · intro j first
          obtain rfl := Nat.le_zero.mp first
          exact ⟨previous, _, rfl⟩
        · intro j behind
          obtain ⟨j, rfl⟩ := Nat.exists_eq_succ_of_ne_zero (Nat.pos_iff_ne_zero.mp behind)
          rw [List.take_succ_cons, chain_on, linked]
      | ok id =>
        have step (j : Nat) : (chain type previous ((filter :: rest).take (j + 1))).on g =
            (chain type id (rest.take j)).on middle := by
          rw [List.take_succ_cons, chain_on, linked]
        obtain ⟨k, other, before, at_k, ran, refused, accepted, stopped⟩ := ih failed
        refine ⟨k + 1, other, before, at_k, (step k).trans ran, refused, ?_, ?_⟩
        · intro j within
          cases j with
          | zero => exact ⟨previous, g, rfl⟩
          | succ j =>
            rw [step]
            exact accepted j (Nat.le_of_succ_le_succ within)
        · intro j behind
          cases j with
          | zero => cases behind
          | succ j =>
            rw [step]
            exact stopped j (Nat.lt_of_succ_lt_succ behind)

/-- A head has one input, so it is refused only if its base is. -/
theorem bind_of_head_error {name : String} {base : Binding}
    (failed : (node (Library.passThrough name type) [("a", base)]).on g = (.error error, g'))
    (small : g'.size ≤ UInt32.size) :
    g' = g ∧ (Draft.start (Library.passThrough name type)).bind g "a" base = .error error := by
  obtain ⟨rfl, refused | ⟨draft, accepted, refused⟩⟩ := refused_of_node failed small
  · refine ⟨rfl, ?_⟩
    rcases bind_eq_error_iff.mp refused with refused | ⟨_, _, refused⟩
    · exact refused
    · cases refused
  · have ready := Draft.ready_bindAll accepted
    obtain ⟨bound, first, last⟩ := bind_eq_ok_iff.mp accepted
    cases last
    obtain ⟨index, slot, taken, at_index, _, _, _, rfl⟩ := Draft.bind_ok_iff.mp first
    cases at_index
    rcases ready.insert_on (by rwa [refused]) with ⟨e, unfilled, _⟩ | ⟨_, ran⟩
    · have closed : Draft.openInputs ⟨Library.passThrough name type, [some taken]⟩ = [] := rfl
      change Definition.checkOpen name
        (Draft.openInputs ⟨Library.passThrough name type, [some taken]⟩) = _ at unfilled
      rw [closed, Definition.checkOpen] at unfilled
      cases unfilled
    · cases refused.symm.trans ran

theorem bind_of_head_ok {name : String} {base : Binding} {head : NodeId}
    (inserted : (node (Library.passThrough name type) [("a", base)]).on g = (.ok head, g')) :
    ∃ draft, (Draft.start (Library.passThrough name type)).bind g "a" base = .ok draft := by
  obtain ⟨draft, _, drafted, _⟩ := on_bind_eq_ok_iff.mp inserted
  rw [draft_on] at drafted
  obtain ⟨draft, first, _⟩ := bind_eq_ok_iff.mp (Prod.mk.inj drafted).1
  exact ⟨draft, first⟩

/-- A stack that fails changes nothing if its base is refused, with the error of that. Otherwise
there is a first filter that fails, the error is that of its own check, of one of its bindings or of
its insertion, and the graph is what the filters before it leave on their own. No slot that was
there is changed, and every new one has a node. -/
theorem stack_stops {name : String} {base : Binding}
    (failed : (stack type name base filters).on g = (.error error, g'))
    (small : g'.size ≤ UInt32.size) :
    (∀ refusal, (Draft.start (Library.passThrough name type)).bind g "a" base = .error refusal →
      error = refusal ∧ g' = g) ∧
    (∀ draft, (Draft.start (Library.passThrough name type)).bind g "a" base = .ok draft →
      ∃ (k : Nat) (filter : Filter) (before : NodeId), filters[k]? = some filter ∧
        (stack type name base (filters.take k)).on g = (.ok before, g') ∧
        filter.Refused g' type before error ∧
        (∀ j ≤ k, ∃ last middle,
          (stack type name base (filters.take j)).on g = (.ok last, middle)) ∧
        ∀ j, k < j → (stack type name base (filters.take j)).on g = (.error error, g')) ∧
    (∀ id, g.contains id = true → g'.get? id = g.get? id) ∧
    (∀ id, g'.Pending id → g.Pending id) ∧ g'.pendingCount = g.pendingCount := by
  have grows := (stack_extends type name base filters).grows_of_on failed
  refine ⟨?_, ?_, fun id => grows.get?, fun id => grows.pending, grows.pendingCount⟩
  · intro refusal refused
    rcases on_bind_eq_error_iff.mp failed with first | ⟨head, middle, inserted, _⟩
    · obtain ⟨rfl, same⟩ := bind_of_head_error first small
      exact ⟨Except.error.inj (same.symm.trans refused), rfl⟩
    · obtain ⟨draft, accepted⟩ := bind_of_head_ok inserted
      cases accepted.symm.trans refused
  · intro draft accepted
    rcases on_bind_eq_error_iff.mp failed with first | ⟨head, middle, inserted, later⟩
    · obtain ⟨_, refused⟩ := bind_of_head_error first small
      cases accepted.symm.trans refused
    have behind (others : List Filter) :
        (stack type name base others).on g = (chain type head others).on middle := by
      rw [stack, on_bind, inserted]
    simp only [behind]
    exact chain_stops later small

end Build

/-- A node with a wave that is out of tune behind its second input. -/
def Definition.offKey : Definition :=
  { name := "OffKey"
    inputs := [Library.required "a" .float, Library.fedBy "pitch" .float .detuned]
    outputs := Library.main .float "in_a * in_pitch" }

/-- Between a sine and a cosine, a node whose default tree does not fit. -/
def Filter.offKey : List Filter := [⟨Library.sin, []⟩, ⟨.offKey, []⟩, ⟨Library.cos, []⟩]

namespace Build

theorem stack_offKey_on : (stack .float "Chain" (.node ⟨0⟩) Filter.offKey).on .clock =
    (.error (.typeMismatch "Misled" "time" .vec3 .float), ⟨⟨#[some ⟨Library.time, []⟩,
      some ⟨Library.passThrough "Chain" .float, [.node ⟨0⟩]⟩,
      some ⟨Library.sin, [.node ⟨1⟩]⟩]⟩⟩) := rfl

/-- The misfit is found three trees down, when the sine is already there. -/
theorem stack_stops_offKey :
    ∃ g', (stack .float "Chain" (.node ⟨0⟩) Filter.offKey).on .clock =
        (.error (.typeMismatch "Misled" "time" .vec3 .float), g') ∧
      g'.size = 3 ∧ g'.pendingCount = Graph.clock.pendingCount ∧
      ∃ before, (stack .float "Chain" (.node ⟨0⟩) (Filter.offKey.take 1)).on .clock =
          (.ok before, g') ∧
        (⟨.offKey, []⟩ : Filter).Refused g' .float before
          (.typeMismatch "Misled" "time" .vec3 .float) := by
  have accepted : (Draft.start (Library.passThrough "Chain" .float)).bind .clock "a" (.node ⟨0⟩) =
      .ok ⟨Library.passThrough "Chain" .float, [some (.node ⟨0⟩)]⟩ := rfl
  obtain ⟨_, stops, _, _, pending⟩ := stack_stops stack_offKey_on (by decide)
  obtain ⟨k, filter, before, at_k, ran, refused, earlier, later⟩ := stops _ accepted
  have sine : (stack .float "Chain" (.node ⟨0⟩) (Filter.offKey.take 1)).on .clock = (.ok ⟨2⟩,
      ⟨⟨#[some ⟨Library.time, []⟩, some ⟨Library.passThrough "Chain" .float, [.node ⟨0⟩]⟩,
        some ⟨Library.sin, [.node ⟨1⟩]⟩]⟩⟩) := rfl
  have untuned : ((stack .float "Chain" (.node ⟨0⟩) (Filter.offKey.take 2)).on .clock).1 =
      .error (.typeMismatch "Misled" "time" .vec3 .float) := rfl
  obtain rfl : k = 1 := by
    rcases Nat.lt_trichotomy k 1 with first | rfl | last
    · cases sine.symm.trans (later 1 first)
    · rfl
    · obtain ⟨_, _, ran⟩ := earlier 2 last
      rw [ran] at untuned
      cases untuned
  cases at_k
  exact ⟨_, stack_offKey_on, rfl, pending, before, ran, refused⟩

end Build

end ParticleShading
