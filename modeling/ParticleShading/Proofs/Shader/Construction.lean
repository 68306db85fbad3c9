import ParticleShading.Proofs.Shader.Compilation
import ParticleShading.Proofs.Shader.Linearization

/-!
# Construction steps

What a construction step leaves behind. `Build.on` is opened once for every
basic step; after that a step is described by `Build.Extends`: it appends nodes
whose bindings were checked where they were made, and its answer has a property.
Inserted nodes, the fresh nodes behind open inputs and stacks all extend the
graph in this sense, whether they succeed or fail, and `define` does so up to
the moment when it fills its id.
-/

namespace ParticleShading

/-! ## Basic steps -/

namespace Build

variable {α β : Type} {g : Graph} {step : Build α} {next : α → Build β}

/-- The second step runs on what the first leaves behind, unless the first fails. -/
theorem on_bind : (step >>= next).on g =
    match step.on g with
    | (.ok a, g') => (next a).on g'
    | (.error e, g') => (.error e, g') := by
  simp only [on]
  rw [ExceptT.run_bind, StateT.run_bind]
  cases (StateT.run (ExceptT.run step) g) with
  | mk result g' => cases result <;> rfl

theorem on_check (f : Graph → Except ShaderError α) : (check f).on g = (f g, g) := by
  have read : (get : Build Graph).on g = (.ok g, g) := rfl
  rw [check, on_bind, read]
  dsimp only
  cases f g <;> rfl

theorem on_define (id : NodeId) (node : Node) : (define id node).on g =
    match g.nodes.define id node with
    | .ok nodes => (.ok id, ⟨nodes⟩)
    | .error e => (.error (.graph (.arena e)), g) := by
  change (match g.nodes.define id node with | .ok nodes => _ | .error e => _ : Build NodeId).on g = _
  cases g.nodes.define id node <;> rfl

end Build

/-! ## Growing graphs -/

/-- A binding has passed the check of an input. -/
def Binding.Checked (g : Graph) (owner : String) (input : Input Definition) : Binding → Prop
  | .literal value => value.type = input.type
  | .expr _ => True
  | .output source => g.checkOutput owner input.name input.type source = .ok ()

/-- A binding as an input of a type takes it: literals are coerced. -/
def Binding.coerce? (type : ValueType) : Binding → Option Binding
  | .literal value => (value.coerce? type).map .literal
  | .expr source => some (.expr source)
  | .output source => some (.output source)

/-- Every input is bound, and every binding has passed its check. -/
structure Node.Checked (g : Graph) (node : Node) : Prop where
  complete : node.bindings.length = node.definition.inputs.length
  bound : ∀ input binding, (input, binding) ∈ node.inputs → binding.Checked g node.name input

namespace Graph

def append (g : Graph) (node : Node) : Graph := ⟨(g.nodes.insert node).2⟩

/-- Nodes are appended one after another, each checked against the graph before it. -/
inductive Grows (g : Graph) : Graph → Prop where
  | refl : Grows g g
  | append {g' : Graph} {node : Node} (grown : Grows g g') (checked : node.Checked g') :
    Grows g (g'.append node)

variable {g g' : Graph} {id : NodeId} {node : Node} {owner input : String}
variable {expected : ValueType} {source : OutputRef}

theorem size_append : (g.append node).size = g.size + 1 := Arena.size_insert ..

theorem get?_append : (g.append node).get? id =
    if id.toNat = g.size then some node else g.get? id :=
  Arena.get?_insert ..

/-- A node of the longer graph is the latest one or an older one. -/
theorem get?_append_cases {fed : Node} (held : (g.append node).get? id = some fed) :
    id.toNat = g.size ∧ fed = node ∨ g.get? id = some fed := by
  rw [get?_append] at held
  split at held
  · rename_i latest
    cases held
    exact Or.inl ⟨latest, rfl⟩
  · exact Or.inr held

theorem Grows.trans {g'' : Graph} (h : g.Grows g') (h' : g'.Grows g'') : g.Grows g'' := by
  induction h' with
  | refl => exact h
  | append _ checked ih => exact ih.append checked

theorem Grows.size_le (h : g.Grows g') : g.size ≤ g'.size := by
  induction h with
  | refl => exact Nat.le_refl _
  | append _ _ ih =>
    rw [size_append]
    omega

theorem Grows.contains (h : g.Grows g') (issued : g.contains id = true) :
    g'.contains id = true := by
  have := contains_iff.mp issued
  have := h.size_le
  exact contains_iff.mpr (by omega)

/-- Growth changes no slot that is there. -/
theorem Grows.get? (h : g.Grows g') (issued : g.contains id = true) : g'.get? id = g.get? id := by
  induction h with
  | refl => rfl
  | append grown _ ih =>
    have := contains_iff.mp issued
    have := grown.size_le
    rw [get?_append, if_neg (by omega), ih]

theorem contains_of_checkOutput (h : g.checkOutput owner input expected source = .ok ()) :
    g.contains source.node = true := by
  cases issued : g.contains source.node with
  | true => rfl
  | false => simp [checkOutput, outputType, issued] at h

theorem Grows.checkOutput (h : g.Grows g')
    (fits : g.checkOutput owner input expected source = .ok ()) :
    g'.checkOutput owner input expected source = .ok () := by
  have issued := contains_of_checkOutput fits
  have issued' := h.contains issued
  have held := h.get? issued
  rw [Graph.checkOutput, Graph.outputType, issued', held]
  rwa [Graph.checkOutput, Graph.outputType, issued] at fits

end Graph

variable {g g' : Graph}

theorem Binding.Checked.grows {owner : String} {input : Input Definition} {binding : Binding}
    (checked : binding.Checked g owner input) (h : g.Grows g') :
    binding.Checked g' owner input := by
  cases binding with
  | literal value => exact checked
  | expr source => trivial
  | output source => exact h.checkOutput checked

theorem Node.Checked.grows {node : Node} (checked : node.Checked g) (h : g.Grows g') :
    node.Checked g' :=
  ⟨checked.complete, fun input binding mem => (checked.bound input binding mem).grows h⟩

/-! ## Steps that extend a graph -/

/-- A step that only appends checked nodes, and whose answer has a property. -/
structure Build.Extends {α : Type} (step : Build α) (g : Graph) (post : Graph → α → Prop) :
    Prop where
  grows : g.Grows (step.on g).2
  answers : ∀ a, (step.on g).1 = .ok a → post (step.on g).2 a

namespace Build.Extends

variable {α β : Type} {step : Build α} {next : α → Build β}
variable {post : Graph → α → Prop} {post' : Graph → β → Prop}

theorem pure {a : α} (h : post g a) : (pure a : Build α).Extends g post := by
  refine ⟨.refl, ?_⟩
  intro answer same
  cases same
  exact h

theorem throw (e : ShaderError) : (throw e : Build α).Extends g post :=
  ⟨.refl, fun _ same => by cases same⟩

theorem check {f : Graph → Except ShaderError α} (h : ∀ a, f g = .ok a → post g a) :
    (Build.check f).Extends g post := by
  constructor
  · rw [on_check]
    exact .refl
  · rw [on_check]
    exact h

theorem insert {node : Node} (checked : node.Checked g) :
    (Build.insert node).Extends g fun _ _ => True :=
  ⟨Graph.Grows.refl.append checked, fun _ _ => trivial⟩

/-- A step that comes to run as another on a grown graph. -/
theorem of_run {other : Build α} (ran : step.on g = other.on g') (grown : g.Grows g')
    (h : other.Extends g' post) : step.Extends g post := by
  constructor
  · rw [ran]
    exact grown.trans h.grows
  · rw [ran]
    exact h.answers

theorem of_failure {e : ShaderError} (ran : step.on g = (.error e, g')) (grown : g.Grows g') :
    step.Extends g post :=
  of_run ran grown (throw e)

/-- One step after another: the second extends whatever the first leaves behind. -/
theorem bind (first : step.Extends g post)
    (second : ∀ g' a, g.Grows g' → post g' a → (next a).Extends g' post') :
    (step >>= next).Extends g post' := by
  obtain ⟨grown, answers⟩ := first
  cases ran : step.on g with
  | mk result g' =>
    rw [ran] at grown answers
    cases result with
    | error e =>
      have failed : (step >>= next).on g = (.error e, g') := by rw [on_bind, ran]
      exact of_failure failed grown
    | ok a =>
      have passed : (step >>= next).on g = (next a).on g' := by rw [on_bind, ran]
      exact of_run passed grown (second g' a grown (answers a rfl))

/-- A check hands the graph on as it is. -/
theorem check_bind {f : Graph → Except ShaderError α}
    (h : ∀ a, f g = .ok a → (next a).Extends g post') :
    (Build.check f >>= next).Extends g post' := by
  cases found : f g with
  | error e =>
    have failed : (Build.check f >>= next).on g = (.error e, g) := by rw [on_bind, on_check, found]
    exact of_failure failed .refl
  | ok a =>
    have passed : (Build.check f >>= next).on g = (next a).on g := by rw [on_bind, on_check, found]
    exact of_run passed .refl (h a found)

end Build.Extends

/-! ## Open inputs -/

theorem Value.type_of_coerceFor {v coerced : Value} {owner input : String} {expected : ValueType}
    (h : v.coerceFor owner input expected = .ok coerced) : coerced.type = expected := by
  rw [coerceFor] at h
  split at h
  · rename_i done
    cases h
    exact type_of_coerce? done
  · cases h

namespace Definition

/-- What holds of a definition as soon as it holds of those behind its inputs holds of all. -/
theorem nested_induction {motive : Definition → Prop}
    (step : ∀ d : Definition, (∀ input ∈ d.inputs, ∀ inner,
      input.fallback = some (.node inner) → motive inner) → motive d) :
    ∀ d, motive d
  | ⟨name, inputs, outputs, vertex, fragment, uniforms, varying⟩ => by
    apply step
    intro input mem inner nested
    exact nested_induction step inner
termination_by d => sizeOf d
decreasing_by
  have outer := List.sizeOf_lt_of_mem mem
  cases input
  cases nested
  simp at outer ⊢
  omega

/-- What one input is fed from. -/
def feed (owner : String) (input : Input Definition) : Option Binding → Build Binding
  | some binding => pure binding
  | none =>
    match input.fallback with
    | none => throw (.unboundInput owner input.name)
    | some (.literal value) =>
      Build.check fun _ => (value.coerceFor owner input.name input.type).map .literal
    | some (.expr source) => pure (.expr source)
    | some (.node d) => do
      let id ← insertOpen d
      let source : OutputRef := ⟨id, defaultOutput⟩
      Build.check fun g => g.checkOutput owner input.name input.type source
      pure (.output source)

theorem fillOpen_cons (owner : String) (input : Input Definition) (rest : List (Input Definition))
    (given : List (Option Binding)) :
    fillOpen owner (input :: rest) given = do
      let binding ← feed owner input given.head?.join
      let bindings ← fillOpen owner rest given.tail
      return binding :: bindings := by
  obtain ⟨name, type, fallback⟩ := input
  rw [fillOpen.eq_def]
  dsimp only
  cases given.head?.join with
  | some binding => rfl
  | none =>
    match fallback with
    | none => rfl
    | some (.literal value) => rfl
    | some (.expr source) => rfl
    | some (.node d) => simp only [feed, bind_assoc]

theorem insertOpen_eq (d : Definition) :
    insertOpen d = (do
      Build.check fun _ => checkOpen d.name d.inputs
      let bindings ← fillOpen d.name d.inputs []
      Build.insert ⟨d, bindings⟩) := by
  cases d
  rw [insertOpen]

section Fill

variable {owner : String} {input : Input Definition} {inputs : List (Input Definition)}
variable {given : List (Option Binding)}

/-- What is bound has passed its check. -/
def Given (g : Graph) (owner : String) (inputs : List (Input Definition))
    (given : List (Option Binding)) : Prop :=
  ∀ input binding, (input, some binding) ∈ inputs.zip given → binding.Checked g owner input

theorem Given.grows (h : Given g owner inputs given) (grown : g.Grows g') :
    Given g' owner inputs given :=
  fun input binding mem => (h input binding mem).grows grown

theorem Given.head (h : Given g owner (input :: inputs) given) {binding : Binding}
    (here : given.head?.join = some binding) : binding.Checked g owner input := by
  cases given with
  | nil => cases here
  | cons first rest =>
    apply h
    rw [List.zip_cons_cons, ← here]
    exact List.mem_cons_self

theorem Given.tail (h : Given g owner (input :: inputs) given) :
    Given g owner inputs given.tail := by
  intro other binding mem
  cases given with
  | nil => simp at mem
  | cons first rest => exact h other binding (List.mem_cons_of_mem _ mem)

/-- The answer binds every input, and every binding has passed its check. -/
def Filled (owner : String) (inputs : List (Input Definition)) (g : Graph)
    (bindings : List Binding) : Prop :=
  bindings.length = inputs.length ∧
    ∀ input binding, (input, binding) ∈ inputs.zip bindings → binding.Checked g owner input

theorem feed_extends {given : Option Binding}
    (nested : ∀ d, input.fallback = some (.node d) → ∀ g, (insertOpen d).Extends g fun _ _ => True)
    (bound : ∀ {binding}, given = some binding → binding.Checked g owner input) :
    (feed owner input given).Extends g fun g binding => binding.Checked g owner input := by
  cases given with
  | some binding => exact .pure (bound rfl)
  | none =>
    rw [feed]
    split
    · exact .throw _
    · rename_i value _
      apply Build.Extends.check
      intro binding made
      obtain ⟨coerced, done, rfl⟩ := map_eq_ok_iff.mp made
      exact Value.type_of_coerceFor done
    · exact .pure trivial
    · rename_i d fallback
      apply (nested d fallback g).bind
      intro g' id _ _
      apply Build.Extends.check_bind
      intro _ fits
      exact .pure fits

theorem fillOpen_extends_of_nested
    (nested : ∀ input ∈ inputs, ∀ d, input.fallback = some (.node d) →
      ∀ g, (insertOpen d).Extends g fun _ _ => True)
    (bound : Given g owner inputs given) :
    (fillOpen owner inputs given).Extends g (Filled owner inputs) := by
  induction inputs generalizing g given with
  | nil =>
    rw [fillOpen]
    exact .pure ⟨rfl, by simp⟩
  | cons input rest ih =>
    rw [fillOpen_cons]
    have nested' : ∀ input ∈ rest, ∀ d, input.fallback = some (.node d) →
        ∀ g, (insertOpen d).Extends g fun _ _ => True :=
      fun input mem => nested input (List.mem_cons_of_mem _ mem)
    apply (feed_extends (nested input List.mem_cons_self) bound.head).bind
    intro g' binding grown checked
    -- the fallback nodes of this input are older than those of the rest
    apply (ih nested' (bound.tail.grows grown)).bind
    intro g'' bindings grown' filled
    refine .pure ⟨by simp [filled.1], ?_⟩
    intro other otherBinding mem
    rcases List.mem_cons.mp mem with same | mem
    · cases same
      exact checked.grows grown'
    · exact filled.2 other otherBinding mem

theorem insertOpen_extends (d : Definition) (g : Graph) :
    (insertOpen d).Extends g fun _ _ => True := by
  induction d using nested_induction generalizing g with
  | step d nested =>
    rw [insertOpen_eq]
    apply Build.Extends.check_bind
    intro _ _
    have given : Given g d.name d.inputs [] := by
      intro input binding mem
      simp at mem
    apply (fillOpen_extends_of_nested nested given).bind
    intro g' bindings _ filled
    exact .insert ⟨filled.1, filled.2⟩

theorem fillOpen_extends (bound : Given g owner inputs given) :
    (fillOpen owner inputs given).Extends g (Filled owner inputs) :=
  fillOpen_extends_of_nested (fun _ _ d _ => insertOpen_extends d) bound

theorem grows_of_fillOpen {bindings : List Binding} (bound : Given g owner inputs given)
    (filled : (fillOpen owner inputs given).on g = (.ok bindings, g')) :
    g.Grows g' ∧ Filled owner inputs g' bindings := by
  obtain ⟨grows, answers⟩ := fillOpen_extends bound
  rw [filled] at grows answers
  exact ⟨grows, answers bindings rfl⟩

end Fill

end Definition

/-! ## Drafts -/

/-- The first input of a name stands at the first position of the name. -/
theorem Definition.findInput?_eq_some {d : Definition} {input : String} {index : Nat}
    {slot : Input Definition} (at_index : d.inputs.findIdx? (·.name = input) = some index)
    (here : d.inputs[index]? = some slot) : d.findInput? input = some slot := by
  rw [findInput?, List.find?_eq_bind_findIdx?_getElem?, at_index]
  exact here

/-- What an input takes from a binding that is offered to it. -/
def Binding.take (g : Graph) (owner : String) (slot : Input Definition) :
    Binding → Except ShaderError Binding
  | .literal value => (value.coerceFor owner slot.name slot.type).map .literal
  | .output source =>
    (g.checkOutput owner slot.name slot.type source).map fun _ => .output source
  | .expr source => .ok (.expr source)

theorem Binding.take_eq_ok_iff {owner : String} {slot : Input Definition} {binding bound : Binding} :
    binding.take g owner slot = .ok bound ↔
      binding.coerce? slot.type = some bound ∧ bound.Checked g owner slot := by
  cases binding with
  | literal value =>
    cases done : value.coerce? slot.type with
    | none => simp [take, Value.coerceFor, coerce?, done, Except.map]
    | some coerced =>
      have typed := Value.type_of_coerce? done
      simp only [take, Value.coerceFor, coerce?, done, Except.map, Option.map_some]
      constructor
      · intro same
        cases same
        exact ⟨rfl, typed⟩
      · rintro ⟨same, _⟩
        cases same
        rfl
  | output source =>
    rw [take, map_eq_ok_iff]
    constructor
    · rintro ⟨_, fits, rfl⟩
      exact ⟨rfl, fits⟩
    · rintro ⟨same, fits⟩
      cases same
      exact ⟨(), fits, rfl⟩
  | expr source =>
    constructor
    · intro same
      cases same
      exact ⟨rfl, trivial⟩
    · rintro ⟨same, _⟩
      cases same
      rfl

namespace Draft

variable {draft next : Draft} {input : String} {binding : Binding}

/-- What is bound so far has passed its check. -/
def Checked (g : Graph) (draft : Draft) : Prop :=
  Definition.Given g draft.definition.name draft.definition.inputs draft.bindings

theorem checked_start (d : Definition) : (start d).Checked g := by
  intro input binding mem
  have none_bound := (List.of_mem_zip mem).2
  simp [start] at none_bound

/-- A binding is offered to the first input of the name. -/
theorem bind_eq {index : Nat} {slot : Input Definition}
    (at_index : draft.definition.inputs.findIdx? (·.name = input) = some index)
    (here : draft.definition.inputs[index]? = some slot) :
    draft.bind g input binding = (binding.take g draft.definition.name slot).map fun bound =>
      { draft with bindings := draft.bindings.set index (some bound) } := by
  have found := Definition.findInput?_eq_some at_index here
  have named : slot.name = input := by simpa using List.find?_some found
  simp only [bind, at_index, found]
  rw [← named]
  cases binding with
  | literal value =>
    dsimp only [Binding.take]
    cases value.coerceFor draft.definition.name slot.name slot.type <;> rfl
  | output source =>
    dsimp only [Binding.take]
    cases g.checkOutput draft.definition.name slot.name slot.type source <;> rfl
  | expr source => rfl

/-- A binding comes in under the first input of the name, once it is of its type and checked. -/
theorem bind_ok_iff : draft.bind g input binding = .ok next ↔
    ∃ index slot bound, draft.definition.inputs.findIdx? (·.name = input) = some index ∧
      draft.definition.inputs[index]? = some slot ∧ binding.coerce? slot.type = some bound ∧
      bound.Checked g draft.definition.name slot ∧
      next = { draft with bindings := draft.bindings.set index (some bound) } := by
  constructor
  · intro h
    cases at_index : draft.definition.inputs.findIdx? (·.name = input) with
    | none => simp [bind, at_index] at h
    | some index =>
      obtain ⟨inside, _⟩ := List.findIdx?_eq_some_iff_getElem.mp at_index
      have here := List.getElem?_eq_getElem inside
      rw [bind_eq at_index here] at h
      obtain ⟨bound, taken, rfl⟩ := map_eq_ok_iff.mp h
      obtain ⟨made, checked⟩ := Binding.take_eq_ok_iff.mp taken
      exact ⟨index, _, bound, rfl, here, made, checked, rfl⟩
  · rintro ⟨index, slot, bound, at_index, here, made, checked, rfl⟩
    rw [bind_eq at_index here]
    exact map_eq_ok_iff.mpr ⟨bound, Binding.take_eq_ok_iff.mpr ⟨made, checked⟩, rfl⟩

theorem Checked.bind (checked : draft.Checked g) (h : draft.bind g input binding = .ok next) :
    next.Checked g := by
  obtain ⟨index, slot, bound, _, here, _, fits, rfl⟩ := bind_ok_iff.mp h
  intro other binding mem
  obtain ⟨k, at_k⟩ := List.getElem?_of_mem mem
  obtain ⟨input_k, binding_k⟩ := List.getElem?_zip_eq_some.mp at_k
  by_cases same : index = k
  · subst same
    obtain rfl : slot = other := Option.some.inj (here.symm.trans input_k)
    have inside := (List.getElem?_eq_some_iff.mp binding_k).1
    rw [List.length_set] at inside
    rw [List.getElem?_set_self inside] at binding_k
    cases binding_k
    exact fits
  · rw [List.getElem?_set_ne same] at binding_k
    exact checked other binding
      (List.mem_of_getElem? (List.getElem?_zip_eq_some.mpr ⟨input_k, binding_k⟩))

theorem Checked.bindAll {bindings : List (String × Binding)} (checked : draft.Checked g)
    (h : draft.bindAll g bindings = .ok next) : next.Checked g := by
  induction bindings generalizing draft with
  | nil =>
    cases h
    exact checked
  | cons first rest ih =>
    obtain ⟨bound, head, tail⟩ := bind_eq_ok_iff.mp h
    exact ih (checked.bind head) tail

theorem Checked.resolve (checked : draft.Checked g) :
    draft.resolve.Extends g fun g node => node.Checked g := by
  apply Build.Extends.check_bind
  intro _ _
  apply (Definition.fillOpen_extends checked).bind
  intro g' bindings _ filled
  exact .pure ⟨filled.1, filled.2⟩

theorem Checked.insert (checked : draft.Checked g) :
    draft.insert.Extends g fun _ _ => True := by
  apply checked.resolve.bind
  intro g' node _ complete
  exact .insert complete

end Draft

namespace Build

theorem draft_extends (d : Definition) (bindings : List (String × Binding)) :
    (draft d bindings).Extends g fun g draft => draft.Checked g :=
  .check fun _ bound => (Draft.checked_start d).bindAll bound

theorem node_extends (d : Definition) (bindings : List (String × Binding)) :
    (node d bindings).Extends g fun _ _ => True := by
  apply (draft_extends d bindings).bind
  intro g' draft _ checked
  exact checked.insert

theorem chain_extends (type : ValueType) (previous : NodeId) (filters : List Filter) :
    (chain type previous filters).Extends g fun _ _ => True := by
  induction filters generalizing g previous with
  | nil => exact .pure trivial
  | cons filter rest ih =>
    apply Build.Extends.check_bind
    intro _ _
    apply (node_extends filter.definition (("a", .node previous) :: filter.bindings)).bind
    intro g' id _ _
    exact ih id

theorem stack_extends (type : ValueType) (name : String) (base : Binding)
    (filters : List Filter) :
    (stack type name base filters).Extends g fun _ _ => True := by
  apply (node_extends (Library.passThrough name type) [("a", base)]).bind
  intro g' head _ _
  exact chain_extends type head filters

end Build

namespace Draft

variable {draft : Draft} {id : NodeId}

/-- Only a reserved id is filled; any other is refused at once. -/
theorem define_refused (draft : Draft) (unreserved : g.contains id = true → g.get? id ≠ none) :
    ∃ error, (draft.define id).on g = (.error error, g) := by
  cases issued : g.contains id with
  | false =>
    refine ⟨.graph (.arena (.unknownHandle id.toNat)), ?_⟩
    simp [define, Build.on_bind, Build.on_check, issued]
  | true =>
    have defined : g.nodes.isDefined id = true :=
      Option.isSome_iff_ne_none.mpr (unreserved issued)
    refine ⟨.graph (.arena (.alreadyDefined id.toNat)), ?_⟩
    simp [define, Build.on_bind, Build.on_check, issued, defined]

theorem define_reserved (issued : g.contains id = true) (reserved : g.get? id = none) :
    (draft.define id).on g = (draft.resolve >>= Build.define id).on g := by
  have undefined : g.nodes.isDefined id = false := by
    rw [← Bool.not_eq_true, Arena.isDefined, Option.isSome_iff_ne_none, not_not]
    exact reserved
  simp [define, Build.on_bind, Build.on_check, issued, undefined]

/-- Filling an id only grows the graph, up to the point where a checked node is put under an id
that was reserved. -/
theorem Checked.define (checked : draft.Checked g) (id : NodeId) :
    (∃ error g', g.Grows g' ∧ (draft.define id).on g = (.error error, g')) ∨
      ∃ g' node nodes, g.contains id = true ∧ g.get? id = none ∧ g.Grows g' ∧ node.Checked g' ∧
        g'.nodes.define id node = .ok nodes ∧ (draft.define id).on g = (.ok id, ⟨nodes⟩) := by
  by_cases pending : g.contains id = true ∧ g.get? id = none
  · obtain ⟨issued, reserved⟩ := pending
    obtain ⟨grows, answers⟩ := checked.resolve
    rw [define_reserved issued reserved, Build.on_bind]
    cases resolved : draft.resolve.on g with
    | mk result g' =>
      rw [resolved] at grows answers
      cases result with
      | error e => exact Or.inl ⟨e, g', grows, rfl⟩
      | ok node =>
        simp only [Build.on_define]
        cases filled : g'.nodes.define id node with
        | error e => exact Or.inl ⟨.graph (.arena e), g', grows, rfl⟩
        | ok nodes =>
          exact Or.inr ⟨g', node, nodes, issued, reserved, grows, answers node rfl, filled, rfl⟩
  · obtain ⟨error, refused⟩ := define_refused draft (not_and.mp pending)
    exact Or.inl ⟨error, g, .refl, refused⟩

end Draft

end ParticleShading
