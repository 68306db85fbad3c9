import ParticleShading.Proofs.Shader.Construction

/-!
# Fresh nodes behind open inputs

Where the fresh nodes behind open inputs come to stand. A tree of nested
definitions takes as many slots in a row as it has nodes, every node after the
nodes behind its own inputs; `Definition.tree` and `Definition.supply` say so as
functions of the first slot alone. What the graph calls build is exactly that,
as long as the slots have ids of their own.
-/

namespace ParticleShading

/-- The id of a slot. -/
def Handle.slot (n : Nat) : Handle := ⟨UInt32.ofNat (min n (UInt32.size - 1))⟩

theorem Handle.toNat_slot {n : Nat} (h : n < UInt32.size) : (slot n).toNat = n := by
  have size : UInt32.size = 4294967296 := rfl
  simp only [slot, toNat, UInt32.toNat_ofNat']
  omega

theorem Handle.slot_inj {m n : Nat} (hm : m < UInt32.size) (hn : n < UInt32.size) :
    slot m = slot n ↔ m = n := by
  rw [← Handle.toNat_inj, toNat_slot hm, toNat_slot hn]

/-! ## Appended nodes -/

namespace Graph

variable {g : Graph} {nodes : List Node} {id : NodeId} {node : Node}

def appendAll (g : Graph) (nodes : List Node) : Graph := nodes.foldl append g

theorem appendAll_append (g : Graph) (nodes later : List Node) :
    g.appendAll (nodes ++ later) = (g.appendAll nodes).appendAll later :=
  List.foldl_append

theorem size_appendAll : (g.appendAll nodes).size = g.size + nodes.length := by
  induction nodes generalizing g with
  | nil => rfl
  | cons node rest ih =>
    have later : (g.appendAll (node :: rest)).size = (g.append node).size + rest.length := ih
    rw [later, size_append, List.length_cons]
    omega

theorem get?_of_size_le (h : g.size ≤ id.toNat) : g.get? id = none :=
  Arena.get?_of_size_le h

theorem get?_appendAll : (g.appendAll nodes).get? id =
    if id.toNat < g.size then g.get? id else nodes[id.toNat - g.size]? := by
  induction nodes generalizing g with
  | nil =>
    split
    · rfl
    · rename_i outside
      exact get?_of_size_le (Nat.le_of_not_lt outside)
  | cons node rest ih =>
    have later : (g.appendAll (node :: rest)).get? id = ((g.append node).appendAll rest).get? id :=
      rfl
    rw [later, ih, size_append, get?_append]
    by_cases older : id.toNat < g.size
    · rw [if_pos (by omega), if_neg (by omega), if_pos older]
    · by_cases first : id.toNat = g.size
      · simp [first]
      · have position : id.toNat - g.size = id.toNat - (g.size + 1) + 1 := by omega
        rw [if_neg (by omega), if_neg older, position, List.getElem?_cons_succ]

/-- Nodes stand in the slots from a position on. -/
def Holds (g : Graph) (start : Nat) (nodes : List Node) : Prop :=
  ∀ j node, nodes[j]? = some node → g.get? (.slot (start + j)) = some node

/-- Appended nodes stand behind those of the graph. -/
theorem holds_appendAll (small : g.size + nodes.length ≤ UInt32.size) :
    (g.appendAll nodes).Holds g.size nodes := by
  intro j node at_j
  have inside := (List.getElem?_eq_some_iff.mp at_j).1
  rw [get?_appendAll, Handle.toNat_slot (by omega), if_neg (by omega), Nat.add_sub_cancel_left]
  exact at_j

theorem holds_append {start : Nat} {later : List Node} : g.Holds start (nodes ++ later) ↔
    g.Holds start nodes ∧ g.Holds (start + nodes.length) later := by
  constructor
  · intro h
    constructor
    · intro j node at_j
      have inside := (List.getElem?_eq_some_iff.mp at_j).1
      exact h j node ((List.getElem?_append_left inside).trans at_j)
    · intro j node at_j
      rw [Nat.add_assoc]
      apply h
      rwa [List.getElem?_append_right (Nat.le_add_right ..), Nat.add_sub_cancel_left]
  · rintro ⟨first, second⟩ j node at_j
    rw [List.getElem?_append] at at_j
    split at at_j
    · exact first j node at_j
    · have position : start + j = start + nodes.length + (j - nodes.length) := by omega
      rw [position]
      exact second _ node at_j

end Graph

/-! ## Layout -/

namespace Definition

mutual

/-- The fresh nodes behind inputs, from a slot on, and what feeds each input. An open input without
a fallback is refused; here it reads zero. -/
def supply (start : Nat) :
    List (Input Definition) → List (Option Binding) → List Node × List Binding
  | [], _ => ([], [])
  | ⟨_, type, fallback⟩ :: rest, given =>
    let first : List Node × Binding := match given.head?.join, fallback with
      | some binding, _ => ([], binding)
      | none, none => ([], .literal (.zero type))
      | none, some (.literal value) => ([], .literal ((value.coerce? type).getD (.zero type)))
      | none, some (.expr source) => ([], .expr source)
      | none, some (.node d) =>
        let nodes := tree start d
        (nodes, .node (.slot (start + nodes.length - 1)))
    let later := supply (start + first.1.length) rest given.tail
    (first.1 ++ later.1, first.2 :: later.2)

/-- A node with all inputs open, from a slot on, behind the nodes that feed it. -/
def tree (start : Nat) : Definition → List Node
  | ⟨name, inputs, outputs, vertex, fragment, uniforms, varying⟩ =>
    let (nodes, bindings) := supply start inputs []
    nodes ++ [⟨⟨name, inputs, outputs, vertex, fragment, uniforms, varying⟩, bindings⟩]

end

/-- The fresh nodes behind one input and what feeds it. -/
def supplyOne (start : Nat) (input : Input Definition) : Option Binding → List Node × Binding
  | some binding => ([], binding)
  | none =>
    match input.fallback with
    | none => ([], .literal (.zero input.type))
    | some (.literal value) =>
      ([], .literal ((value.coerce? input.type).getD (.zero input.type)))
    | some (.expr source) => ([], .expr source)
    | some (.node d) => (d.tree start, .node (.slot (start + (d.tree start).length - 1)))

variable {start : Nat} {owner : String} {input : Input Definition}
variable {inputs : List (Input Definition)} {given : List (Option Binding)} {d : Definition}

theorem supply_nil : supply start [] given = ([], []) := by rw [supply]

theorem supply_cons (start : Nat) (input : Input Definition) (inputs : List (Input Definition))
    (given : List (Option Binding)) :
    supply start (input :: inputs) given =
      let first := supplyOne start input given.head?.join
      let later := supply (start + first.1.length) inputs given.tail
      (first.1 ++ later.1, first.2 :: later.2) := by
  obtain ⟨name, type, fallback⟩ := input
  rw [supply.eq_def]
  dsimp only
  cases given.head?.join with
  | some binding => rfl
  | none =>
    match fallback with
    | none => rfl
    | some (.literal value) => rfl
    | some (.expr source) => rfl
    | some (.node d) => rfl

theorem tree_eq (start : Nat) (d : Definition) :
    d.tree start = (supply start d.inputs []).1 ++ [⟨d, (supply start d.inputs []).2⟩] := by
  cases d
  rw [tree]

/-- The node itself comes last. -/
theorem getElem?_tree_root (start : Nat) (d : Definition) :
    (d.tree start)[(d.tree start).length - 1]? = some ⟨d, (supply start d.inputs []).2⟩ := by
  rw [tree_eq]
  simp

theorem length_tree_pos (start : Nat) (d : Definition) : 0 < (d.tree start).length := by
  rw [tree_eq]
  simp

/-- Every input is fed. -/
theorem length_supply (start : Nat) (inputs : List (Input Definition))
    (given : List (Option Binding)) : (supply start inputs given).2.length = inputs.length := by
  induction inputs generalizing start given with
  | nil =>
    rw [supply_nil]
    rfl
  | cons input rest ih =>
    rw [supply_cons]
    exact congrArg (· + 1) (ih ..)

/-! ## The calls that fill open inputs -/

/-- Whether an input can be filled by its fallback. -/
def checkFallback (owner : String) (input : Input Definition) : Except ShaderError Unit :=
  match input.fallback with
  | none => .error (.unboundInput owner input.name)
  | some (.literal value) => discard (value.coerceFor owner input.name input.type)
  | some (.expr _) => .ok ()
  | some (.node d) => do
    d.checkMain owner input.name input.type
    checkOpen d.name d.inputs

theorem checkOpen_eq_ok_iff :
    checkOpen owner inputs = .ok () ↔ ∀ input ∈ inputs, checkFallback owner input = .ok () := by
  induction inputs with
  | nil => simp [checkOpen]
  | cons input rest ih =>
    have cons : checkOpen owner (input :: rest) =
        checkFallback owner input >>= fun _ => checkOpen owner rest := by
      obtain ⟨name, type, fallback⟩ := input
      rw [checkOpen.eq_def]
      rcases fallback with _ | value | source | d
      · rfl
      · rfl
      · rfl
      · cases d
        simp only [checkFallback, checkInputs, bind_assoc]
    rw [cons, bind_eq_ok_iff, List.forall_mem_cons, ← ih]
    constructor
    · rintro ⟨_, first, later⟩
      exact ⟨first, later⟩
    · rintro ⟨first, later⟩
      exact ⟨(), first, later⟩

/-- Open inputs have fallbacks that can fill them. -/
def Supplied (owner : String) (inputs : List (Input Definition)) (given : List (Option Binding)) :
    Prop :=
  ∀ (k : Nat) (input : Input Definition), inputs[k]? = some input → given[k]?.join = none →
    checkFallback owner input = .ok ()

theorem Supplied.head (h : Supplied owner (input :: inputs) given)
    (free : given.head?.join = none) : checkFallback owner input = .ok () :=
  h 0 input rfl (by rwa [← List.head?_eq_getElem?])

theorem Supplied.tail (h : Supplied owner (input :: inputs) given) :
    Supplied owner inputs given.tail := by
  intro k other at_k free
  rw [List.getElem?_tail] at free
  exact h (k + 1) other at_k free

theorem supplied_of_checkOpen (h : checkOpen owner inputs = .ok ()) :
    Supplied owner inputs given :=
  fun _ input at_k _ => checkOpen_eq_ok_iff.mp h input (List.mem_of_getElem? at_k)

end Definition

namespace Build

variable {α β : Type} {g : Graph} {step : Build α} {next : α → Build β}

theorem on_bind_eq_ok_iff {b : β} {g' : Graph} : (step >>= next).on g = (.ok b, g') ↔
    ∃ a middle, step.on g = (.ok a, middle) ∧ (next a).on middle = (.ok b, g') := by
  rw [on_bind]
  cases step.on g with
  | mk result middle => cases result <;> simp

theorem on_bind_eq_error_iff {error : ShaderError} {g' : Graph} :
    (step >>= next).on g = (.error error, g') ↔ step.on g = (.error error, g') ∨
      ∃ a middle, step.on g = (.ok a, middle) ∧ (next a).on middle = (.error error, g') := by
  rw [on_bind]
  cases step.on g with
  | mk result middle => cases result <;> simp

theorem on_insert (node : Node) : (insert node).on g = (.ok (.slot g.size), g.append node) := rfl

/-- A first step leaves no more slots behind than both together. -/
theorem size_le_bind
    (later : ∀ a g', step.on g = (.ok a, g') → g'.size ≤ ((next a).on g').2.size) :
    (step.on g).2.size ≤ ((step >>= next).on g).2.size := by
  rw [on_bind]
  cases ran : step.on g with
  | mk result g' =>
    cases result with
    | error e => exact Nat.le_refl _
    | ok a => exact later a g' ran

end Build

namespace Definition

section Calls

variable {g : Graph} {owner : String} {input : Input Definition}
variable {inputs : List (Input Definition)} {given : List (Option Binding)}

theorem checkMain_eq_ok_iff {d : Definition} {name : String} {type : ValueType} :
    d.checkMain owner name type = .ok () ↔
      ∃ output, d.findOutput? defaultOutput = some output ∧ type.accepts output.type = true := by
  cases found : d.findOutput? defaultOutput with
  | none => simp [checkMain, found]
  | some output => simp [checkMain, found]

/-- The main output of the tree of a definition fits an input if the definition was checked. -/
theorem checkOutput_tree {d : Definition} {name : String} {type : ValueType}
    (fits : d.checkMain owner name type = .ok ())
    (small : g.size + (d.tree g.size).length ≤ UInt32.size) :
    (g.appendAll (d.tree g.size)).checkOutput owner name type
      ⟨.slot (g.size + (d.tree g.size).length - 1), defaultOutput⟩ = .ok () := by
  have held : (g.appendAll (d.tree g.size)).get?
      (.slot (g.size + (d.tree g.size).length - 1)) = some ⟨d, (supply g.size d.inputs []).2⟩ := by
    rw [Nat.add_sub_assoc (length_tree_pos g.size d)]
    exact Graph.holds_appendAll small _ _ (getElem?_tree_root g.size d)
  exact Iff.mpr (Graph.checkOutput_eq_ok_iff held) (checkMain_eq_ok_iff.mp fits)

/-- Inserting a definition with all inputs open appends its tree, if the graph that is left behind
has no more slots than there are ids. -/
def Lays (d : Definition) : Prop :=
  ∀ g, checkOpen d.name d.inputs = .ok () → ((insertOpen d).on g).2.size ≤ UInt32.size →
    (insertOpen d).on g =
      (.ok (.slot (g.size + (d.tree g.size).length - 1)), g.appendAll (d.tree g.size))

theorem feed_on {given : Option Binding}
    (nested : ∀ d, input.fallback = some (.node d) → d.Lays)
    (supplied : given = none → checkFallback owner input = .ok ())
    (small : ((feed owner input given).on g).2.size ≤ UInt32.size) :
    (feed owner input given).on g =
      (.ok (supplyOne g.size input given).2, g.appendAll (supplyOne g.size input given).1) := by
  cases given with
  | some binding => rfl
  | none =>
    have passed := supplied rfl
    obtain ⟨name, type, fallback⟩ := input
    match fallback with
    | none => cases passed
    | some (.expr source) => rfl
    | some (.literal value) =>
      cases coerced : value.coerce? type with
      | none =>
        simp only [checkFallback, Value.coerceFor, coerced] at passed
        cases passed
      | some result =>
        simp [feed, supplyOne, Build.on_check, Value.coerceFor, coerced, Except.map,
          Graph.appendAll]
    | some (.node d) =>
      obtain ⟨_, fits, inner⟩ := bind_eq_ok_iff.mp passed
      rw [feed] at small ⊢
      have small' : ((insertOpen d).on g).2.size ≤ UInt32.size := by
        refine Nat.le_trans (Build.size_le_bind fun id g' _ => ?_) small
        rw [Build.on_bind, Build.on_check]
        dsimp only
        cases g'.checkOutput owner name type ⟨id, defaultOutput⟩ <;> exact Nat.le_refl _
      have inserted := nested d rfl g inner small'
      rw [inserted, Graph.size_appendAll] at small'
      rw [Build.on_bind, inserted]
      dsimp only
      rw [Build.on_bind, Build.on_check, checkOutput_tree fits small']
      rfl

theorem fillOpen_on_of_nested
    (nested : ∀ input ∈ inputs, ∀ d, input.fallback = some (.node d) → d.Lays)
    (bound : Given g owner inputs given) (supplied : Supplied owner inputs given)
    (small : ((fillOpen owner inputs given).on g).2.size ≤ UInt32.size) :
    (fillOpen owner inputs given).on g =
      (.ok (supply g.size inputs given).2, g.appendAll (supply g.size inputs given).1) := by
  induction inputs generalizing g given with
  | nil =>
    rw [fillOpen, supply_nil]
    rfl
  | cons input rest ih =>
    rw [fillOpen_cons] at small ⊢
    have first := feed_extends (fun d _ => insertOpen_extends d) bound.head
    have later {g' : Graph} (grown : g.Grows g') :=
      fillOpen_extends (bound.tail.grows grown)
    have small' : ((feed owner input given.head?.join).on g).2.size ≤ UInt32.size := by
      refine Nat.le_trans (Build.size_le_bind fun binding g' ran => ?_) small
      have grown := first.grows
      rw [ran] at grown
      refine Nat.le_trans (later grown).grows.size_le (Build.size_le_bind fun _ _ _ => ?_)
      exact Nat.le_refl _
    have fed := feed_on (nested input List.mem_cons_self) supplied.head small'
    have grown := first.grows
    rw [fed] at grown
    rw [Build.on_bind, fed] at small ⊢
    dsimp only at small grown ⊢
    have small'' := Nat.le_trans (Build.size_le_bind fun _ _ _ => Nat.le_refl _) small
    have filled := ih (fun input mem => nested input (List.mem_cons_of_mem _ mem))
      (bound.tail.grows grown) supplied.tail small''
    rw [Build.on_bind, filled, Graph.size_appendAll, ← Graph.appendAll_append, supply_cons]
    rfl

theorem lays (d : Definition) : d.Lays := by
  induction d using nested_induction with
  | step d nested =>
    intro g passed small
    rw [insertOpen_eq] at small ⊢
    rw [Build.on_bind, Build.on_check, passed] at small ⊢
    dsimp only at small ⊢
    have bound : Given g d.name d.inputs [] := by
      intro input binding mem
      simp at mem
    have supplied : Supplied d.name d.inputs [] := supplied_of_checkOpen passed
    have appended (bindings : List Binding) (g' : Graph) :
        g'.size ≤ ((Build.insert ⟨d, bindings⟩).on g').2.size := by
      rw [Build.on_insert, Graph.size_append]
      exact Nat.le_succ _
    have small' := Nat.le_trans (Build.size_le_bind fun bindings g' _ => appended bindings g') small
    have last : g.size + (d.tree g.size).length - 1 =
        g.size + (supply g.size d.inputs []).1.length := by
      rw [tree_eq, List.length_append]
      rfl
    rw [Build.on_bind, fillOpen_on_of_nested nested bound supplied small', last, tree_eq,
      Graph.appendAll_append, ← Graph.size_appendAll]
    rfl

/-- Open inputs are filled as the layout says, if the graph that is left behind has no more slots
than there are ids. -/
theorem fillOpen_on (bound : Given g owner inputs given) (supplied : Supplied owner inputs given)
    (small : ((fillOpen owner inputs given).on g).2.size ≤ UInt32.size) :
    (fillOpen owner inputs given).on g =
      (.ok (supply g.size inputs given).2, g.appendAll (supply g.size inputs given).1) :=
  fillOpen_on_of_nested (fun _ _ d _ => d.lays) bound supplied small

/-- The fresh nodes stand behind those of the graph, and the inputs read them. -/
theorem laid_of_fillOpen {bindings : List Binding} {g' : Graph} (bound : Given g owner inputs given)
    (supplied : Supplied owner inputs given)
    (filled : (fillOpen owner inputs given).on g = (.ok bindings, g'))
    (small : g'.size ≤ UInt32.size) :
    bindings = (supply g.size inputs given).2 ∧
      g'.size = g.size + (supply g.size inputs given).1.length ∧
      g'.Holds g.size (supply g.size inputs given).1 := by
  have laid := fillOpen_on bound supplied (by rwa [filled])
  rw [filled] at laid
  cases laid
  rw [Graph.size_appendAll] at small
  exact ⟨rfl, Graph.size_appendAll, Graph.holds_appendAll small⟩

/-- What is bound stays bound. -/
theorem getElem?_of_fillOpen {bindings : List Binding} {g' : Graph}
    (filled : (fillOpen owner inputs given).on g = (.ok bindings, g')) {k : Nat}
    {binding : Binding} (inside : k < inputs.length) (bound : given[k]? = some (some binding)) :
    bindings[k]? = some binding := by
  induction inputs generalizing g given bindings k with
  | nil => cases inside
  | cons input rest ih =>
    rw [fillOpen_cons] at filled
    obtain ⟨first, middle, fed, filled⟩ := Build.on_bind_eq_ok_iff.mp filled
    obtain ⟨later, _, filled', answer⟩ := Build.on_bind_eq_ok_iff.mp filled
    cases answer
    cases k with
    | zero =>
      rw [List.head?_eq_getElem?, bound] at fed
      cases fed
      rfl
    | succ k =>
      rw [← List.getElem?_tail] at bound
      exact ih filled' (Nat.lt_of_succ_lt_succ inside) bound

end Calls

end Definition

/-! ## Defaults -/

/-- What feeds an input by default: its literal as one of its type, its expression, or the main
output of a node of its definition whose inputs have their defaults. -/
inductive Graph.Supplies (g : Graph) : Input Definition → Binding → Prop where
  | literal {input : Input Definition} {value coerced : Value}
      (fallback : input.fallback = some (.literal value))
      (made : value.coerce? input.type = some coerced) : Supplies g input (.literal coerced)
  | expr {input : Input Definition} {source : String}
      (fallback : input.fallback = some (.expr source)) : Supplies g input (.expr source)
  | node {input : Input Definition} {id : NodeId} {node : Node}
      (fallback : input.fallback = some (.node node.definition)) (held : g.get? id = some node)
      (complete : node.bindings.length = node.definition.inputs.length)
      (inputs : ∀ inner binding, (inner, binding) ∈ node.inputs → Supplies g inner binding) :
    Supplies g input (.node id)

namespace Definition

variable {g : Graph} {owner : String} {start : Nat} {input : Input Definition}
variable {inputs : List (Input Definition)} {given : List (Option Binding)}

/-- Where the tree of a definition stands, the inputs of its node have their defaults. -/
def HasDefaults (g : Graph) (d : Definition) : Prop :=
  ∀ start, checkOpen d.name d.inputs = .ok () → g.Holds start (d.tree start) →
    ∀ inner binding, (inner, binding) ∈ d.inputs.zip (supply start d.inputs []).2 →
      g.Supplies inner binding

theorem supplies_supplyOne (nested : ∀ d, input.fallback = some (.node d) → d.HasDefaults g)
    (passed : checkFallback owner input = .ok ())
    (held : g.Holds start (supplyOne start input none).1) :
    g.Supplies input (supplyOne start input none).2 := by
  obtain ⟨name, type, fallback⟩ := input
  match fallback with
  | none => cases passed
  | some (.expr source) => exact .expr rfl
  | some (.literal value) =>
    cases coerced : value.coerce? type with
    | none =>
      simp only [checkFallback, Value.coerceFor, coerced] at passed
      cases passed
    | some result =>
      have same : (supplyOne start ⟨name, type, some (.literal value)⟩ none).2 =
          .literal result := by simp [supplyOne, coerced]
      exact same ▸ .literal rfl coerced
  | some (.node d) =>
    obtain ⟨_, _, inner⟩ := bind_eq_ok_iff.mp passed
    have root := held _ _ (getElem?_tree_root start d)
    rw [← Nat.add_sub_assoc (length_tree_pos start d)] at root
    exact .node rfl root (length_supply ..) (nested d rfl start inner held)

theorem supplies_supply_of_nested
    (nested : ∀ input ∈ inputs, ∀ d, input.fallback = some (.node d) → d.HasDefaults g)
    (supplied : Supplied owner inputs given) (held : g.Holds start (supply start inputs given).1)
    {k : Nat} (at_k : inputs[k]? = some input) (free : given[k]?.join = none) :
    ∃ binding, (supply start inputs given).2[k]? = some binding ∧ g.Supplies input binding := by
  induction inputs generalizing start given k with
  | nil => cases at_k
  | cons first rest ih =>
    rw [supply_cons] at held ⊢
    obtain ⟨here, later⟩ := Graph.holds_append.mp held
    cases k with
    | zero =>
      cases at_k
      rw [← List.head?_eq_getElem?] at free
      refine ⟨_, rfl, ?_⟩
      rw [free] at here ⊢
      exact supplies_supplyOne (nested input List.mem_cons_self) (supplied.head free) here
    | succ k =>
      rw [← List.getElem?_tail] at free
      exact ih (fun input mem => nested input (List.mem_cons_of_mem _ mem)) supplied.tail later
        at_k free

theorem hasDefaults (g : Graph) (d : Definition) : d.HasDefaults g := by
  induction d using nested_induction with
  | step d nested =>
    intro start passed held inner binding mem
    have supplied : Supplied d.name d.inputs [] := supplied_of_checkOpen passed
    rw [tree_eq] at held
    obtain ⟨k, at_k⟩ := List.getElem?_of_mem mem
    obtain ⟨input_k, binding_k⟩ := List.getElem?_zip_eq_some.mp at_k
    obtain ⟨other, other_k, supplies⟩ := supplies_supply_of_nested nested supplied
      (Graph.holds_append.mp held).1 input_k rfl
    cases binding_k.symm.trans other_k
    exact supplies

/-- Where the fresh nodes behind inputs stand, an open input is fed by its default. -/
theorem supplies_supply (supplied : Supplied owner inputs given)
    (held : g.Holds start (supply start inputs given).1) {k : Nat}
    (at_k : inputs[k]? = some input) (free : given[k]?.join = none) :
    ∃ binding, (supply start inputs given).2[k]? = some binding ∧ g.Supplies input binding :=
  supplies_supply_of_nested (fun _ _ d _ => hasDefaults g d) supplied held at_k free

end Definition

end ParticleShading
