import ParticleShading.Proofs.Shader.Insertion
import ParticleShading.Proofs.Shader.Layouts
import Mathlib.Order.ConditionallyCompleteLattice.Basic

/-!
# Construction in step

Two graphs that match, and one construction step on each of them. Drafts that
match are refused with one error or take matching bindings, since a check looks
at definitions only. Where one graph fills a pending id and the other appends
the node, both put the same default trees behind what they hold, so the graphs
match again once the new ids are related as well.
-/

namespace ParticleShading

variable {M : NodeId → NodeId → Prop}

/-- Both fail with one error, or both succeed with related answers. -/
def SameOutcome {α β : Type} (R : α → β → Prop) (x : Except ShaderError α)
    (y : Except ShaderError β) : Prop :=
  (∃ e, x = .error e ∧ y = .error e) ∨ ∃ a b, x = .ok a ∧ y = .ok b ∧ R a b

namespace SameOutcome

variable {α β γ δ : Type} {R : α → β → Prop} {S : γ → δ → Prop}
variable {x : Except ShaderError α} {y : Except ShaderError β}

theorem error (e : ShaderError) : SameOutcome R (.error e) (.error e) := Or.inl ⟨e, rfl, rfl⟩

theorem ok {a : α} {b : β} (related : R a b) : SameOutcome R (.ok a) (.ok b) :=
  Or.inr ⟨a, b, rfl, rfl, related⟩

theorem bind {f : α → Except ShaderError γ} {f' : β → Except ShaderError δ}
    (first : SameOutcome R x y) (later : ∀ a b, R a b → SameOutcome S (f a) (f' b)) :
    SameOutcome S (x >>= f) (y >>= f') := by
  rcases first with ⟨e, rfl, rfl⟩ | ⟨a, b, rfl, rfl, related⟩
  · exact error e
  · exact later a b related

theorem map {f : α → γ} {f' : β → δ} (first : SameOutcome R x y)
    (later : ∀ a b, R a b → S (f a) (f' b)) : SameOutcome S (x.map f) (y.map f') := by
  rcases first with ⟨e, rfl, rfl⟩ | ⟨a, b, rfl, rfl, related⟩
  · exact error e
  · exact ok (later a b related)

end SameOutcome

/-- Two steps that fail with one error, or that both succeed with answers and graphs that are
related. -/
def Build.InStep {α β : Type} (R : α → Graph → β → Graph → Prop) (step : Build α) (g : Graph)
    (step' : Build β) (h : Graph) : Prop :=
  (∃ e g' h', step.on g = (.error e, g') ∧ step'.on h = (.error e, h')) ∨
    ∃ a g' b h', step.on g = (.ok a, g') ∧ step'.on h = (.ok b, h') ∧ R a g' b h'

namespace Build.InStep

variable {α β γ δ : Type} {R : α → Graph → β → Graph → Prop} {S : γ → Graph → δ → Graph → Prop}
variable {step : Build α} {step' : Build β} {next : α → Build γ} {next' : β → Build δ}
variable {g h : Graph}

theorem bind (first : InStep R step g step' h)
    (later : ∀ a g' b h', step.on g = (.ok a, g') → R a g' b h' →
      InStep S (next a) g' (next' b) h') : InStep S (step >>= next) g (step' >>= next') h := by
  rcases first with ⟨e, g', h', ran, ran'⟩ | ⟨a, g', b, h', ran, ran', related⟩
  · exact Or.inl ⟨e, g', h', by rw [on_bind, ran], by rw [on_bind, ran']⟩
  · have passed : (step >>= next).on g = (next a).on g' := by rw [on_bind, ran]
    have passed' : (step' >>= next').on h = (next' b).on h' := by rw [on_bind, ran']
    rw [InStep, passed, passed']
    exact later a g' b h' ran related

/-- The first side may be a step ahead. -/
theorem after {first : Build γ} {next : γ → Build α} {a : γ} {g₀ : Graph}
    (ran : first.on g₀ = (.ok a, g)) (later : InStep R (next a) g step' h) :
    InStep R (first >>= next) g₀ step' h := by
  rwa [InStep, on_bind, ran]

/-- Checks that agree leave both graphs as they are. -/
theorem check_bind {R : α → β → Prop} {f : Graph → Except ShaderError α}
    {f' : Graph → Except ShaderError β} (checked : SameOutcome R (f g) (f' h))
    (later : ∀ a b, f g = .ok a → f' h = .ok b → R a b → InStep S (next a) g (next' b) h) :
    InStep S (check f >>= next) g (check f' >>= next') h := by
  rcases checked with ⟨e, refused, refused'⟩ | ⟨a, b, passed, passed', related⟩
  · exact Or.inl ⟨e, g, h, by rw [on_bind, on_check, refused], by rw [on_bind, on_check, refused']⟩
  · rw [InStep, on_bind, on_check, passed, on_bind, on_check, passed']
    exact later a b passed passed' related

theorem imp {R' : α → Graph → β → Graph → Prop} (run : InStep R step g step' h)
    (more : ∀ a g' b h', R a g' b h' → R' a g' b h') : InStep R' step g step' h := by
  rcases run with failed | ⟨a, g', b, h', ran, ran', related⟩
  · exact Or.inl failed
  · exact Or.inr ⟨a, g', b, h', ran, ran', more a g' b h' related⟩

theorem discard {T : Graph → β → Graph → Prop} (run : InStep (fun _ => T) step g step' h) :
    InStep (fun _ => T) (Functor.discard step) g step' h := by
  rcases run with ⟨e, g', h', ran, ran'⟩ | ⟨a, g', b, h', ran, ran', related⟩
  · exact Or.inl ⟨e, g', h', by rw [on_discard, ran]; rfl, ran'⟩
  · exact Or.inr ⟨(), g', b, h', on_discard_ok_iff.mpr ⟨a, ran⟩, ran', related⟩

theorem ok_iff (run : InStep R step g step' h) :
    (∃ a, (step.on g).1 = .ok a) ↔ ∃ b, (step'.on h).1 = .ok b := by
  rcases run with ⟨e, g', h', ran, ran'⟩ | ⟨a, g', b, h', ran, ran', _⟩ <;> simp [ran, ran']

theorem error_iff (run : InStep R step g step' h) (e : ShaderError) :
    (step.on g).1 = .error e ↔ (step'.on h).1 = .error e := by
  rcases run with ⟨e, g', h', ran, ran'⟩ | ⟨a, g', b, h', ran, ran', _⟩ <;> simp [ran, ran']

theorem related {a : α} {b : β} {g' h' : Graph} (run : InStep R step g step' h)
    (ran : step.on g = (.ok a, g')) (ran' : step'.on h = (.ok b, h')) : R a g' b h' := by
  rcases run with ⟨e, _, _, failed, _⟩ | ⟨_, _, _, _, done, done', related⟩
  · cases ran.symm.trans failed
  · cases ran.symm.trans done
    cases ran'.symm.trans done'
    exact related

end Build.InStep

/-! ## Drafts that match -/

/-- Related ids are checked alike: a check reads the definition of a node and nothing else. -/
theorem Graph.Matching.checkOutput_eq {g h : Graph} {id id' : NodeId} {owner input output : String}
    {type : ValueType} (m : g.Matching h M) (related : M id id') :
    h.checkOutput owner input type ⟨id', output⟩ = g.checkOutput owner input type ⟨id, output⟩ := by
  obtain ⟨node, node', held, held', matched⟩ := m.node id id' related
  simp only [checkOutput, outputType, contains_of_get? held, contains_of_get? held', held, held',
    if_true, Node.name, matched.definition]

theorem Binding.Matches.take {g h : Graph} {binding binding' : Binding} (m : g.Matching h M)
    (matched : binding.Matches M binding') (owner : String) (slot : Input Definition) :
    SameOutcome (Binding.Matches M) (binding.take g owner slot) (binding'.take h owner slot) := by
  cases matched with
  | @literal value =>
    rw [Binding.take, Binding.take]
    cases value.coerceFor owner slot.name slot.type with
    | error e => exact .error e
    | ok coerced => exact .ok .literal
  | expr => exact .ok .expr
  | @output id id' output related =>
    rw [Binding.take, Binding.take, m.checkOutput_eq related]
    cases g.checkOutput owner slot.name slot.type ⟨id, output⟩ with
    | error e => exact .error e
    | ok _ => exact .ok (.output related)

/-- Drafts of one definition whose bindings agree up to related ids. -/
structure Draft.Matches (M : NodeId → NodeId → Prop) (draft draft' : Draft) : Prop where
  definition : draft'.definition = draft.definition
  bindings : List.Forall₂ (Option.Rel (Binding.Matches M)) draft.bindings draft'.bindings

theorem forall₂_set {α β : Type} {R : α → β → Prop} {as : List α} {bs : List β} {a : α} {b : β}
    (all : List.Forall₂ R as bs) (related : R a b) (k : Nat) :
    List.Forall₂ R (as.set k a) (bs.set k b) := by
  induction all generalizing k with
  | nil => exact .nil
  | cons first rest ih =>
    cases k with
    | zero => exact .cons related rest
    | succ k => exact .cons first (ih k)

namespace Draft

variable {g h : Graph} {draft draft' : Draft} {input : String} {binding binding' : Binding}

theorem Matches.mono {M' : NodeId → NodeId → Prop} (more : ∀ id id', M id id' → M' id id')
    (drafts : draft.Matches M draft') : draft.Matches M' draft' := by
  refine ⟨drafts.definition, drafts.bindings.imp fun given given' matched => ?_⟩
  cases matched with
  | none => exact .none
  | some matched => exact .some (matched.mono more)

theorem matches_start (d : Definition) : (start d).Matches M (start d) := by
  refine ⟨rfl, List.forall₂_same.mpr ?_⟩
  intro given mem
  obtain ⟨_, _, rfl⟩ := List.mem_map.mp mem
  exact .none

theorem Matches.bind (m : g.Matching h M) (drafts : draft.Matches M draft')
    (matched : binding.Matches M binding') :
    SameOutcome (Draft.Matches M) (draft.bind g input binding) (draft'.bind h input binding') := by
  obtain ⟨_, given⟩ := draft
  obtain ⟨d, given'⟩ := draft'
  obtain ⟨rfl, bindings⟩ := drafts
  cases at_index : d.inputs.findIdx? (·.name = input) with
  | none =>
    simp only [Draft.bind, at_index]
    exact .error _
  | some index =>
    obtain ⟨inside, _⟩ := List.findIdx?_eq_some_iff_getElem.mp at_index
    have here := List.getElem?_eq_getElem inside
    rw [bind_eq at_index here, bind_eq at_index here]
    exact (matched.take m d.name _).map fun _ _ taken =>
      ⟨rfl, forall₂_set bindings (.some taken) index⟩

/-- The same inputs are open. -/
theorem Matches.openInputs_eq (drafts : draft.Matches M draft') :
    draft'.openInputs = draft.openInputs := by
  obtain ⟨_, given⟩ := draft
  obtain ⟨d, given'⟩ := draft'
  obtain ⟨rfl, bindings⟩ := drafts
  dsimp only at bindings
  rw [openInputs, openInputs]
  dsimp only
  generalize d.inputs = inputs
  induction bindings generalizing inputs with
  | nil => rfl
  | cons first rest ih =>
    cases inputs with
    | nil => rfl
    | cons input inputs =>
      specialize ih inputs
      cases first <;> simp_all

/-- Matching drafts are filled by matching nodes, where the slots behind the graphs are related. -/
theorem Matches.filled (drafts : draft.Matches M draft')
    (aligned : Definition.Aligned M g.size h.size (draft.fresh g).length) :
    List.Forall₂ (Node.Matches M) (draft.fresh g) (draft'.fresh h) ∧
      (draft.filled g).Matches M (draft'.filled h) := by
  obtain ⟨_, given⟩ := draft
  obtain ⟨d, given'⟩ := draft'
  obtain ⟨rfl, bindings⟩ := drafts
  obtain ⟨nodes, fed⟩ := Definition.supply_matches bindings aligned
  exact ⟨nodes, rfl, fed⟩

end Draft

namespace GraphDescription

variable {ids made : KeyTable} {g h : Graph}

/-- The keys of the second table have related ids in both. -/
def KeysMatch (M : NodeId → NodeId → Prop) (ids made : KeyTable) : Prop :=
  ∀ key ∈ made.map (·.1), ∃ id id', ids.lookup key = some id ∧ made.lookup key = some id' ∧ M id id'

theorem resolve_sameOutcome (tables : KeysMatch M ids made) (description : BindingDescription)
    (known : ∀ key output, description = .node key output → key ∈ made.map (·.1)) :
    SameOutcome (Binding.Matches M) (description.resolve ids) (description.resolve made) := by
  cases description with
  | node key output =>
    obtain ⟨id, id', reserved, inserted, related⟩ := tables key (known key output rfl)
    rw [BindingDescription.resolve, BindingDescription.resolve, reserved, inserted]
    exact .ok (.output related)
  | color hex =>
    rw [BindingDescription.resolve, BindingDescription.resolve]
    cases Color.ofHex? hex with
    | none => exact .error _
    | some color => exact .ok .literal
  | expr source => exact .ok .expr
  | _ => exact .ok .literal

/-- Inputs are bound alike as long as they refer to keys of both tables. -/
theorem bindInputs_sameOutcome {draft draft' : Draft} {listed : List (String × BindingDescription)}
    (m : g.Matching h M) (tables : KeysMatch M ids made) (drafts : draft.Matches M draft')
    (known : ∀ input key output, (input, .node key output) ∈ listed → key ∈ made.map (·.1)) :
    SameOutcome (Draft.Matches M) (bindInputs ids g draft listed)
      (bindInputs made h draft' listed) := by
  induction listed generalizing draft draft' with
  | nil => exact .ok drafts
  | cons first rest ih =>
    obtain ⟨input, description⟩ := first
    have resolved := resolve_sameOutcome tables description fun key output same =>
      known input key output (same ▸ List.mem_cons_self)
    refine resolved.bind fun binding binding' matched => ?_
    refine (drafts.bind m matched).bind fun next next' drafts' => ?_
    exact ih drafts' fun input key output mem =>
      known input key output (List.mem_cons_of_mem _ mem)

end GraphDescription

/-! ## Slots that an insertion takes -/

namespace Build

variable {α β : Type} {g : Graph} {step : Build α} {next : α → Build β} {middle bound : Nat}

theorem size_bind_le (first : (step.on g).2.size ≤ middle) (within : middle ≤ bound)
    (later : ∀ a g', g'.size ≤ middle → ((next a).on g').2.size ≤ bound) :
    ((step >>= next).on g).2.size ≤ bound := by
  rw [on_bind]
  cases ran : step.on g with
  | mk result g' =>
    rw [ran] at first
    cases result with
    | error e => exact Nat.le_trans first within
    | ok a => exact later a g' first

theorem size_check_le {f : Graph → Except ShaderError α} : ((check f).on g).2.size ≤ g.size := by
  rw [on_check]

end Build

namespace Definition

variable {owner : String} {input : Input Definition} {inputs : List (Input Definition)}

/-- Inserting a definition takes no more slots than its tree, also if it fails on the way. -/
def Fitted (d : Definition) : Prop := ∀ g, ((insertOpen d).on g).2.size ≤ g.size + d.treeSize

theorem size_feed_le (nested : ∀ d, input.fallback = some (.node d) → d.Fitted)
    (given : Option Binding) (g : Graph) :
    ((feed owner input given).on g).2.size ≤ g.size + totalSize (filler? input given).toList := by
  obtain ⟨name, type, fallback⟩ := input
  cases given with
  | some binding => exact Nat.le_refl _
  | none =>
    rcases fallback with _ | value | source | d
    · exact Nat.le_refl _
    · exact Build.size_check_le
    · exact Nat.le_refl _
    · have total : totalSize (filler? ⟨name, type, some (.node d)⟩ none).toList = d.treeSize := rfl
      rw [feed, total]
      refine Build.size_bind_le (nested d rfl g) (Nat.le_refl _) fun id g' inserted => ?_
      exact Build.size_bind_le Build.size_check_le inserted fun _ _ kept =>
        Nat.le_trans kept inserted

theorem size_fillOpen_le_of_nested
    (nested : ∀ input ∈ inputs, ∀ d, input.fallback = some (.node d) → d.Fitted)
    (given : List (Option Binding)) (g : Graph) :
    ((fillOpen owner inputs given).on g).2.size ≤ g.size + totalSize (fillers inputs given) := by
  induction inputs generalizing given g with
  | nil =>
    rw [fillOpen]
    exact Nat.le_refl _
  | cons input rest ih =>
    rw [List.forall_mem_cons] at nested
    rw [fillOpen_cons, fillers, totalSize_append]
    refine Build.size_bind_le (size_feed_le nested.1 given.head?.join g) (by omega)
      fun binding g' fed => ?_
    refine Build.size_bind_le (ih nested.2 given.tail g') (by omega) fun bindings g'' filled => ?_
    exact Nat.le_trans filled (by omega)

theorem fitted (d : Definition) : d.Fitted := by
  induction d using nested_induction with
  | step d nested =>
    intro g
    rw [insertOpen_eq, treeSize_eq]
    refine Build.size_bind_le Build.size_check_le (by omega) fun _ g₀ checked => ?_
    refine Build.size_bind_le (size_fillOpen_le_of_nested nested [] g₀) (by omega)
      fun bindings g' filled => ?_
    rw [Build.on_insert, Graph.size_append]
    omega

theorem size_fillOpen_le (owner : String) (inputs : List (Input Definition))
    (given : List (Option Binding)) (g : Graph) :
    ((fillOpen owner inputs given).on g).2.size ≤ g.size + totalSize (fillers inputs given) :=
  size_fillOpen_le_of_nested (fun _ _ d _ => d.fitted) given g

end Definition

/-- An insertion takes no more slots than the fresh nodes and the node itself. -/
theorem Draft.size_insert_le (draft : Draft) (g : Graph) :
    (draft.insert.on g).2.size ≤ g.size + (draft.fresh g).length + 1 := by
  rw [fresh, Definition.supply_fst, Definition.length_plant, insert, resolve, bind_assoc]
  refine Build.size_bind_le Build.size_check_le (by omega) fun _ g₀ checked => ?_
  rw [bind_assoc]
  refine Build.size_bind_le (Definition.size_fillOpen_le _ _ _ g₀) (by omega)
    fun bindings g' filled => ?_
  rw [pure_bind, Build.on_insert, Graph.size_append]
  omega

/-! ## Filling on one side and appending on the other -/

namespace Graph

variable {g g' h h' : Graph} {fresh fresh' : List Node} {node node' : Node} {id id' : NodeId}

theorem Fills.keeps (fills : g.Fills fresh node id g') : g.Keeps g' := by
  refine ⟨fills.size ▸ Nat.le_add_right _ _, fun other older held => ?_⟩
  have apart : other ≠ id := by
    rintro rfl
    cases fills.pending.2.symm.trans held
  exact (fills.others other (contains_of_get? held) apart).trans held

theorem Appends.keeps (appends : g.Appends fresh node id g') : g.Keeps g' := by
  refine ⟨?_, fun other older held => (appends.others other (contains_of_get? held)).trans held⟩
  rw [appends.size]
  omega

/-- Ids that had no nodes can be related in addition, once their nodes match. -/
theorem Matching.extend {N : NodeId → NodeId → Prop} (m : g.Matching h M)
    (kept : g.Keeps g') (kept' : h.Keeps h')
    (free : ∀ id id', N id id' → g.get? id = none ∧ h.get? id' = none)
    (one_to_one : ∀ id id' other other', N id id' → N other other' → (id = other ↔ id' = other'))
    (node : ∀ id id', N id id' → ∃ node node', g'.get? id = some node ∧ h'.get? id' = some node' ∧
      node.Matches (M ⊔ N) node') :
    g'.Matching h' (M ⊔ N) := by
  have apart {id id' other other' : NodeId} (related : M id id') (added : N other other') :
      id ≠ other ∧ id' ≠ other' := by
    obtain ⟨_, _, held, held', _⟩ := m.node id id' related
    obtain ⟨empty, empty'⟩ := free other other' added
    constructor
    · rintro rfl
      cases held.symm.trans empty
    · rintro rfl
      cases held'.symm.trans empty'
  refine ⟨?_, ?_⟩
  · rintro id id' other other' (related | added) (related' | added')
    · exact m.one_to_one id id' other other' related related'
    · exact iff_of_false (apart related added').1 (apart related added').2
    · exact iff_of_false (apart related' added).1.symm (apart related' added).2.symm
    · exact one_to_one id id' other other' added added'
  · rintro id id' (related | added)
    · obtain ⟨before, before', held, held', matched⟩ := m.node id id' related
      exact ⟨before, before', kept.held id before held, kept'.held id' before' held',
        matched.mono fun _ _ => Or.inl⟩
    · exact node id id' added

/-- The ids that one node adds: those of the fresh nodes behind two graphs, one by one, and the id
that is filled with the id that is handed out. -/
inductive Added (first first' count : Nat) (id id' : NodeId) : NodeId → NodeId → Prop where
  | fresh {j : Nat} (inside : j < count) :
    Added first first' count id id' (.slot (first + j)) (.slot (first' + j))
  | made : Added first first' count id id' id id'

theorem Added.one_to_one {first first' count : Nat} {a a' b b' : NodeId}
    (before : id.toNat < first) (last : id'.toNat = first' + count)
    (small : first + count ≤ UInt32.size) (small' : first' + count < UInt32.size)
    (added : Added first first' count id id' a a') (added' : Added first first' count id id' b b') :
    a = b ↔ a' = b' := by
  cases added with
  | fresh inside =>
    cases added' with
    | fresh inside' =>
      rw [Handle.slot_inj (by omega) (by omega), Handle.slot_inj (by omega) (by omega)]
      omega
    | made =>
      rw [← Handle.toNat_inj, ← Handle.toNat_inj, Handle.toNat_slot (by omega),
        Handle.toNat_slot (by omega)]
      omega
  | made =>
    cases added' with
    | fresh inside' =>
      rw [← Handle.toNat_inj, ← Handle.toNat_inj, Handle.toNat_slot (by omega),
        Handle.toNat_slot (by omega)]
      omega
    | made => exact iff_of_true rfl rfl

/-- Filling a pending id and appending the node leave graphs that match, if what is put in does. -/
theorem Matching.fill_append (m : g.Matching h M) (fills : g.Fills fresh node id g')
    (appends : h.Appends fresh' node' id' h') (small : g'.size ≤ UInt32.size)
    (small' : h'.size ≤ UInt32.size)
    (trees : List.Forall₂ (Node.Matches (M ⊔ Added g.size h.size fresh.length id id')) fresh fresh')
    (made : node.Matches (M ⊔ Added g.size h.size fresh.length id id') node') :
    g'.Matching h' (M ⊔ Added g.size h.size fresh.length id id') := by
  have same := trees.length_eq
  have size := fills.size
  have size' := appends.size
  have last := appends.last
  have before := contains_iff.mp fills.pending.1
  refine m.extend fills.keeps appends.keeps ?_ ?_ ?_
  · intro a a' added
    cases added with
    | fresh inside =>
      exact ⟨get?_of_size_le (by rw [Handle.toNat_slot (by omega)]; omega),
        get?_of_size_le (by rw [Handle.toNat_slot (by omega)]; omega)⟩
    | made => exact ⟨fills.pending.2, get?_of_size_le (by omega)⟩
  · intro a a' b b' added added'
    exact added.one_to_one before (by omega) (by omega) (by omega) added'
  · intro a a' added
    cases added with
    | @fresh j inside =>
      have inside' : j < fresh'.length := same ▸ inside
      have held : h'.Holds h.size (fresh' ++ [node']) :=
        appends.appended ▸
          holds_appendAll (by rw [List.length_append, List.length_singleton]; omega)
      exact ⟨fresh[j], fresh'[j], fills.appended j _ (List.getElem?_eq_getElem inside),
        (holds_append.mp held).1 j _ (List.getElem?_eq_getElem inside'), trees.get inside inside'⟩
    | made => exact ⟨node, node', fills.held, appends.held, made⟩

end Graph

theorem Draft.insert_refused {draft : Draft} {g : Graph} {e : ShaderError}
    (refused : Definition.checkOpen draft.definition.name draft.openInputs = .error e) :
    draft.insert.on g = (.error e, g) := by
  rw [insert, resolve, bind_assoc, Build.on_bind, Build.on_check, refused]

/-- Matching drafts are refused alike, or one fills an id and the other is appended, and the graphs
match with the new ids. -/
theorem Draft.Matches.define_insert {draft draft' : Draft} {g h : Graph} {id : NodeId}
    (drafts : draft.Matches M draft') (m : g.Matching h M) (ready : draft.Ready g)
    (ready' : draft'.Ready h) (pending : g.Pending id) (behind : h.size < g.size)
    (small : ((draft.define id).on g).2.size ≤ UInt32.size) :
    Build.InStep (fun _ g' id' h' => ∃ fresh node fresh' node', g.Fills fresh node id g' ∧
        h.Appends fresh' node' id' h' ∧ fresh'.length = fresh.length ∧
        g'.Matching h' (M ⊔ Graph.Added g.size h.size fresh.length id id'))
      (draft.define id) g draft'.insert h := by
  have same : Definition.checkOpen draft'.definition.name draft'.openInputs =
      Definition.checkOpen draft.definition.name draft.openInputs := by
    rw [drafts.definition, drafts.openInputs_eq]
  rcases ready.define_on pending small with ⟨e, refused, ran⟩ | ⟨passed, nodes, filled, ran⟩
  · exact Or.inl ⟨e, g, h, ran, insert_refused (same.trans refused)⟩
  · replace small : (Graph.mk nodes).size ≤ UInt32.size := by rwa [ran] at small
    have fills := Graph.fills_define pending filled small
    let id' : NodeId := .slot (h.size + (draft.fresh g).length)
    obtain ⟨trees, made⟩ := (drafts.mono fun _ _ => Or.inl).filled
      (M := M ⊔ Graph.Added g.size h.size (draft.fresh g).length id id') fun _ inside =>
        Or.inr (.fresh inside)
    have length := trees.length_eq
    -- the second graph has fewer slots, so its ids last as well
    have small' : (draft'.insert.on h).2.size ≤ UInt32.size := by
      have taken := draft'.size_insert_le h
      have size := fills.size
      omega
    rcases ready'.insert_on small' with ⟨e, refused, _⟩ | ⟨_, ran'⟩
    · cases (same.trans passed).symm.trans refused
    · rw [ran'] at small'
      rw [← length] at ran'
      have appends := length ▸ Graph.appends_appendAll small'
      exact Or.inr ⟨id, _, id', _, ran, ran', _, _, _, _, fills, appends, length.symm,
        m.fill_append fills appends small small' trees made⟩

end ParticleShading
