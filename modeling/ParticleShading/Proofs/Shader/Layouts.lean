import ParticleShading.Proofs.Shader.Descriptions
import ParticleShading.Proofs.Shader.Matching

/-!
# Layouts of built descriptions

A built graph has the nodes of the keys first and behind them, for one declared
node after another, the fresh nodes behind its open inputs. `Layout` records
which slots these are. The order of the declarations decides the slots and the
ids of the keys, and nothing else: the graphs of two orders match, key by key
and fresh node by fresh node.
-/

namespace ParticleShading

namespace GraphDescription

variable {registry : Registry} {ids ids' : KeyTable} {n : NodeDescription} {g g' : Graph}
variable {M : NodeId → NodeId → Prop}

/-! ## What two orders bind -/

/-- Keys have related ids in two tables. -/
def TablesMatch (M : NodeId → NodeId → Prop) (ids ids' : KeyTable) : Prop :=
  ∀ key id id', ids.lookup key = some id → ids'.lookup key = some id' → M id id'

theorem matches_of_gives {type : ValueType} {description : BindingDescription}
    {bound bound' : Binding} (tables : TablesMatch M ids ids')
    (gives : description.Gives ids type bound) (gives' : description.Gives ids' type bound') :
    bound.Matches M bound' := by
  rcases gives.key_or_constant with ⟨key, output, rfl⟩ | ⟨constant, plain⟩
  · obtain ⟨id, known, rfl⟩ := BindingDescription.gives_node_iff.mp gives
    obtain ⟨id', known', rfl⟩ := BindingDescription.gives_node_iff.mp gives'
    exact .output (tables key id id' known known')
  · obtain rfl := (constant ids' bound').mp gives'
    cases bound' with
    | literal value => exact .literal
    | expr source => exact .expr
    | output source => exact absurd rfl (plain source)

/-- A node is given the same under two tables, up to the ids of the keys. -/
theorem given_matches {d : Definition} {listed : List (String × BindingDescription)}
    {given given' : List (Option Binding)} (tables : TablesMatch M ids ids')
    (bound : bindInputs ids g (.start d) listed = .ok ⟨d, given⟩)
    (bound' : bindInputs ids' g' (.start d) listed = .ok ⟨d, given'⟩) :
    List.Forall₂ (Option.Rel (Binding.Matches M)) given given' := by
  have length := length_bindInputs bound
  have length' := length_bindInputs bound'
  rw [List.forall₂_iff_get]
  refine ⟨length.trans length'.symm, ?_⟩
  intro k inside inside'
  rw [List.get_eq_getElem, List.get_eq_getElem]
  -- the listed names alone decide which inputs are open
  by_cases named : ∃ input ∈ listed.map (·.1), d.inputs.findIdx? (·.name = input) = some k
  · obtain ⟨input, mem, at_k⟩ := named
    have found : (listed.reverse.lookup input).isSome = true := by
      rw [isSome_lookup_iff, List.map_reverse, List.mem_reverse]
      exact mem
    obtain ⟨description, last⟩ := Option.isSome_iff_exists.mp found
    obtain ⟨index, slot, binding, at_index, here, gives, taken⟩ :=
      getElem?_bindInputs_of_listed bound (List.length_map ..) last
    obtain ⟨index', slot', binding', at_index', here', gives', taken'⟩ :=
      getElem?_bindInputs_of_listed bound' (List.length_map ..) last
    cases at_index.symm.trans at_k
    cases at_index'.symm.trans at_k
    cases here.symm.trans here'
    rw [(List.getElem?_eq_some_iff.mp taken).2, (List.getElem?_eq_some_iff.mp taken').2]
    exact .some (matches_of_gives tables gives gives')
  · push Not at named
    have free : (Draft.start d).bindings[k]? = some none := by
      rw [Draft.start, List.getElem?_map, List.getElem?_eq_getElem (length ▸ inside)]
      rfl
    have open_here := (getElem?_bindInputs_of_unlisted bound named).trans free
    have open_here' := (getElem?_bindInputs_of_unlisted bound' named).trans free
    rw [(List.getElem?_eq_some_iff.mp open_here).2, (List.getElem?_eq_some_iff.mp open_here').2]
    exact .none

/-! ## Laid out nodes -/

/-- A node of a description as it is made: its definition, what its inputs are given, and the slot
from which the fresh nodes behind its open inputs stand. -/
structure Placed where
  node : NodeDescription
  definition : Definition
  start : Nat
  given : List (Option Binding)

namespace Placed

def fresh (p : Placed) : List Node := (Definition.supply p.start p.definition.inputs p.given).1

def made (p : Placed) : Node :=
  ⟨p.definition, (Definition.supply p.start p.definition.inputs p.given).2⟩

/-- The node stands under the id of its key, and its fresh nodes from their slot on. -/
structure Stands (p : Placed) (registry : Registry) (ids : KeyTable) (g : Graph) : Prop where
  known : ∃ factory, registry.find? p.node.factory = some factory ∧
    factory.definition = p.definition
  bound : ∃ before, bindInputs ids before (.start p.definition) p.node.inputs =
    .ok ⟨p.definition, p.given⟩
  held : ∃ id, ids.lookup p.node.key = some id ∧ g.get? id = some p.made
  fresh : g.Holds p.start p.fresh
  inside : p.start + p.fresh.length ≤ g.size

theorem Stands.kept {p : Placed} (h : p.Stands registry ids g) (kept : g.Keeps g') :
    p.Stands registry ids g' := by
  obtain ⟨known, bound, ⟨id, reserved, held⟩, fresh, inside⟩ := h
  exact ⟨known, bound, ⟨id, reserved, kept.held id _ held⟩, kept.holds fresh,
    Nat.le_trans inside kept.size_le⟩

end Placed

/-- Nodes that have been made: they stand, their fresh nodes come after a number of slots, and no
two of them share one. -/
structure Layout (registry : Registry) (ids : KeyTable) (count : Nat) (placed : List Placed)
    (g : Graph) : Prop where
  stands : ∀ p ∈ placed, p.Stands registry ids g
  behind : ∀ p ∈ placed, count ≤ p.start
  apart : ∀ p ∈ placed, ∀ q ∈ placed, ∀ i < p.fresh.length, ∀ j < q.fresh.length,
    p.start + i = q.start + j → p = q

namespace Layout

variable {count : Nat} {placed : List Placed} {nodes : List NodeDescription}

/-- A node that is made comes to stand behind all others. -/
theorem step (layout : Layout registry ids count placed g) (h : Defines registry ids n g g')
    (enough : count ≤ g.size) (small : g'.size ≤ UInt32.size) :
    ∃ p : Placed, p.node = n ∧ Layout registry ids count (p :: placed) g' := by
  have kept := h.keeps
  obtain @⟨factory, id, given, bindings, middle, filled, known, reserved, bound, _, supplied,
    fills, defined⟩ := h
  have size : middle.size = (Graph.mk filled).size := (Arena.size_define defined).symm
  obtain ⟨rfl, size_middle, stand⟩ := Definition.laid_of_fillOpen
    (checked_bindInputs (Draft.checked_start _) bound) supplied fills (size ▸ small)
  let p : Placed := ⟨n, factory.definition, g.size, given⟩
  have stands : p.Stands registry ids ⟨filled⟩ :=
    ⟨⟨factory, known, rfl⟩, ⟨g, bound⟩,
      ⟨id, reserved, Arena.get?_define_self defined⟩,
      (Graph.keeps_define defined).holds stand, Nat.le_of_eq (size_middle.symm.trans size)⟩
  -- its fresh nodes start where the graph ended
  have behind (q : Placed) (mem : q ∈ placed) : q.start + q.fresh.length ≤ p.start :=
    (layout.stands q mem).inside
  refine ⟨p, rfl, ?_, ?_, ?_⟩
  · rw [List.forall_mem_cons]
    exact ⟨stands, fun q mem => (layout.stands q mem).kept kept⟩
  · rw [List.forall_mem_cons]
    exact ⟨enough, layout.behind⟩
  · intro q mem r mem' i inside j inside' same
    rcases List.mem_cons.mp mem with rfl | mem <;> rcases List.mem_cons.mp mem' with rfl | mem'
    · rfl
    · have := behind r mem'
      omega
    · have := behind q mem
      omega
    · exact layout.apart q mem r mem' i inside j inside' same

theorem run (layout : Layout registry ids count placed g) (enough : count ≤ g.size)
    (h : (defineNodes registry ids nodes).on g = (.ok (), g')) (small : g'.size ≤ UInt32.size) :
    ∃ placed' : List Placed, Layout registry ids count placed' g' ∧
      (placed'.map (·.node)).Perm (nodes ++ placed.map (·.node)) := by
  induction nodes generalizing g placed with
  | nil =>
    cases h
    exact ⟨placed, layout, .refl _⟩
  | cons n rest ih =>
    obtain ⟨middle, made, later⟩ := defineNodes_cons_on_ok_iff.mp h
    have small' := Nat.le_trans (keeps_defineNodes later).size_le small
    obtain ⟨p, rfl, layout'⟩ := layout.step made enough small'
    obtain ⟨placed', laid, listed⟩ :=
      ih layout' (Nat.le_trans enough made.keeps.size_le) later
    exact ⟨placed', laid, listed.trans List.perm_middle⟩

end Layout

/-! ## Two orders -/

/-- All nodes of a description laid out, in a graph that has no more slots than there are ids. -/
structure Laid (registry : Registry) (nodes : List NodeDescription) (placed : List Placed)
    (g : Graph) : Prop where
  layout : Layout registry (keyTable 0 nodes) nodes.length placed g
  listed : (placed.map (·.node)).Perm nodes
  distinct : (nodes.map (·.key)).Nodup
  enough : nodes.length ≤ g.size
  small : g.size ≤ UInt32.size

/-- A description that is built is laid out. -/
theorem exists_laid {d : GraphDescription} {built : BuiltGraph}
    (h : (build registry d).on .empty = (.ok built, g)) (small : g.size ≤ UInt32.size) :
    ∃ placed, Laid registry d.nodes placed g := by
  obtain ⟨distinct, defined, _, _⟩ := build_on_ok_iff.mp h
  have start : Layout registry (keyTable 0 d.nodes) d.nodes.length [] (.blank d.nodes.length) := by
    constructor <;> simp
  have enough := Nat.le_of_eq (Graph.size_blank d.nodes.length).symm
  obtain ⟨placed, layout, listed⟩ := start.run enough defined small
  rw [List.map_nil, List.append_nil] at listed
  exact ⟨placed, layout, listed, distinct,
    Nat.le_trans enough (keeps_defineNodes defined).size_le, small⟩

namespace Laid

variable {nodes : List NodeDescription} {placed : List Placed} {p q : Placed}
variable {key : String} {id : NodeId} {j : Nat}

theorem mem_nodes (laid : Laid registry nodes placed g) (mem : p ∈ placed) : p.node ∈ nodes :=
  laid.listed.mem_iff.mp (List.mem_map_of_mem mem)

theorem length_le (laid : Laid registry nodes placed g) : nodes.length ≤ UInt32.size :=
  Nat.le_trans laid.enough laid.small

/-- Fresh nodes have ids of their own, and they come later. -/
theorem toNat_fresh (laid : Laid registry nodes placed g) (mem : p ∈ placed)
    (inside : j < p.fresh.length) :
    (Handle.slot (p.start + j)).toNat = p.start + j ∧ nodes.length ≤ p.start + j := by
  have bound := (laid.layout.stands p mem).inside
  have behind := laid.layout.behind p mem
  have small := laid.small
  exact ⟨Handle.toNat_slot (by omega), by omega⟩

theorem node_eq (laid : Laid registry nodes placed g) (mem : p ∈ placed) {n : NodeDescription}
    (listed : n ∈ nodes) (same : n.key = p.node.key) : n = p.node :=
  List.inj_on_of_nodup_map laid.distinct listed (laid.mem_nodes mem) same

theorem placed_eq (laid : Laid registry nodes placed g) (mem : p ∈ placed) (mem' : q ∈ placed)
    (same : p.node = q.node) : p = q := by
  have distinct : (placed.map (·.node)).Nodup := laid.listed.nodup_iff.mpr laid.distinct.of_map
  exact List.inj_on_of_nodup_map distinct mem mem' same

theorem exists_placed (laid : Laid registry nodes placed g)
    (known : (keyTable 0 nodes).lookup key = some id) :
    ∃ p ∈ placed, p.node.key = key ∧ g.get? id = some p.made := by
  obtain ⟨i, n, at_i, rfl, rfl⟩ := of_lookup_keyTable known
  obtain ⟨p, mem, rfl⟩ := List.mem_map.mp (laid.listed.mem_iff.mpr (List.mem_of_getElem? at_i))
  obtain ⟨id, reserved, held⟩ := (laid.layout.stands p mem).held
  cases reserved.symm.trans known
  exact ⟨p, mem, rfl, held⟩

end Laid

/-- Ids of one key, and ids of fresh nodes behind one declared node at one place. -/
inductive Corresponds (nodes nodes' : List NodeDescription) (placed placed' : List Placed) :
    NodeId → NodeId → Prop where
  | key {key : String} {id id' : NodeId} (known : (keyTable 0 nodes).lookup key = some id)
      (known' : (keyTable 0 nodes').lookup key = some id') :
    Corresponds nodes nodes' placed placed' id id'
  | fresh {p p' : Placed} {j : Nat} (mem : p ∈ placed) (mem' : p' ∈ placed')
      (same : p'.node = p.node) (inside : j < p.fresh.length) :
    Corresponds nodes nodes' placed placed' (.slot (p.start + j)) (.slot (p'.start + j))

section Orders

variable {nodes nodes' : List NodeDescription} {placed placed' : List Placed}
variable {id id' other other' : NodeId}

/-- The node of a key and the fresh nodes behind it match in two orders. -/
theorem Laid.paired (laid : Laid registry nodes placed g) (laid' : Laid registry nodes' placed' g')
    {p p' : Placed} (mem : p ∈ placed) (mem' : p' ∈ placed') (same : p'.node = p.node) :
    p.made.Matches (Corresponds nodes nodes' placed placed') p'.made ∧
      List.Forall₂ (Node.Matches (Corresponds nodes nodes' placed placed')) p.fresh p'.fresh := by
  obtain ⟨factory, known, definition⟩ := (laid.layout.stands p mem).known
  obtain ⟨factory', known', definition'⟩ := (laid'.layout.stands p' mem').known
  obtain ⟨before, bound⟩ := (laid.layout.stands p mem).bound
  obtain ⟨before', bound'⟩ := (laid'.layout.stands p' mem').bound
  rw [same] at known' bound'
  cases known.symm.trans known'
  rw [← definition', definition] at bound'
  have tables : TablesMatch (Corresponds nodes nodes' placed placed') (keyTable 0 nodes)
      (keyTable 0 nodes') := fun _ _ _ known known' => .key known known'
  have aligned : Definition.Aligned (Corresponds nodes nodes' placed placed') p.start p'.start
      p.fresh.length := fun _ inside => .fresh mem mem' same inside
  obtain ⟨fresh, bindings⟩ :=
    Definition.supply_matches (given_matches tables bound bound') aligned
  have definitions : p'.definition = p.definition := definition'.symm.trans definition
  rw [Placed.made, Placed.made, Placed.fresh, Placed.fresh, definitions]
  exact ⟨⟨rfl, bindings⟩, fresh⟩

namespace Corresponds

theorem flip (laid : Laid registry nodes placed g) (laid' : Laid registry nodes' placed' g')
    (h : Corresponds nodes nodes' placed placed' id id') :
    Corresponds nodes' nodes placed' placed id' id := by
  cases h with
  | key known known' => exact .key known' known
  | fresh mem mem' same inside =>
    have length := (laid.paired laid' mem mem' same).2.length_eq
    exact .fresh mem' mem same.symm (length ▸ inside)

/-- The ids of keys and those of fresh nodes are apart, and an id leads to one id only. -/
theorem unique (laid : Laid registry nodes placed g) (laid' : Laid registry nodes' placed' g')
    (h : Corresponds nodes nodes' placed placed' id id')
    (h' : Corresponds nodes nodes' placed placed' other other') (same : id = other) :
    id' = other' := by
  cases h with
  | key known known' =>
    have first := toNat_lt_of_lookup laid.length_le known
    cases h' with
    | key known₂ known₂' =>
      obtain rfl := key_eq_of_lookup laid.length_le known (same ▸ known₂)
      exact Option.some.inj (known'.symm.trans known₂')
    | fresh mem _ _ inside =>
      obtain ⟨position, later⟩ := laid.toNat_fresh mem inside
      rw [same] at first
      omega
  | @fresh p p' j mem mem' node inside =>
    obtain ⟨position, later⟩ := laid.toNat_fresh mem inside
    cases h' with
    | key known _ =>
      have first := toNat_lt_of_lookup laid.length_le known
      rw [← same] at first
      omega
    | @fresh q q' i mem₂ mem₂' node₂ inside₂ =>
      obtain ⟨position₂, _⟩ := laid.toNat_fresh mem₂ inside₂
      have slots : p.start + j = q.start + i := by rw [← position, ← position₂, same]
      obtain rfl := laid.layout.apart p mem q mem₂ j inside i inside₂ slots
      obtain rfl : j = i := Nat.add_left_cancel slots
      rw [laid'.placed_eq mem' mem₂' (node.trans node₂.symm)]

end Corresponds

/-- Two orders of one description lay out graphs that match. -/
theorem Laid.matching (laid : Laid registry nodes placed g)
    (laid' : Laid registry nodes' placed' g') (perm : nodes.Perm nodes') :
    g.Matching g' (Corresponds nodes nodes' placed placed') where
  one_to_one id id' other other' h h' :=
    ⟨h.unique laid laid' h', (h.flip laid laid').unique laid' laid (h'.flip laid laid')⟩
  node id id' h := by
    cases h with
    | key known known' =>
      obtain ⟨p, mem, named, held⟩ := laid.exists_placed known
      obtain ⟨p', mem', named', held'⟩ := laid'.exists_placed known'
      have same : p'.node = p.node :=
        laid.node_eq mem (perm.mem_iff.mpr (laid'.mem_nodes mem')) (named'.trans named.symm)
      exact ⟨p.made, p'.made, held, held', (laid.paired laid' mem mem' same).1⟩
    | @fresh p p' j mem mem' same inside =>
      have trees := (laid.paired laid' mem mem' same).2
      have inside' : j < p'.fresh.length := trees.length_eq ▸ inside
      exact ⟨p.fresh[j], p'.fresh[j],
        (laid.layout.stands p mem).fresh j _ (List.getElem?_eq_getElem inside),
        (laid'.layout.stands p' mem').fresh j _ (List.getElem?_eq_getElem inside'),
        trees.get inside inside'⟩

end Orders

/-- Two orders that are built compile to the same, or neither compiles. -/
theorem compile_of_perm {d d' : GraphDescription} {built built' : BuiltGraph}
    (root : d'.root = d.root) (perm : d.nodes.Perm d'.nodes)
    (h : (build registry d).on .empty = (.ok built, g))
    (h' : (build registry d').on .empty = (.ok built', g'))
    (small : g.size ≤ UInt32.size) (small' : g'.size ≤ UInt32.size) (config : CompilerConfig) :
    ((∃ shader, g.compile config built.root = .ok shader) ↔
      ∃ shader', g'.compile config built'.root = .ok shader') ∧
    ∀ shader shader', g.compile config built.root = .ok shader →
      g'.compile config built'.root = .ok shader' → shader'.written = shader.written := by
  obtain ⟨placed, laid⟩ := exists_laid h small
  obtain ⟨placed', laid'⟩ := exists_laid h' small'
  obtain ⟨_, _, ids, known⟩ := build_on_ok_iff.mp h
  obtain ⟨_, _, ids', known'⟩ := build_on_ok_iff.mp h'
  rw [ids] at known
  rw [ids', root] at known'
  exact (laid.matching laid' perm).compile (.key known known') config

end GraphDescription

end ParticleShading
