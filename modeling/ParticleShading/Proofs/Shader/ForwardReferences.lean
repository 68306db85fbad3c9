import ParticleShading.Proofs.Shader.Acceptance
import ParticleShading.Proofs.Shader.Construction

/-!
# Forward references

Calls that reserve, insert, define and stack, in any order, successful or not.
An inserted node reads older nodes only, so edges lead to smaller ids, and the
one way to close a cycle is to reserve an id and to fill it later. Where nothing
was reserved every reference has been checked for good, and a compilation has
only uniforms and injections left to complain about.
-/

namespace ParticleShading

/-- A checked node reads ids that the graph has issued. -/
theorem Node.Checked.issued {g : Graph} {node : Node} {input : Input Definition}
    {source : OutputRef} (checked : node.Checked g) (reads : node.Reads input source) :
    g.contains source.node = true :=
  Graph.contains_of_checkOutput (checked.bound input (.output source) reads)

/-- Where every input is bound, every reference is read by an input. -/
theorem Node.exists_reads {node : Node} {source : OutputRef}
    (complete : node.bindings.length = node.definition.inputs.length)
    (mem : .output source ∈ node.bindings) : ∃ input, node.Reads input source := by
  rw [← List.map_snd_zip (Nat.le_of_eq complete)] at mem
  obtain ⟨⟨input, _⟩, listed, rfl⟩ := List.mem_map.mp mem
  exact ⟨input, listed⟩

/-- A call that changes a graph. -/
inductive GraphCall where
  | reserve
  | insert (definition : Definition) (bindings : List (String × Binding))
  | define (definition : Definition) (bindings : List (String × Binding)) (id : NodeId)
  | stack (type : ValueType) (name : String) (base : Binding) (filters : List Filter)

def GraphCall.build : GraphCall → Build NodeId
  | .reserve => Build.reserve
  | .insert d bindings => Build.node d bindings
  | .define d bindings id => do
    let draft ← Build.draft d bindings
    draft.define id
  | .stack type name base filters => Build.stack type name base filters

/-- A graph with the ids that were reserved and those of them that were filled. -/
structure Construction where
  graph : Graph
  reserved : List NodeId
  filled : List NodeId

namespace Construction

def start : Construction := ⟨.empty, [], []⟩

/-- Makes a call, and notes the id that it reserves or fills. -/
def step (c : Construction) (call : GraphCall) : Construction :=
  let (result, graph) := call.build.on c.graph
  match call, result with
  | .reserve, .ok id => ⟨graph, id :: c.reserved, c.filled⟩
  | .define _ _ _, .ok id => ⟨graph, c.reserved, id :: c.filled⟩
  | _, _ => ⟨graph, c.reserved, c.filled⟩

def run (calls : List GraphCall) : Construction := calls.foldl step start

/-- What one call can do. -/
inductive Move (c : Construction) : GraphCall → Construction → Prop where
  | reserve :
    Move c .reserve ⟨⟨c.graph.nodes.reserve.2⟩, c.graph.nodes.nextHandle :: c.reserved, c.filled⟩
  | grow {call : GraphCall} {g : Graph} (unreserved : call ≠ .reserve)
      (grown : c.graph.Grows g) :
    Move c call ⟨g, c.reserved, c.filled⟩
  | fill {d : Definition} {bindings : List (String × Binding)} {id : NodeId} {g : Graph}
      {node : Node} {nodes : Arena Node} (issued : c.graph.contains id = true)
      (pending : c.graph.get? id = none) (grown : c.graph.Grows g) (checked : node.Checked g)
      (filled : g.nodes.define id node = .ok nodes) :
    Move c (.define d bindings id) ⟨⟨nodes⟩, c.reserved, id :: c.filled⟩

variable {c next : Construction} {call : GraphCall} {calls : List GraphCall}

theorem move_step (c : Construction) (call : GraphCall) : c.Move call (c.step call) := by
  cases call with
  | reserve => exact .reserve
  | insert d bindings => exact .grow (by simp) (Build.node_extends d bindings).grows
  | stack type name base filters =>
    exact .grow (by simp) (Build.stack_extends type name base filters).grows
  | define d bindings id =>
    rw [step, GraphCall.build, Build.on_bind, Build.draft, Build.on_check]
    cases drafted : (Draft.start d).bindAll c.graph bindings with
    | error e => exact .grow (by simp) .refl
    | ok draft =>
      have checked : draft.Checked c.graph := (Draft.checked_start d).bindAll drafted
      rcases checked.define id with ⟨error, g, grown, refused⟩ |
        ⟨g, node, nodes, issued, pending, grown, complete, filled, done⟩
      · simp only [refused]
        exact .grow (by simp) grown
      · simp only [done]
        exact .fill issued pending grown complete filled

/-! ## What every run keeps -/

/-- Ids without a node were reserved, and so was what has been filled. Every node has all its
inputs bound, and any but a filled one reads smaller ids. -/
structure Valid (c : Construction) : Prop where
  complete : ∀ id node, c.graph.get? id = some node →
    node.bindings.length = node.definition.inputs.length
  pending : ∀ id, c.graph.contains id = true → c.graph.get? id = none → id ∈ c.reserved
  filled : ∀ id ∈ c.filled, id ∈ c.reserved
  backward : ∀ id node, c.graph.get? id = some node → id ∉ c.filled →
    ∀ input source, node.Reads input source → source.node.toNat < id.toNat

theorem valid_start : start.Valid := by
  have blank (id : NodeId) (node : Node) : start.graph.get? id ≠ some node := by
    intro held
    have inside : id.toNat < 0 := Graph.contains_iff.mp (Graph.contains_of_get? held)
    omega
  refine ⟨?_, ?_, by simp [start], ?_⟩
  · intro id node held
    exact absurd held (blank id node)
  · intro id issued
    have inside : id.toNat < 0 := Graph.contains_iff.mp issued
    omega
  · intro id node held
    exact absurd held (blank id node)

/-- A checked node is put behind all ids that it can read. -/
theorem Valid.append {node : Node} (v : c.Valid) (checked : node.Checked c.graph) :
    Valid ⟨c.graph.append node, c.reserved, c.filled⟩ := by
  refine ⟨?_, ?_, v.filled, ?_⟩
  · intro id fed held
    rcases Graph.get?_append_cases held with ⟨_, rfl⟩ | older
    · exact checked.complete
    · exact v.complete id fed older
  · intro id issued reserved
    have inside := Graph.contains_iff.mp issued
    rw [Graph.get?_append] at reserved
    rw [Graph.size_append] at inside
    split at reserved
    · cases reserved
    · rename_i older
      exact v.pending id (Graph.contains_iff.mpr (by omega)) reserved
  · intro id fed held unfilled input source reads
    rcases Graph.get?_append_cases held with ⟨latest, rfl⟩ | older
    · have inside := Graph.contains_iff.mp (checked.issued reads)
      omega
    · exact v.backward id fed older unfilled input source reads

theorem Valid.grow {g : Graph} (v : c.Valid) (grown : c.graph.Grows g) :
    Valid ⟨g, c.reserved, c.filled⟩ := by
  induction grown with
  | refl => exact v
  | append _ checked ih => exact ih.append checked

theorem Valid.reserve (v : c.Valid) :
    Valid ⟨⟨c.graph.nodes.reserve.2⟩, c.graph.nodes.nextHandle :: c.reserved, c.filled⟩ := by
  have get? (id : NodeId) : c.graph.nodes.reserve.2.get? id = c.graph.get? id :=
    Arena.get?_reserve c.graph.nodes id
  refine ⟨?_, ?_, fun id mem => List.mem_cons_of_mem _ (v.filled id mem), ?_⟩
  · intro id node held
    exact v.complete id node ((get? id).symm.trans held)
  · intro id issued reserved
    have inside : id.toNat < c.graph.nodes.reserve.2.size := Graph.contains_iff.mp issued
    rw [Arena.size_reserve] at inside
    by_cases latest : id.toNat = c.graph.nodes.size
    · have next : c.graph.nodes.nextHandle.toNat = c.graph.nodes.size :=
        Arena.toNat_nextHandle (latest ▸ id.index.toNat_lt)
      rw [Handle.toNat_inj.mp (latest.trans next.symm)]
      exact List.mem_cons_self
    · have older : id.toNat < c.graph.size := by
        rw [Graph.size]
        omega
      exact List.mem_cons_of_mem _
        (v.pending id (Graph.contains_iff.mpr older) ((get? id).symm.trans reserved))
  · intro id node held
    exact v.backward id node ((get? id).symm.trans held)

theorem Valid.fill {id : NodeId} {node : Node} {nodes : Arena Node} (v : c.Valid)
    (reserved : id ∈ c.reserved) (checked : node.Checked c.graph)
    (filled : c.graph.nodes.define id node = .ok nodes) :
    Valid ⟨⟨nodes⟩, c.reserved, id :: c.filled⟩ := by
  have get? (other : NodeId) : (Graph.mk nodes).get? other =
      if other.toNat = id.toNat then some node else c.graph.get? other :=
    Arena.get?_define filled other
  have size : (Graph.mk nodes).size = c.graph.size := Arena.size_define filled
  refine ⟨?_, ?_, ?_, ?_⟩
  · intro other fed held
    rw [get?] at held
    split at held
    · cases held
      exact checked.complete
    · exact v.complete other fed held
  · intro other issued pending
    rw [Graph.contains_iff, size, ← Graph.contains_iff] at issued
    rw [get?] at pending
    split at pending
    · cases pending
    · exact v.pending other issued pending
  · intro other mem
    rcases List.mem_cons.mp mem with rfl | mem
    · exact reserved
    · exact v.filled other mem
  -- the new node may read larger ids, and its id counts as filled from here on
  · intro other fed held unfilled
    rw [List.mem_cons, not_or] at unfilled
    rw [get?, if_neg fun same => unfilled.1 (Handle.toNat_inj.mp same)] at held
    exact v.backward other fed held unfilled.2

theorem Valid.move (v : c.Valid) (h : c.Move call next) : next.Valid := by
  cases h with
  | reserve => exact v.reserve
  | grow _ grown => exact v.grow grown
  | fill issued pending grown checked filled =>
    exact (v.grow grown).fill (v.pending _ issued pending) checked filled

theorem valid_run (calls : List GraphCall) : (run calls).Valid := by
  suffices later : ∀ c : Construction, c.Valid → (calls.foldl step c).Valid from
    later start valid_start
  induction calls with
  | nil => exact fun c v => v
  | cons call rest ih => exact fun c v => ih (c.step call) (v.move (move_step c call))

/-- Along a cycle without a filled id the ids would fall for ever. -/
theorem Valid.exists_filled (v : c.Valid) {nodes : List (NodeId × Node)}
    (cycle : c.graph.Cycle nodes) : ∃ id ∈ nodes.map (·.1), id ∈ c.filled := by
  by_contra unfilled
  push Not at unfilled
  have falls : (nodes ++ nodes.head?.toList).IsChain
      fun target source => target.1.toNat > source.1.toNat := by
    refine List.IsChain.imp_of_mem_imp ?_ cycle.closed
    intro target source mem _ feeds
    have listed : target ∈ nodes := by
      rcases List.mem_append.mp mem with mem | mem
      · exact mem
      · exact List.mem_of_mem_head? (Option.mem_toList.mp mem)
    obtain ⟨node, held, input, output, reads⟩ := feeds
    exact v.backward target.1 node held (unfilled _ (List.mem_map_of_mem listed)) input _ reads
  cases nodes with
  | nil => exact cycle.nonempty rfl
  | cons first rest =>
    have ids := List.isChain_map_of_isChain (S := (· > ·))
      (fun entry : NodeId × Node => entry.1.toNat) (fun _ _ h => h) falls
    rw [List.isChain_iff_pairwise, List.head?_cons, List.cons_append, List.map_cons] at ids
    have last := (List.pairwise_cons.mp ids).1 first.1.toNat (by simp)
    exact absurd last (Nat.lt_irrefl _)

end Construction

/-! ## Graphs without forward references -/

/-- Every id has a node, every reference was checked for good, and there is no cycle. -/
structure Graph.Sound (g : Graph) : Prop where
  defined : ∀ id, g.contains id = true → ∃ node, g.get? id = some node
  checked : ∀ id node, g.get? id = some node → node.Checked g
  acyclic : ∀ nodes, ¬ g.Cycle nodes

theorem Graph.Grows.checked {g g' : Graph} (h : g.Grows g')
    (old : ∀ id node, g.get? id = some node → node.Checked g) :
    ∀ id node, g'.get? id = some node → node.Checked g' := by
  induction h with
  | refl => exact old
  | append _ checked ih =>
    intro id node held
    have grown := Grows.refl.append checked
    rcases get?_append_cases held with ⟨_, rfl⟩ | older
    · exact checked.grows grown
    · exact (ih id node older).grows grown

namespace Construction

variable {c next : Construction} {call : GraphCall} {calls : List GraphCall}

/-- A construction in which nothing was reserved. -/
structure Unreserved (c : Construction) : Prop where
  valid : c.Valid
  reserved : c.reserved = []
  checked : ∀ id node, c.graph.get? id = some node → node.Checked c.graph

theorem Unreserved.move (u : c.Unreserved) (other : call ≠ .reserve) (h : c.Move call next) :
    next.Unreserved := by
  have valid := u.valid.move h
  cases h with
  | reserve => exact absurd rfl other
  | grow _ grown => exact ⟨valid, u.reserved, grown.checked u.checked⟩
  | fill issued pending _ _ _ =>
    have mem := u.valid.pending _ issued pending
    rw [u.reserved] at mem
    cases mem

theorem unreserved_run (unreserved : .reserve ∉ calls) : (run calls).Unreserved := by
  suffices later : ∀ c : Construction, c.Unreserved → (calls.foldl step c).Unreserved by
    refine later start ⟨valid_start, rfl, ?_⟩
    intro id node held
    have inside : id.toNat < 0 := Graph.contains_iff.mp (Graph.contains_of_get? held)
    omega
  induction calls with
  | nil => exact fun c u => u
  | cons call rest ih =>
    rw [List.mem_cons, not_or] at unreserved
    exact fun c u =>
      ih unreserved.2 (c.step call) (u.move (Ne.symm unreserved.1) (move_step c call))

theorem Unreserved.unfilled (u : c.Unreserved) (id : NodeId) : id ∉ c.filled := by
  intro mem
  have reserved := u.valid.filled id mem
  rw [u.reserved] at reserved
  cases reserved

theorem Unreserved.sound (u : c.Unreserved) : c.graph.Sound := by
  refine ⟨?_, u.checked, ?_⟩
  · intro id issued
    rw [← Option.ne_none_iff_exists']
    intro pending
    have reserved := u.valid.pending id issued pending
    rw [u.reserved] at reserved
    cases reserved
  · intro nodes cycle
    obtain ⟨id, _, filled⟩ := u.valid.exists_filled cycle
    exact u.unfilled id filled

end Construction

namespace Graph.Sound

variable {g : Graph} {root : NodeId} {config : CompilerConfig} {error : ShaderError}

theorem no_fault {s : Search} (sound : g.Sound) (v : Search.Valid g root s) :
    ¬ Search.Fault g s error := by
  intro fault
  have issued {f : Frame} (hf : f ∈ s.path) {input : Input Definition} {source : OutputRef}
      (reads : f.node.Reads input source) : g.contains source.node = true :=
    (sound.checked f.id f.node (v.frames f hf).1).issued reads
  cases fault with
  | unknown foreign =>
    have reads := (v.frames _ List.mem_cons_self).reads
    have inside := contains_iff.mp (issued List.mem_cons_self reads)
    rw [Array.getElem?_eq_none_iff, v.size] at foreign
    omega
  | rejected _ misfit =>
    obtain ⟨held, walked⟩ := v.frames _ List.mem_cons_self
    have reads := Search.Walked.reads ⟨held, walked⟩
    have fits := (sound.checked _ _ held).bound _ _ reads
    exact absurd (misfit.symm.trans fits) (by simp)
  | cycle active =>
    obtain ⟨held, walked⟩ := v.frames _ List.mem_cons_self
    have reads := Search.Walked.reads ⟨held, walked⟩
    exact sound.acyclic _ (v.cycle rfl ⟨_, held, _, _, reads⟩ ((v.active _).mp active))
  | undefined _ reserved =>
    have reads := (v.frames _ List.mem_cons_self).reads
    obtain ⟨node, held⟩ := sound.defined _ (issued List.mem_cons_self reads)
    exact absurd (reserved.symm.trans held) (by simp)

/-- From every id of a sound graph the search comes to its end. -/
theorem exists_linearize (sound : g.Sound) (issued : g.contains root = true) :
    ∃ nodes, g.linearize root = .ok nodes := by
  obtain ⟨node, held⟩ := sound.defined root issued
  cases run : (Search.start g root node).run g with
  | ok nodes =>
    refine ⟨nodes, ?_⟩
    rw [linearize, if_pos issued, held]
    exact run
  | error e =>
    obtain ⟨last, moves, fault⟩ := Search.moves_of_run_error run
    exact absurd fault (sound.no_fault ((Search.valid_start held).moves moves))

theorem of_compile_error (sound : g.Sound) (issued : g.contains root = true)
    (refused : g.compile config root = .error error) :
    ∃ fault, error = .graph fault ∧ (g.Conflict root fault ∨ g.Uninjected config root fault) := by
  obtain ⟨nodes, linearized⟩ := sound.exists_linearize issued
  rcases compile_eq_error refused with stopped | ⟨nodes', fault, ordered, failed, rfl⟩
  · exact absurd (stopped.symm.trans linearized) (by simp)
  · exact ⟨fault, rfl, (dependencyOrder_of_linearize ordered).of_compile_error failed⟩

end Graph.Sound

/-- The edges are the references in the bindings, and a cycle of them has to go through a reserved
id that was filled later. Without reserved ids every id
has a node that reads smaller ids only, and compiling from it fails at uniforms or injections. -/
theorem Construction.cycle_through_reserved (calls : List GraphCall) :
    (∀ id node, (run calls).graph.get? id = some node →
      ∀ source, .output source ∈ node.bindings ↔ ∃ input, node.Reads input source) ∧
    (∀ nodes, (run calls).graph.Cycle nodes →
      ∃ id ∈ nodes.map (·.1), id ∈ (run calls).filled ∧ id ∈ (run calls).reserved) ∧
    (.reserve ∉ calls →
      (∀ id, (run calls).graph.contains id = true →
        ∃ node, (run calls).graph.get? id = some node) ∧
      (∀ id node, (run calls).graph.get? id = some node →
        ∀ source, .output source ∈ node.bindings → source.node.toNat < id.toNat) ∧
      ∀ config root, (run calls).graph.contains root = true →
        (∃ nodes, (run calls).graph.linearize root = .ok nodes) ∧
        ∀ error, (run calls).graph.compile config root = .error error →
          ∃ fault, error = .graph fault ∧ ((run calls).graph.Conflict root fault ∨
            (run calls).graph.Uninjected config root fault)) := by
  have valid := valid_run calls
  refine ⟨?_, ?_, ?_⟩
  · intro id node held source
    constructor
    · exact Node.exists_reads (valid.complete id node held)
    · rintro ⟨input, reads⟩
      exact (List.of_mem_zip reads).2
  · intro nodes cycle
    obtain ⟨id, listed, filled⟩ := valid.exists_filled cycle
    exact ⟨id, listed, filled, valid.filled id filled⟩
  · intro unreserved
    have plain := unreserved_run unreserved
    refine ⟨plain.sound.defined, ?_, ?_⟩
    · intro id node held source mem
      obtain ⟨input, reads⟩ := Node.exists_reads (valid.complete id node held) mem
      exact valid.backward id node held (plain.unfilled id) input source reads
    · intro config root issued
      refine ⟨plain.sound.exists_linearize issued, ?_⟩
      intro error refused
      exact plain.sound.of_compile_error issued refused

/-- A node reads a reserved id, and the id is filled with a reader of that node. -/
def GraphCall.loop : List GraphCall :=
  [.reserve, .insert (Library.passThrough "Pass" .float) [("a", .node ⟨0⟩)],
    .define (Library.passThrough "Pass" .float) [("a", .node ⟨1⟩)] ⟨0⟩]

/-- The call that would fill an id with a node is refused. -/
def GraphCall.wave : List GraphCall :=
  [.insert Library.sineWave [], .define Library.time [] ⟨0⟩,
    .stack .float "Wave" (.node ⟨1⟩) [⟨Library.scale .float, [("factor", .node ⟨0⟩)]⟩]]

theorem Construction.run_loop : run GraphCall.loop =
    ⟨⟨⟨#[some ⟨Library.passThrough "Pass" .float, [.node ⟨1⟩]⟩,
      some ⟨Library.passThrough "Pass" .float, [.node ⟨0⟩]⟩]⟩⟩, [⟨0⟩], [⟨0⟩]⟩ := rfl

theorem Construction.cycle_loop : (run GraphCall.loop).graph.Cycle
    [(⟨0⟩, ⟨Library.passThrough "Pass" .float, [.node ⟨1⟩]⟩),
      (⟨1⟩, ⟨Library.passThrough "Pass" .float, [.node ⟨0⟩]⟩)] := by
  rw [run_loop]
  refine ⟨by simp, ?_, by decide, ?_⟩
  · intro id node mem
    rcases List.mem_cons.mp mem with same | mem
    · cases same
      rfl
    · cases List.mem_singleton.mp mem
      rfl
  · refine List.isChain_cons_cons.mpr ⟨?_, List.isChain_cons_cons.mpr ⟨?_, .singleton _⟩⟩
    · exact ⟨_, rfl, _, _, List.mem_cons_self⟩
    · exact ⟨_, rfl, _, _, List.mem_cons_self⟩

theorem Construction.run_wave : (run GraphCall.wave).graph =
    ⟨⟨#[some ⟨Library.time, []⟩,
      some ⟨Library.sineWave, [.node ⟨0⟩, .literal (.float 1), .literal (.float 1)]⟩,
      some ⟨Library.passThrough "Wave" .float, [.node ⟨1⟩]⟩,
      some ⟨Library.scale .float, [.node ⟨2⟩, .node ⟨0⟩]⟩]⟩⟩ := rfl

/-- The cycle goes through the id that was filled, and what is built without one lacks no more than
the output that the host asks for. -/
theorem Construction.cycle_through_reserved_loop :
    (∃ nodes, (run GraphCall.loop).graph.Cycle nodes ∧
      ∃ id ∈ nodes.map (·.1), id ∈ (run GraphCall.loop).filled ∧
        id ∈ (run GraphCall.loop).reserved) ∧
    .reserve ∉ GraphCall.wave ∧
    (∃ nodes, (run GraphCall.wave).graph.linearize ⟨3⟩ = .ok nodes) ∧
    (run GraphCall.wave).graph.compile .standard ⟨3⟩ =
      .error (.graph (.missingOutput "Scale" "position")) ∧
    (run GraphCall.wave).graph.Uninjected .standard ⟨3⟩ (.missingOutput "Scale" "position") := by
  have unreserved : .reserve ∉ GraphCall.wave := by simp [GraphCall.wave]
  have issued : (run GraphCall.wave).graph.contains ⟨3⟩ = true := rfl
  have refused : (run GraphCall.wave).graph.compile .standard ⟨3⟩ =
      .error (.graph (.missingOutput "Scale" "position")) := by
    rw [run_wave]
    cbv
  obtain ⟨_, through, _⟩ := cycle_through_reserved GraphCall.loop
  obtain ⟨_, _, plain⟩ := cycle_through_reserved GraphCall.wave
  obtain ⟨_, _, compiles⟩ := plain unreserved
  obtain ⟨linearized, errors⟩ := compiles .standard ⟨3⟩ issued
  refine ⟨⟨_, cycle_loop, through _ cycle_loop⟩, unreserved, linearized, refused, ?_⟩
  obtain ⟨fault, same, conflict | uninjected⟩ := errors _ refused
  · obtain ⟨_, _, _, _, _, _, rfl⟩ := conflict
    cases same
  · cases same
    exact uninjected

end ParticleShading
