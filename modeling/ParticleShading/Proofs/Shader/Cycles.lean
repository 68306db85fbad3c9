import ParticleShading.Proofs.Shader.Acceptance

/-!
# Reported cycles

A cycle is cut from the stack of nodes that the search is in. The wording
`Search.stackText` looks the source up on that stack and each node up in the
graph, and it has an answer for the case that a lookup fails. Marks and path
agree in every state that a search comes to, so no lookup fails, and what is
reported is a cycle of the graph.
-/

namespace ParticleShading

/-- The name of the node with an id. A reserved slot has no name. -/
def Graph.describe (g : Graph) (id : NodeId) : String :=
  match g.get? id with
  | none => "<reserved> " ++ id.text
  | some node => Search.describe id node

namespace Search

/-- The states that the search from a root comes to. -/
def From (g : Graph) (root : NodeId) (s : Search) : Prop :=
  ∃ node, g.get? root = some node ∧
    Relation.ReflTransGen (fun s next => s.step g = .running next) (start g root node) s

/-- The ids on the path, the root first. -/
def stack (s : Search) : List NodeId := (s.path.map (·.id)).reverse

/-- The stack in words from the source on, or the whole stack if the source is not on it, and
the source at the end. -/
def stackText (g : Graph) (stack : List NodeId) (source : NodeId) : List String :=
  (stack.drop ((stack.idxOf? source).getD 0)).map g.describe ++ [g.describe source]

variable {g : Graph} {root source : NodeId} {s : Search}

theorem From.valid (h : From g root s) : Valid g root s := by
  obtain ⟨node, held, steps⟩ := h
  exact (valid_start held).moves (Relation.ReflTransGen.mono (fun _ _ => move_of_step) _ _ steps)

theorem Valid.describe_eq (v : Valid g root s) {f : Frame} (mem : f ∈ s.path) :
    g.describe f.id = Search.describe f.id f.node := by
  rw [Graph.describe, (v.frames f mem).1]

/-- A source on the path is on the stack once, after all that is below it. -/
theorem Valid.stack_split (v : Valid g root s) (mem : source ∈ s.path.map (·.id)) :
    ∃ before, s.stack = before ++ (cycleTo s.path source).map (·.id) ∧
      s.stack.idxOf? source = some before.length := by
  obtain ⟨front, f, rest, split, rfl, cycle⟩ := exists_cycleTo mem
  have apart : f.id ∉ rest.map (·.id) := by
    have distinct := v.distinct
    rw [split, List.map_append, List.map_cons, List.nodup_append] at distinct
    exact (List.nodup_cons.mp distinct.2.1).1
  have whole : s.stack = (rest.map (·.id)).reverse ++ (f.id :: (front.map (·.id)).reverse) := by
    simp [stack, split]
  refine ⟨(rest.map (·.id)).reverse, by simp [whole, cycle], ?_⟩
  have below : (rest.map (·.id)).reverse.idxOf? f.id = none := by
    simpa [List.idxOf?_eq_none_iff] using apart
  rw [whole, List.idxOf?, List.findIdx?_append]
  rw [List.idxOf?] at below
  simp [below, List.findIdx?_cons]

/-- The looked up wording is the wording of the cycle. -/
theorem Valid.stackText_eq (v : Valid g root s) (mem : source ∈ s.path.map (·.id)) :
    stackText g s.stack source = cycleText s.path source := by
  obtain ⟨before, split, at_source⟩ := v.stack_split mem
  have named : ((cycleTo s.path source).map (·.id)).map g.describe =
      (cycleTo s.path source).map fun f => Search.describe f.id f.node := by
    rw [List.map_map]
    exact List.map_congr_left fun f listed => v.describe_eq (mem_of_mem_cycleTo listed)
  obtain ⟨front, f, _, _, rfl, cycle⟩ := exists_cycleTo mem
  rw [stackText, at_source, Option.getD_some, split, List.drop_left, named, cycleText, cycle]
  have listed : f ∈ s.path := mem_of_mem_cycleTo (cycle ▸ List.mem_cons_self)
  simp [v.describe_eq listed]

end Search

/-- A reported cycle is a cycle of different nodes below the root, in the order of their edges.
An edge back to a node in progress finds that node on the stack, and every node there has a
name, so the report is what the lookups say. -/
theorem Graph.reported_cycle (g : Graph) (root : NodeId) :
    (∀ config path, g.compile config root = .error (.graph (.cycle path)) →
      ∃ nodes, g.Cycle nodes ∧ (∀ entry ∈ nodes, g.Reaches root entry.1) ∧
        path = (nodes ++ nodes.head?.toList).map fun entry => Search.describe entry.1 entry.2) ∧
    ∀ s f below input source rest, Search.From g root s →
      s.path = f :: below → f.pending = (input, .output source) :: rest →
      s.marks[source.node.toNat]? = some .inProgress →
        (∃ k, s.stack.idxOf? source.node = some k) ∧
        (∀ id ∈ s.stack, ∃ node, g.get? id = some node) ∧
        s.step g = .failed (.graph (.cycle (Search.stackText g s.stack source.node))) := by
  constructor
  · intro config path refused
    cases defect_of_compile refused with
    | cycle cycle reached named =>
      exact ⟨_, cycle, fun entry listed => reached entry.1 entry.2 listed, named⟩
  · intro s f below input source rest came top next active
    have v := came.valid
    have mem := (v.active source.node).mp active
    obtain ⟨before, _, at_source⟩ := v.stack_split mem
    refine ⟨⟨_, at_source⟩, ?_, ?_⟩
    · intro id listed
      obtain ⟨frame, here, rfl⟩ := List.mem_map.mp (List.mem_reverse.mp listed)
      exact ⟨frame.node, (v.frames frame here).1⟩
    · rw [v.stackText_eq mem]
      obtain ⟨id, node, pending⟩ := f
      dsimp only at next
      simp only [Search.step, top, next, active]

/-- Half of what another node gives. -/
def Graph.halved (source : NodeId) : Node := ⟨Library.scale .vec3, [.node source, .expr "0.5"]⟩

/-- A loop of two nodes behind a third. -/
def Graph.loop : Graph :=
  ⟨⟨#[some (halved ⟨1⟩), some (halved ⟨2⟩), some (halved ⟨1⟩)]⟩⟩

/-- The search of the loop before the edge that closes it. -/
def Graph.loopSearch : Search :=
  { marks := #[.inProgress, .inProgress, .inProgress]
    path := [⟨⟨2⟩, halved ⟨1⟩, (halved ⟨1⟩).inputs⟩, ⟨⟨1⟩, halved ⟨2⟩, (halved ⟨2⟩).inputs⟩,
      ⟨⟨0⟩, halved ⟨1⟩, (halved ⟨1⟩).inputs⟩]
    finished := [] }

theorem Graph.loopSearch_from : Search.From loop ⟨0⟩ loopSearch :=
  ⟨halved ⟨1⟩, rfl, .tail (.single rfl) rfl⟩

theorem Graph.compile_loop : loop.compile .standard ⟨0⟩ =
    .error (.graph (.cycle ["Scale #1", "Scale #2", "Scale #1"])) := by cbv

/-- The node that leads to the loop is on the stack and not in the report. -/
theorem Graph.reported_cycle_loop :
    loop.compile .standard ⟨0⟩ =
      .error (.graph (.cycle ["Scale #1", "Scale #2", "Scale #1"])) ∧
    (∃ nodes, loop.Cycle nodes ∧ ["Scale #1", "Scale #2", "Scale #1"] =
      (nodes ++ nodes.head?.toList).map fun entry => Search.describe entry.1 entry.2) ∧
    Search.From loop ⟨0⟩ loopSearch ∧ loopSearch.stack = [⟨0⟩, ⟨1⟩, ⟨2⟩] ∧
    loopSearch.step loop =
      .failed (.graph (.cycle (Search.stackText loop loopSearch.stack ⟨1⟩))) := by
  obtain ⟨reported, met⟩ := reported_cycle loop ⟨0⟩
  obtain ⟨nodes, cycle, _, named⟩ := reported _ _ compile_loop
  have closing := met loopSearch _ _ _ _ _ loopSearch_from rfl rfl rfl
  exact ⟨compile_loop, ⟨nodes, cycle, named⟩, loopSearch_from, rfl, closing.2.2⟩

end ParticleShading
