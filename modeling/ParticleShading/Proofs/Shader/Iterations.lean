import ParticleShading.Proofs.Shader.Cycles

/-!
# Iterations of the traversal

`Search.run` is total by a measure on its states, and it reads the marks
through lookups that have an answer everywhere. `Graph.traverse` is the loop as
it stands: the marks are an array in which an access past the end is a trap,
and so is an iteration beyond the number that is allowed. Marks and path agree
in every state that the loop comes to, so no access traps. What an iteration
spends is an input that it passes, a node that it enters or a node that it
leaves, so the nodes that are marked in the end pay for all iterations, also
for those up to an edge that closes a cycle.
-/

namespace ParticleShading

/-- What stops a traversal without an answer. -/
inductive Trap where
  /-- An access to marks that end before the index. -/
  | range (index : Nat)
  /-- An iteration beyond the number that is allowed. -/
  | iterations
  deriving DecidableEq

namespace Mark

/-- Reads the mark of an id. -/
def read (marks : Array Mark) (id : NodeId) : Except Trap Mark :=
  if inside : id.toNat < marks.size then .ok marks[id.toNat] else .error (.range id.toNat)

/-- Marks an id. -/
def write (marks : Array Mark) (id : NodeId) (mark : Mark) : Except Trap (Array Mark) :=
  if inside : id.toNat < marks.size then .ok (marks.set id.toNat mark)
  else .error (.range id.toNat)

variable {marks : Array Mark} {id : NodeId} {mark : Mark}

theorem read_eq (held : marks[id.toNat]? = some mark) : read marks id = .ok mark := by
  obtain ⟨inside, rfl⟩ := Array.getElem?_eq_some_iff.mp held
  exact dif_pos inside

theorem write_eq (inside : id.toNat < marks.size) :
    write marks id mark = .ok (marks.setIfInBounds id.toNat mark) := by
  rw [write, dif_pos inside, Array.setIfInBounds, dif_pos inside]

end Mark

/-- The body of the loop. Ids that are foreign to the graph are refused before their mark is
read. -/
def Search.iteration (g : Graph) (s : Search) : Except Trap Outcome :=
  match s.path with
  | [] => return .complete s.finished.reverse
  | ⟨id, node, []⟩ :: below => do
    let marks ← Mark.write s.marks id .done
    return .running { marks, path := below, finished := (id, node) :: s.finished }
  | ⟨id, node, (input, .output source) :: rest⟩ :: below => do
    if !g.contains source.node then
      return .failed (.graph (.unknownNode source.node))
    match ← Mark.read s.marks source.node with
    | .done =>
      match g.checkOutput node.name input.name input.type source with
      | .ok () => return .running { s with path := ⟨id, node, rest⟩ :: below }
      | .error e => return .failed e
    | .inProgress => return .failed (.graph (.cycle (cycleText s.path source.node)))
    | .unvisited =>
      match g.get? source.node with
      | none => return .failed (.graph (.undefinedNode source.node))
      | some child =>
        let marks ← Mark.write s.marks source.node .inProgress
        return .running { s with marks, path := ⟨source.node, child, child.inputs⟩ :: s.path }
  | ⟨id, node, (_, _) :: rest⟩ :: below =>
    return .running { s with path := ⟨id, node, rest⟩ :: below }

/-- The loop with the iterations it may make. It hands out the marks it ends with. -/
def Search.loop (g : Graph) :
    Nat → Search → Except Trap (Array Mark × Except ShaderError (List (NodeId × Node)))
  | 0, s => if s.path.isEmpty then return (s.marks, .ok s.finished.reverse) else throw .iterations
  | budget + 1, s => do
    match ← s.iteration g with
    | .complete order => return (s.marks, .ok order)
    | .failed error => return (s.marks, .error error)
    | .running next => loop g budget next

/-- The traversal from a root over marks that may be in use already. -/
def Graph.walk (g : Graph) (marks : Array Mark) (root : NodeId) (budget : Nat) :
    Except Trap (Array Mark × Except ShaderError (List (NodeId × Node))) := do
  if (← Mark.read marks root) = .done then
    return (marks, .ok [])
  match g.get? root with
  | none => return (marks, .error (.graph (.undefinedNode root)))
  | some node =>
    let marks ← Mark.write marks root .inProgress
    Search.loop g budget { marks, path := [⟨root, node, node.inputs⟩], finished := [] }

/-- The traversal over fresh marks, one for each slot. -/
def Graph.traverse (g : Graph) (root : NodeId) (budget : Nat) :
    Except Trap (Array Mark × Except ShaderError (List (NodeId × Node))) :=
  if g.contains root then g.walk (Array.replicate g.size .unvisited) root budget
  else return (Array.replicate g.size .unvisited, .error (.graph (.unknownNode root)))

/-- The nodes that are marked, each once. -/
structure Graph.Marked (g : Graph) (marks : Array Mark) (nodes : List (NodeId × Node)) : Prop where
  distinct : (nodes.map (·.1)).Nodup
  listed : ∀ id : NodeId,
    id ∈ nodes.map (·.1) ↔ ∃ mark, marks[id.toNat]? = some mark ∧ mark ≠ .unvisited
  held : ∀ entry ∈ nodes, g.get? entry.1 = some entry.2

/-- The iterations that nodes pay for: one to enter each, one to leave it, and one to pass each
of its inputs. -/
def Search.allowance (nodes : List (NodeId × Node)) : Nat :=
  2 * nodes.length + (nodes.flatMap (·.2.inputs)).length

namespace Search

/-- The nodes on the path and the nodes finished. -/
def entered (s : Search) : List (NodeId × Node) :=
  s.path.map (fun f => (f.id, f.node)) ++ s.finished

variable {g : Graph} {root : NodeId} {s next : Search}

theorem ids_entered (s : Search) :
    s.entered.map (·.1) = s.path.map (·.id) ++ s.finished.map (·.1) := by
  simp [entered]

/-! ## Accesses -/

/-- In a state that the search comes to, the body makes the move of the search. -/
theorem Valid.iteration_eq (v : Valid g root s) : s.iteration g = .ok (s.step g) := by
  obtain ⟨marks, path, finished⟩ := s
  match path with
  | [] => rfl
  | ⟨id, node, []⟩ :: below =>
    have inside := inside_of_mark ((v.active id).mpr List.mem_cons_self)
    simp only [iteration, step, Mark.write_eq inside]
    rfl
  | ⟨id, node, (input, .literal value) :: rest⟩ :: below => rfl
  | ⟨id, node, (input, .expr text) :: rest⟩ :: below => rfl
  | ⟨id, node, (input, .output source) :: rest⟩ :: below =>
    have size : marks.size = g.size := v.size
    cases known : g.contains source.node with
    | false =>
      have outside : ¬ source.node.toNat < marks.size := by
        rw [size, ← Graph.contains_iff, known]
        decide
      have foreign : marks[source.node.toNat]? = none := Array.getElem?_eq_none (by omega)
      simp only [iteration, step, known, foreign]
      rfl
    | true =>
      have inside : source.node.toNat < marks.size := size ▸ Graph.contains_iff.mp known
      obtain ⟨mark, held⟩ : ∃ mark, marks[source.node.toNat]? = some mark :=
        ⟨_, Array.getElem?_eq_getElem inside⟩
      simp only [iteration, step, known, Mark.read_eq held, held]
      cases mark with
      | done =>
        cases g.checkOutput node.name input.name input.type source <;> rfl
      | inProgress => rfl
      | unvisited =>
        cases g.get? source.node with
        | none => rfl
        | some child =>
          simp only [Mark.write_eq inside]
          rfl

/-! ## Iterations -/

/-- A move that goes on does one iteration's worth of the work ahead, or it enters a node and
takes on the work that the node brings. -/
theorem Move.spends (h : Move g s next) :
    allowance next.entered + s.pendingWork = allowance s.entered + next.pendingWork + 1 := by
  cases h with
  | finish => simp [allowance, entered, pendingWork]; omega
  | skip => simp [allowance, entered, pendingWork]; omega
  | pass => simp [allowance, entered, pendingWork]; omega
  | descend => simp [allowance, entered, pendingWork]; omega

theorem Valid.marked (v : Valid g root s) : g.Marked s.marks s.entered := by
  refine ⟨?_, ?_, ?_⟩
  · rw [ids_entered]
    refine List.nodup_append'.mpr ⟨v.distinct, v.closed.nodup, ?_⟩
    intro id onPath done
    exact absurd (((v.active id).mpr onPath).symm.trans ((v.done id).mpr done)) (by simp)
  · intro id
    rw [ids_entered, List.mem_append, ← v.active, ← v.done]
    constructor
    · rintro (active | done)
      · exact ⟨_, active, by decide⟩
      · exact ⟨_, done, by decide⟩
    · rintro ⟨mark, held, visited⟩
      cases mark with
      | unvisited => exact absurd rfl visited
      | inProgress => exact Or.inl held
      | done => exact Or.inr held
  · intro entry mem
    rcases List.mem_append.mp mem with onPath | done
    · obtain ⟨f, listed, rfl⟩ := List.mem_map.mp onPath
      exact (v.frames f listed).1
    · exact (v.closed.of_mem done).1

/-- The loop ends, and the nodes that are marked then pay for the iterations since the start. -/
theorem Valid.loop_eq (v : Valid g root s) (spent : Nat)
    (paid : spent + 1 + s.pendingWork = allowance s.entered) :
    ∃ marks nodes, g.Marked marks nodes ∧ spent < allowance nodes ∧
      ∀ budget, allowance nodes ≤ spent + budget → s.loop g budget = .ok (marks, s.run g) := by
  have body := v.iteration_eq
  -- in every state of the run, what is spent and what is ahead is what the entered nodes pay for
  fun_induction run g s generalizing spent with
  | case1 s order hs =>
    refine ⟨s.marks, s.entered, v.marked, by omega, fun budget enough => ?_⟩
    obtain ⟨empty, rfl⟩ := complete_of_step hs
    cases budget with
    | zero => simp [loop, empty, pure, Except.pure]
    | succ budget => simp [loop, body, hs, bind, Except.bind, pure, Except.pure]
  | case2 s error hs =>
    refine ⟨s.marks, s.entered, v.marked, by omega, fun budget enough => ?_⟩
    obtain ⟨budget, rfl⟩ : ∃ k, budget = k + 1 := Nat.exists_eq_add_one.mpr (by omega)
    simp [loop, body, hs, bind, Except.bind, pure, Except.pure]
  | case3 s next hs ih =>
    have move := move_of_step hs
    have later := v.move move
    have := move.spends
    obtain ⟨marks, nodes, marked, before, ends⟩ :=
      ih later (spent + 1) (by omega) later.iteration_eq
    refine ⟨marks, nodes, marked, by omega, fun budget enough => ?_⟩
    obtain ⟨budget, rfl⟩ : ∃ k, budget = k + 1 := Nat.exists_eq_add_one.mpr (by omega)
    simpa [loop, body, hs, bind, Except.bind] using ends budget (by omega)

end Search

/-- The traversal of a graph from an id that it has issued comes to its answer without a trap, in
at most two iterations for each node that it marks and one for each of their inputs. -/
theorem Graph.traverse_bounded {g : Graph} {root : NodeId} (issued : g.contains root = true) :
    ∃ marks nodes, g.Marked marks nodes ∧
      ∀ budget, 2 * nodes.length + (nodes.flatMap (·.2.inputs)).length ≤ budget →
        g.traverse root budget = .ok (marks, g.linearize root) := by
  have fresh : (Array.replicate g.size Mark.unvisited)[root.toNat]? = some .unvisited := by
    rw [Array.getElem?_replicate, if_pos (Graph.contains_iff.mp issued)]
  have inside := Search.inside_of_mark fresh
  cases held : g.get? root with
  | none =>
    refine ⟨.replicate g.size .unvisited, [], ⟨List.nodup_nil, ?_, by simp⟩, fun budget _ => ?_⟩
    · intro id
      simp [Array.getElem?_replicate]
    · simp [traverse, walk, linearize, issued, held, Mark.read_eq fresh]
      rfl
  | some node =>
    have v := Search.valid_start held
    obtain ⟨marks, nodes, marked, _, ends⟩ := v.loop_eq 0
      (by simp [Search.allowance, Search.entered, Search.pendingWork, Search.start]; omega)
    refine ⟨marks, nodes, marked, fun budget enough => ?_⟩
    simp only [traverse, walk, linearize, issued, held, Mark.read_eq fresh, Mark.write_eq inside]
    exact ends budget ((Nat.zero_add budget).symm ▸ enough)

theorem Graph.linearize_loop : loop.linearize ⟨0⟩ =
    .error (.graph (.cycle ["Scale #1", "Scale #2", "Scale #1"])) := by cbv

/-- A node that leads to a loop: the report of the cycle is paid for as well. -/
theorem Graph.traverse_bounded_loop : loop.contains ⟨0⟩ = true ∧
    ∃ marks nodes, loop.Marked marks nodes ∧
      loop.traverse ⟨0⟩ (2 * nodes.length + (nodes.flatMap (·.2.inputs)).length) =
        .ok (marks, .error (.graph (.cycle ["Scale #1", "Scale #2", "Scale #1"]))) := by
  have issued : loop.contains ⟨0⟩ = true := rfl
  obtain ⟨marks, nodes, marked, ends⟩ := traverse_bounded issued
  exact ⟨issued, marks, nodes, marked, linearize_loop ▸ ends _ le_rfl⟩

/-- Two nodes are entered, then the cycle is met. -/
example : Graph.loop.traverse ⟨0⟩ 2 = .error .iterations ∧
    Graph.loop.traverse ⟨0⟩ 3 = .ok (#[.inProgress, .inProgress, .inProgress],
      .error (.graph (.cycle ["Scale #1", "Scale #2", "Scale #1"]))) := ⟨rfl, rfl⟩

end ParticleShading
