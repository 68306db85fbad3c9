import ParticleShading.Shader.Graph

/-!
# Dependency order

The nodes that a root reaches, every node after the nodes that feed it. The
search is a machine whose stack is the path from the root; `Search.step` makes
one move and `Search.run` repeats it. A move either finishes a node, passes an
input, or descends to an unvisited source, so the pair of unvisited slots and
pending work falls with every move.
-/

namespace ParticleShading

inductive Mark where
  | unvisited
  | inProgress
  | done
  deriving DecidableEq

/-- A node on the path with the inputs still to be walked. -/
structure Frame where
  id : NodeId
  node : Node
  pending : List (Input Definition × Binding)

/-- A state of the search. The path has its deepest node first, and so has the
list of finished nodes its latest. -/
structure Search where
  marks : Array Mark
  path : List Frame
  finished : List (NodeId × Node)

namespace Search

/-- The outcome of one move. -/
inductive Outcome where
  | running (next : Search)
  | complete (order : List (NodeId × Node))
  | failed (error : ShaderError)

def describe (id : NodeId) (node : Node) : String := node.name ++ " " ++ id.text

/-- The cycle that an edge back to `source` closes, in the order of the path. -/
def cycleTo (path : List Frame) (source : NodeId) : List Frame :=
  (path.takeWhile (·.id ≠ source) ++ (path.find? (·.id = source)).toList).reverse

/-- The cycle in words, its first node repeated at the end. -/
def cycleText (path : List Frame) (source : NodeId) : List String :=
  let names := (cycleTo path source).map fun frame => describe frame.id frame.node
  names ++ names.head?.toList

/-- Starts at a node. -/
def start (g : Graph) (root : NodeId) (node : Node) : Search :=
  { marks := (Array.replicate g.size Mark.unvisited).setIfInBounds root.toNat .inProgress
    path := [⟨root, node, node.inputs⟩]
    finished := [] }

/-- One move. The edge that led down to a source is looked at again once the
source is done, and only then its type is checked. -/
def step (g : Graph) (s : Search) : Outcome :=
  match s.path with
  | [] => .complete s.finished.reverse
  | ⟨id, node, []⟩ :: below =>
    .running
      { marks := s.marks.setIfInBounds id.toNat .done
        path := below
        finished := (id, node) :: s.finished }
  | ⟨id, node, (input, .output source) :: rest⟩ :: below =>
    match s.marks[source.node.toNat]? with
    | none => .failed (.graph (.unknownNode source.node))
    | some .done =>
      match g.checkOutput node.name input.name input.type source with
      | .ok () => .running { s with path := ⟨id, node, rest⟩ :: below }
      | .error e => .failed e
    | some .inProgress => .failed (.graph (.cycle (cycleText s.path source.node)))
    | some .unvisited =>
      match g.get? source.node with
      | none => .failed (.graph (.undefinedNode source.node))
      | some child =>
        .running
          { s with
            marks := s.marks.setIfInBounds source.node.toNat .inProgress
            path := ⟨source.node, child, child.inputs⟩ :: s.path }
  | ⟨id, node, (_, _) :: rest⟩ :: below =>
    .running { s with path := ⟨id, node, rest⟩ :: below }

/-- The slots that no path has reached yet. -/
def unvisited (s : Search) : Nat := s.marks.count .unvisited

/-- The number of nodes on the path and of inputs still to be walked. -/
def pendingWork (s : Search) : Nat := s.path.length + (s.path.flatMap (·.pending)).length

theorem count_setIfInBounds_le {marks : Array Mark} {i : Nat} {m : Mark} (h : m ≠ .unvisited) :
    (marks.setIfInBounds i m).count .unvisited ≤ marks.count .unvisited := by
  by_cases hi : i < marks.size
  · rw [Array.setIfInBounds, dif_pos hi, Array.count_set]
    have : (m == Mark.unvisited) = false := by simpa using h
    simp [this]
  · simp [Array.setIfInBounds, hi]

theorem count_setIfInBounds_lt {marks : Array Mark} {i : Nat} {m : Mark}
    (h : m ≠ .unvisited) (hi : marks[i]? = some .unvisited) :
    (marks.setIfInBounds i m).count .unvisited < marks.count .unvisited := by
  obtain ⟨hlt, hval⟩ := Array.getElem?_eq_some_iff.1 hi
  have hmem : Mark.unvisited ∈ marks := hval ▸ Array.getElem_mem hlt
  have hpos := Array.count_pos_iff.2 hmem
  rw [Array.setIfInBounds, dif_pos hlt, Array.count_set]
  have hm : (m == Mark.unvisited) = false := by simpa using h
  simp only [hval, beq_self_eq_true, if_true, hm]
  simp
  omega

/-- Every move that goes on leaves less to do. -/
theorem step_running {g : Graph} {s next : Search} (h : s.step g = .running next) :
    next.unvisited < s.unvisited ∨
      next.unvisited ≤ s.unvisited ∧ next.pendingWork < s.pendingWork := by
  unfold step at h
  split at h
  · cases h
  · rename_i hp
    cases h
    refine .inr ⟨count_setIfInBounds_le (by decide), ?_⟩
    simp [pendingWork, hp]
  · rename_i hp
    split at h
    · cases h
    · split at h
      · cases h
        exact .inr ⟨Nat.le_refl _, by simp [pendingWork, hp]⟩
      · cases h
    · cases h
    · rename_i hm
      split at h
      · cases h
      · cases h
        exact .inl (count_setIfInBounds_lt (by decide) hm)
  · rename_i hp
    cases h
    exact .inr ⟨Nat.le_refl _, by simp [pendingWork, hp]⟩

/-- Moves until the search ends. -/
def run (g : Graph) (s : Search) : Except ShaderError (List (NodeId × Node)) :=
  match _h : s.step g with
  | .complete order => .ok order
  | .failed error => .error error
  | .running next => run g next
termination_by (s.unvisited, s.pendingWork)
decreasing_by
  rcases step_running _h with h | ⟨h, h'⟩
  · exact Prod.Lex.left _ _ h
  · rcases Nat.lt_or_eq_of_le h with h | h
    · exact Prod.Lex.left _ _ h
    · rw [h]
      exact Prod.Lex.right _ h'

end Search

/-- The nodes that `root` reaches, in dependency order and with the root last. -/
def Graph.linearize (g : Graph) (root : NodeId) : Except ShaderError (List (NodeId × Node)) :=
  if g.contains root then
    match g.get? root with
    | none => .error (.graph (.undefinedNode root))
    | some node => (Search.start g root node).run g
  else .error (.graph (.unknownNode root))

/-- The node has an input that is fed by an output. -/
def Node.Reads (n : Node) (input : Input Definition) (source : OutputRef) : Prop :=
  (input, .output source) ∈ n.inputs

/-- An edge: a node has an input fed by an output of another. -/
def Graph.Feeds (g : Graph) (source target : NodeId) : Prop :=
  ∃ node, g.get? target = some node ∧ ∃ input output, node.Reads input ⟨source, output⟩

/-- The ids that a node depends on, itself included. -/
inductive Graph.Reaches (g : Graph) (root : NodeId) : NodeId → Prop where
  | root : Graph.Reaches g root root
  | feed {source target : NodeId} :
    Graph.Reaches g root target → g.Feeds source target → Graph.Reaches g root source

end ParticleShading
