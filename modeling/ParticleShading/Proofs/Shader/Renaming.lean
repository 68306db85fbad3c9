import ParticleShading.Proofs.Shader.Linearization
import Mathlib.Data.Set.Function

/-!
# Renaming of nodes

Two graphs are isomorphic below their roots if a bijection of what the roots
reach carries every node to a node of the same definition with renamed
references. The searches of both graphs then run in step: they make the same
moves, hold marks and paths that agree up to the renaming, and end alike. So
both graphs are linearized in the same order, or both are refused.
-/

namespace ParticleShading

/-! ## Isomorphisms -/

def OutputRef.rename (f : NodeId → NodeId) (source : OutputRef) : OutputRef :=
  { source with node := f source.node }

/-- The binding with its reference renamed, if it is one. -/
def Binding.rename (f : NodeId → NodeId) : Binding → Binding
  | .literal value => .literal value
  | .expr source => .expr source
  | .output source => .output (source.rename f)

/-- The node with all its references renamed. -/
def Node.rename (f : NodeId → NodeId) (n : Node) : Node :=
  { n with bindings := n.bindings.map (Binding.rename f) }

/-- What two roots reach corresponds: foreign, reserved and defined ids to such ids, and a node to
the same node with renamed references. -/
structure Graph.Isomorphism (g g' : Graph) (root root' : NodeId) (f : NodeId → NodeId) :
    Prop where
  bijective : Set.BijOn f {id | g.Reaches root id} {id | g'.Reaches root' id}
  roots : f root = root'
  issued : ∀ id, g.Reaches root id → g'.contains (f id) = g.contains id
  node : ∀ id, g.Reaches root id → g'.get? (f id) = (g.get? id).map (Node.rename f)

namespace Search

abbrev Pending := List (Input Definition × Binding)

def Pending.rename (f : NodeId → NodeId) (pending : Pending) : Pending :=
  pending.map fun (input, binding) => (input, binding.rename f)

end Search

def Frame.rename (f : NodeId → NodeId) (frame : Frame) : Frame :=
  ⟨f frame.id, frame.node.rename f, Search.Pending.rename f frame.pending⟩

/-- A node with its id, both renamed. -/
def Node.renameEntry (f : NodeId → NodeId) : NodeId × Node → NodeId × Node :=
  fun (id, node) => (f id, node.rename f)

theorem Node.inputs_rename (f : NodeId → NodeId) (n : Node) :
    (n.rename f).inputs = Search.Pending.rename f n.inputs := by
  rw [inputs, inputs, rename, Search.Pending.rename, List.zip_map_right]
  rfl

namespace Graph.Isomorphism

variable {g g' : Graph} {root root' : NodeId} {f : NodeId → NodeId}

/-- A reference fits a renamed graph exactly if it fits the graph. -/
theorem checkOutput_iff (iso : g.Isomorphism g' root root' f) {source : OutputRef}
    (reached : g.Reaches root source.node) (owner input : String) (expected : ValueType) :
    g'.checkOutput owner input expected (source.rename f) = .ok () ↔
      g.checkOutput owner input expected source = .ok () := by
  have issued := iso.issued _ reached
  have node := iso.node _ reached
  cases held : g.get? source.node with
  | none =>
    rw [held, Option.map_none] at node
    cases known : g.contains source.node with
    | false => simp [checkOutput, outputType, OutputRef.rename, issued, known]
    | true => simp [checkOutput, outputType, OutputRef.rename, issued, known, node, held]
  | some fed =>
    rw [held, Option.map_some] at node
    have fed' : g'.get? (source.rename f).node = some (fed.rename f) := node
    rw [checkOutput_eq_ok_iff held, checkOutput_eq_ok_iff fed']
    rfl

end Graph.Isomorphism

/-! ## Searches in step -/

namespace Search

variable {g g' : Graph} {root root' id : NodeId} {f : NodeId → NodeId} {s s' : Search}

/-- The second search is the first one renamed. -/
structure Renamed (g : Graph) (root : NodeId) (f : NodeId → NodeId) (s s' : Search) : Prop where
  marks : ∀ id, g.Reaches root id → s'.marks[(f id).toNat]? = s.marks[id.toNat]?
  path : s'.path = s.path.map (Frame.rename f)
  finished : s'.finished = s.finished.map (Node.renameEntry f)

/-- Outcomes of searches in step. Errors may name different ids. -/
inductive Outcome.Renamed (g : Graph) (root : NodeId) (f : NodeId → NodeId) :
    Outcome → Outcome → Prop where
  | running {next next' : Search} (same : next.Renamed g root f next') :
    Outcome.Renamed g root f (.running next) (.running next')
  | complete {order : List (NodeId × Node)} :
    Outcome.Renamed g root f (.complete order) (.complete (order.map (Node.renameEntry f)))
  | failed {error error' : ShaderError} :
    Outcome.Renamed g root f (.failed error) (.failed error')

/-- Marking a node in both searches keeps them in step. -/
theorem marks_renamed {marks marks' : Array Mark} {m n : Mark}
    (injective : Set.InjOn f {id | g.Reaches root id})
    (same : ∀ id, g.Reaches root id → marks'[(f id).toNat]? = marks[id.toNat]?)
    (reached : g.Reaches root id) (marked : marks[id.toNat]? = some m) (other : NodeId)
    (reached' : g.Reaches root other) :
    (marks'.setIfInBounds (f id).toNat n)[(f other).toNat]? =
      (marks.setIfInBounds id.toNat n)[other.toNat]? := by
  have marked' : marks'[(f id).toNat]? = some m := (same id reached).trans marked
  rw [getElem?_mark (inside_of_mark marked), getElem?_mark (inside_of_mark marked'),
    same other reached']
  by_cases here : other = id
  · rw [if_pos here, if_pos (congrArg f here)]
  · have apart : f other ≠ f id := fun equal => here (injective reached' reached equal)
    rw [if_neg here, if_neg apart]

theorem step_renamed (iso : g.Isomorphism g' root root' f) (v : Valid g root s)
    (same : s.Renamed g root f s') :
    Outcome.Renamed g root f (s.step g) (s'.step g') := by
  have injective := iso.bijective.injOn
  obtain ⟨marks, path, finished⟩ := s
  obtain ⟨marks', path', finished'⟩ := s'
  obtain ⟨sameMarks, samePath, sameFinished⟩ := same
  dsimp only at sameMarks samePath sameFinished
  subst samePath sameFinished
  match path with
  | [] =>
    simp only [step, List.map_nil, ← List.map_reverse]
    exact .complete
  | ⟨id, node, []⟩ :: below =>
    have marked := (v.active id).mpr List.mem_cons_self
    have reached := v.reached id (Or.inl List.mem_cons_self)
    refine .running ⟨?_, rfl, rfl⟩
    exact fun other reached' => marks_renamed injective sameMarks reached marked other reached'
  | ⟨id, node, (input, .literal value) :: rest⟩ :: below => exact .running ⟨sameMarks, rfl, rfl⟩
  | ⟨id, node, (input, .expr text) :: rest⟩ :: below => exact .running ⟨sameMarks, rfl, rfl⟩
  | ⟨id, node, (input, .output source) :: rest⟩ :: below =>
    have walked := v.frames _ List.mem_cons_self
    have reached : g.Reaches root source.node :=
      (v.reached id (Or.inl List.mem_cons_self)).reads walked.1 walked.reads
    have mark : marks'[(source.rename f).node.toNat]? = marks[source.node.toNat]? :=
      sameMarks source.node reached
    have fits : g'.checkOutput (node.rename f).name input.name input.type (source.rename f) =
        .ok () ↔ g.checkOutput node.name input.name input.type source = .ok () :=
      iso.checkOutput_iff reached node.name input.name input.type
    have held : g'.get? (source.rename f).node = (g.get? source.node).map (Node.rename f) :=
      iso.node source.node reached
    change Outcome.Renamed g root f _ (step g' ⟨marks', ⟨f id, node.rename f,
      (input, .output (source.rename f)) :: Pending.rename f rest⟩ ::
        below.map (Frame.rename f), finished.map (Node.renameEntry f)⟩)
    simp only [step, mark]
    cases known : marks[source.node.toNat]? with
    | none => exact .failed
    | some m =>
      cases m with
      | done =>
        cases fit : g.checkOutput node.name input.name input.type source with
        | ok _ =>
          simp only [fits.mpr fit]
          exact .running ⟨sameMarks, rfl, rfl⟩
        | error e =>
          cases fit' : g'.checkOutput (node.rename f).name input.name input.type
            (source.rename f) with
          | ok _ => exact absurd (fit.symm.trans (fits.mp fit')) (by simp)
          | error e' => exact .failed
      | inProgress => exact .failed
      | unvisited =>
        cases child : g.get? source.node with
        | none =>
          simp only [held, child, Option.map_none]
          exact .failed
        | some fed =>
          simp only [held, child, Option.map_some, Node.inputs_rename]
          refine .running ⟨?_, rfl, rfl⟩
          exact fun other reached' => marks_renamed injective sameMarks reached known other reached'

/-- Searches in step end alike. -/
theorem run_renamed (iso : g.Isomorphism g' root root' f) (v : Valid g root s)
    (same : s.Renamed g root f s') :
    (s'.run g').toOption = (s.run g).toOption.map (List.map (Node.renameEntry f)) := by
  fun_induction run g s generalizing s' with
  | case1 s order hs =>
    have outcome := step_renamed iso v same
    generalize hs' : s'.step g' = outcome' at outcome
    rw [hs] at outcome
    cases outcome
    rw [run_of_complete hs']
    rfl
  | case2 s error hs =>
    have outcome := step_renamed iso v same
    generalize hs' : s'.step g' = outcome' at outcome
    rw [hs] at outcome
    cases outcome
    rw [run_of_failed hs']
    rfl
  | case3 s next hs ih =>
    have outcome := step_renamed iso v same
    generalize hs' : s'.step g' = outcome' at outcome
    rw [hs] at outcome
    cases outcome with
    | running same' =>
      rw [run_of_running hs']
      exact ih (v.move (move_of_step hs)) same'

end Search

namespace Graph.Isomorphism

variable {g g' : Graph} {root root' : NodeId} {f : NodeId → NodeId}

/-- Isomorphic graphs are linearized in the same order, or neither is. -/
theorem linearize (iso : g.Isomorphism g' root root' f) :
    (g'.linearize root').toOption =
      (g.linearize root).toOption.map (List.map (Node.renameEntry f)) := by
  have issued := iso.issued root .root
  have node := iso.node root .root
  rw [iso.roots] at issued node
  unfold Graph.linearize
  rw [issued, node]
  split
  · cases held : g.get? root with
    | none => rfl
    | some start =>
      have blank (id : NodeId) (reached : g.Reaches root id) :
          (Array.replicate g'.size Mark.unvisited)[(f id).toNat]? =
            (Array.replicate g.size Mark.unvisited)[id.toNat]? := by
        have inside : (f id).toNat < g'.size ↔ id.toNat < g.size := by
          rw [← contains_iff, ← contains_iff, iso.issued id reached]
        simp only [Array.getElem?_replicate, inside]
      have unvisited : (Array.replicate g.size Mark.unvisited)[root.toNat]? = some .unvisited := by
        rw [Array.getElem?_replicate, if_pos (contains_iff.mp (contains_of_get? held))]
      refine Search.run_renamed iso (Search.valid_start held) ⟨?_, ?_, rfl⟩
      · rw [← iso.roots]
        exact fun id reached =>
          Search.marks_renamed iso.bijective.injOn blank .root unvisited id reached
      · simp [Search.start, Frame.rename, iso.roots, Node.inputs_rename]
  · rfl

end Graph.Isomorphism

end ParticleShading
