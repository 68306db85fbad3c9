import ParticleShading.Shader.Traversal
import Mathlib.Data.List.Chain
import Mathlib.Logic.Relation

/-!
# Moves of the search

`Search.Move` and `Search.Fault` state as rules what one move can do, and a run
is a chain of moves to its end. `Search.Valid` is kept by every move: it ties
the marks to the path and to the finished nodes, and says of every finished
node that what it reads was finished before it. Nothing here assumes that the
graph is acyclic or that its references are sound.
-/

namespace ParticleShading

theorem Graph.contains_iff {g : Graph} {id : NodeId} : g.contains id = true ↔ id.toNat < g.size :=
  Arena.contains_iff

theorem Graph.contains_of_get? {g : Graph} {id : NodeId} {node : Node}
    (h : g.get? id = some node) : g.contains id = true :=
  Arena.contains_of_get? h

theorem Graph.Reaches.reads {g : Graph} {root target : NodeId} {node : Node}
    {input : Input Definition} {source : OutputRef} (reached : g.Reaches root target)
    (h : g.get? target = some node) (reads : node.Reads input source) :
    g.Reaches root source.node :=
  reached.feed ⟨node, h, input, source.output, reads⟩

namespace Search

/-- What a move that goes on may do. -/
inductive Move (g : Graph) : Search → Search → Prop where
  | finish {marks id node below finished} :
    Move g ⟨marks, ⟨id, node, []⟩ :: below, finished⟩
      ⟨marks.setIfInBounds id.toNat .done, below, (id, node) :: finished⟩
  | skip {marks id node input binding rest below finished}
      (unfed : ∀ source, binding ≠ .output source) :
    Move g ⟨marks, ⟨id, node, (input, binding) :: rest⟩ :: below, finished⟩
      ⟨marks, ⟨id, node, rest⟩ :: below, finished⟩
  | pass {marks id node input source rest below finished}
      (done : marks[source.node.toNat]? = some .done)
      (fits : g.checkOutput node.name input.name input.type source = .ok ()) :
    Move g ⟨marks, ⟨id, node, (input, .output source) :: rest⟩ :: below, finished⟩
      ⟨marks, ⟨id, node, rest⟩ :: below, finished⟩
  | descend {marks id node input source rest below finished child}
      (fresh : marks[source.node.toNat]? = some .unvisited)
      (defined : g.get? source.node = some child) :
    Move g ⟨marks, ⟨id, node, (input, .output source) :: rest⟩ :: below, finished⟩
      ⟨marks.setIfInBounds source.node.toNat .inProgress,
        ⟨source.node, child, child.inputs⟩ :: ⟨id, node, (input, .output source) :: rest⟩ :: below,
        finished⟩

/-- What ends a search early. -/
inductive Fault (g : Graph) : Search → ShaderError → Prop where
  | unknown {marks id node input source rest below finished}
      (foreign : marks[source.node.toNat]? = none) :
    Fault g ⟨marks, ⟨id, node, (input, .output source) :: rest⟩ :: below, finished⟩
      (.graph (.unknownNode source.node))
  | rejected {marks id node input source rest below finished error}
      (done : marks[source.node.toNat]? = some .done)
      (misfit : g.checkOutput node.name input.name input.type source = .error error) :
    Fault g ⟨marks, ⟨id, node, (input, .output source) :: rest⟩ :: below, finished⟩ error
  | cycle {marks id node input source rest below finished}
      (active : marks[source.node.toNat]? = some .inProgress) :
    Fault g ⟨marks, ⟨id, node, (input, .output source) :: rest⟩ :: below, finished⟩
      (.graph (.cycle
        (cycleText (⟨id, node, (input, .output source) :: rest⟩ :: below) source.node)))
  | undefined {marks id node input source rest below finished}
      (fresh : marks[source.node.toNat]? = some .unvisited)
      (reserved : g.get? source.node = none) :
    Fault g ⟨marks, ⟨id, node, (input, .output source) :: rest⟩ :: below, finished⟩
      (.graph (.undefinedNode source.node))

variable {g : Graph} {root : NodeId} {s next : Search} {error : ShaderError}

theorem move_of_step (h : s.step g = .running next) : Move g s next := by
  obtain ⟨marks, path, finished⟩ := s
  match path with
  | [] => simp [step] at h
  | ⟨id, node, []⟩ :: below =>
    simp only [step, Outcome.running.injEq] at h
    exact h ▸ .finish
  | ⟨id, node, (input, .literal value) :: rest⟩ :: below =>
    simp only [step, Outcome.running.injEq] at h
    exact h ▸ .skip (by simp)
  | ⟨id, node, (input, .expr text) :: rest⟩ :: below =>
    simp only [step, Outcome.running.injEq] at h
    exact h ▸ .skip (by simp)
  | ⟨id, node, (input, .output source) :: rest⟩ :: below =>
    simp only [step] at h
    split at h
    · cases h
    · rename_i done
      split at h
      · rename_i fits
        cases h
        exact .pass done fits
      · cases h
    · cases h
    · rename_i fresh
      split at h
      · cases h
      · rename_i child defined
        cases h
        exact .descend fresh defined

theorem fault_of_step (h : s.step g = .failed error) : Fault g s error := by
  obtain ⟨marks, path, finished⟩ := s
  match path with
  | [] => simp [step] at h
  | ⟨id, node, []⟩ :: below => simp [step] at h
  | ⟨id, node, (input, .literal value) :: rest⟩ :: below => simp [step] at h
  | ⟨id, node, (input, .expr text) :: rest⟩ :: below => simp [step] at h
  | ⟨id, node, (input, .output source) :: rest⟩ :: below =>
    simp only [step] at h
    split at h
    · rename_i foreign
      cases h
      exact .unknown foreign
    · rename_i done
      split at h
      · cases h
      · rename_i misfit
        cases h
        exact .rejected done misfit
    · rename_i active
      cases h
      exact .cycle active
    · rename_i fresh
      split at h
      · rename_i reserved
        cases h
        exact .undefined fresh reserved
      · cases h

theorem complete_of_step {order : List (NodeId × Node)} (h : s.step g = .complete order) :
    s.path = [] ∧ order = s.finished.reverse := by
  unfold step at h
  split at h
  · rename_i empty
    cases h
    exact ⟨empty, rfl⟩
  · cases h
  · split at h
    · cases h
    · split at h <;> cases h
    · cases h
    · split at h <;> cases h
  · cases h

theorem run_of_complete {order : List (NodeId × Node)} (h : s.step g = .complete order) :
    s.run g = .ok order := by
  unfold run
  split <;> simp_all

theorem run_of_failed (h : s.step g = .failed error) :
    s.run g = .error error := by
  unfold run
  split <;> simp_all

theorem run_of_running (h : s.step g = .running next) : s.run g = next.run g := by
  rw [run]
  split <;> simp_all

/-- A successful run is a chain of moves that empties the path. -/
theorem moves_of_run_ok {order : List (NodeId × Node)} (h : s.run g = .ok order) :
    ∃ last, Relation.ReflTransGen (Move g) s last ∧ last.path = [] ∧
      order = last.finished.reverse := by
  fun_induction run g s with
  | case1 s complete hs =>
    cases h
    obtain ⟨empty, rfl⟩ := complete_of_step hs
    exact ⟨s, .refl, empty, rfl⟩
  | case2 => cases h
  | case3 s next hs ih =>
    obtain ⟨last, moves, empty, same⟩ := ih h
    exact ⟨last, .head (move_of_step hs) moves, empty, same⟩

/-- A failed run is a chain of moves up to a fault. -/
theorem moves_of_run_error (h : s.run g = .error error) :
    ∃ last, Relation.ReflTransGen (Move g) s last ∧ Fault g last error := by
  fun_induction run g s with
  | case1 => cases h
  | case2 s fault hs =>
    cases h
    exact ⟨s, .refl, fault_of_step hs⟩
  | case3 s next hs ih =>
    obtain ⟨last, moves, fault⟩ := ih h
    exact ⟨last, .head (move_of_step hs) moves, fault⟩

/-! ## The invariant of a run -/

/-- What a node reads at an input is a finished node, through an output that fits. -/
def Settled (g : Graph) (finished : List (NodeId × Node)) (node : Node)
    (input : Input Definition) (source : OutputRef) : Prop :=
  source.node ∈ finished.map (·.1) ∧
    g.checkOutput node.name input.name input.type source = .ok ()

/-- Finished nodes, the latest first: each is listed once and reads only nodes listed below it. -/
def Closed (g : Graph) : List (NodeId × Node) → Prop
  | [] => True
  | (id, node) :: older =>
    g.get? id = some node ∧ id ∉ older.map (·.1) ∧
      (∀ input source, node.Reads input source → Settled g older node input source) ∧
      Closed g older

/-- A frame holds the node of the graph, and the inputs already walked are settled. -/
def Walked (g : Graph) (finished : List (NodeId × Node)) (f : Frame) : Prop :=
  g.get? f.id = some f.node ∧ ∃ walked, f.node.inputs = walked ++ f.pending ∧
    ∀ input source, (input, .output source) ∈ walked → Settled g finished f.node input source

/-- The next edge of the parent leads to the child. -/
def Awaits (child parent : Frame) : Prop :=
  ∃ input output rest, parent.pending = (input, .output ⟨child.id, output⟩) :: rest

structure Valid (g : Graph) (root : NodeId) (s : Search) : Prop where
  size : s.marks.size = g.size
  active : ∀ id : NodeId, s.marks[id.toNat]? = some .inProgress ↔ id ∈ s.path.map (·.id)
  done : ∀ id : NodeId, s.marks[id.toNat]? = some .done ↔ id ∈ s.finished.map (·.1)
  frames : ∀ f ∈ s.path, Walked g s.finished f
  chain : s.path.IsChain Awaits
  distinct : (s.path.map (·.id)).Nodup
  closed : Closed g s.finished
  /-- The root lies at the bottom of the path until it is the last node finished. -/
  bottom : (s.path.getLast?.map (·.id)).or (s.finished.head?.map (·.1)) = some root
  reached : ∀ id, id ∈ s.path.map (·.id) ∨ id ∈ s.finished.map (·.1) → g.Reaches root id

theorem getElem?_mark {marks : Array Mark} {id other : NodeId} {m : Mark}
    (inside : id.toNat < marks.size) :
    (marks.setIfInBounds id.toNat m)[other.toNat]? =
      if other = id then some m else marks[other.toNat]? := by
  rw [Array.getElem?_setIfInBounds]
  by_cases h : other = id
  · subst h
    simp [inside]
  · have : id.toNat ≠ other.toNat := fun same => h (Handle.toNat_inj.mp same.symm)
    simp [h, this]

theorem inside_of_mark {marks : Array Mark} {id : NodeId} {m : Mark}
    (h : marks[id.toNat]? = some m) : id.toNat < marks.size :=
  (Array.getElem?_eq_some_iff.mp h).1

theorem Settled.cons {finished : List (NodeId × Node)} {node : Node} {input : Input Definition}
    {source : OutputRef} (h : Settled g finished node input source) (latest : NodeId × Node) :
    Settled g (latest :: finished) node input source :=
  ⟨List.mem_cons_of_mem _ h.1, h.2⟩

theorem Walked.cons {finished : List (NodeId × Node)} {f : Frame} (h : Walked g finished f)
    (latest : NodeId × Node) : Walked g (latest :: finished) f := by
  obtain ⟨held, walked, split, settled⟩ := h
  exact ⟨held, walked, split, fun input source mem => (settled input source mem).cons latest⟩

/-- Walking on past an edge that is settled, or past an input that is not fed. -/
theorem Walked.advance {finished : List (NodeId × Node)} {id : NodeId} {node : Node}
    {input : Input Definition} {binding : Binding} {rest : List (Input Definition × Binding)}
    (h : Walked g finished ⟨id, node, (input, binding) :: rest⟩)
    (settled : ∀ source, binding = .output source → Settled g finished node input source) :
    Walked g finished ⟨id, node, rest⟩ := by
  obtain ⟨held, walked, split, old⟩ := h
  refine ⟨held, walked ++ [(input, binding)], by simpa using split, ?_⟩
  intro other source mem
  rcases List.mem_append.mp mem with mem | mem
  · exact old other source mem
  · simp only [List.mem_singleton, Prod.mk.injEq] at mem
    obtain ⟨rfl, same⟩ := mem
    exact settled source same.symm

/-- The pending inputs of a frame are inputs of its node. -/
theorem Walked.reads {finished : List (NodeId × Node)} {id : NodeId} {node : Node}
    {input : Input Definition} {source : OutputRef} {rest : List (Input Definition × Binding)}
    (h : Walked g finished ⟨id, node, (input, .output source) :: rest⟩) :
    node.Reads input source := by
  obtain ⟨_, walked, split, _⟩ := h
  change node.inputs = _ at split
  rw [Node.Reads, split]
  exact List.mem_append.mpr (Or.inr List.mem_cons_self)

/-- Only the id of the deepest frame matters to the frame below it. -/
theorem chain_replace {f f' : Frame} {below : List Frame}
    (h : (f :: below).IsChain Awaits) (same : f'.id = f.id) : (f' :: below).IsChain Awaits := by
  cases below with
  | nil => exact .singleton _
  | cons parent below =>
    obtain ⟨awaited, chain⟩ := List.isChain_cons_cons.mp h
    refine List.isChain_cons_cons.mpr ⟨?_, chain⟩
    rw [Awaits, same]
    exact awaited

theorem valid_start {node : Node} (held : g.get? root = some node) :
    Valid g root (start g root node) := by
  have inside : root.toNat < (Array.replicate g.size Mark.unvisited).size := by
    rw [Array.size_replicate]
    exact Graph.contains_iff.mp (Graph.contains_of_get? held)
  have blank : ∀ (id : NodeId) (m : Mark), m ≠ .unvisited →
      (Array.replicate g.size Mark.unvisited)[id.toNat]? ≠ some m := by
    intro id m hm h
    rw [Array.getElem?_replicate] at h
    split at h <;> simp_all
  refine ⟨by simp [start], ?_, ?_, ?_, .singleton _, by simp [start], trivial, by simp [start], ?_⟩
  · intro id
    simp only [start, getElem?_mark inside, List.map_cons, List.map_nil, List.mem_singleton]
    by_cases h : id = root <;> simp [h, blank]
  · intro id
    simp only [start, getElem?_mark inside, List.map_nil, List.not_mem_nil, iff_false]
    by_cases h : id = root <;> simp [h, blank]
  · intro f hf
    obtain rfl := List.mem_singleton.mp hf
    exact ⟨held, [], rfl, by simp⟩
  · intro id hid
    have : id = root := by simpa [start] using hid
    exact this ▸ .root

section Moves

variable {marks : Array Mark} {id : NodeId} {node child : Node} {input : Input Definition}
variable {binding : Binding} {source : OutputRef} {rest : List (Input Definition × Binding)}
variable {below : List Frame} {finished : List (NodeId × Node)}

theorem Valid.not_finished {f : Frame} (v : Valid g root ⟨marks, f :: below, finished⟩) :
    f.id ∉ finished.map (·.1) := by
  intro mem
  have active := (v.active f.id).mpr List.mem_cons_self
  have done := (v.done f.id).mpr mem
  exact absurd (active.symm.trans done) (by simp)

theorem Valid.finish (v : Valid g root ⟨marks, ⟨id, node, []⟩ :: below, finished⟩) :
    Valid g root ⟨marks.setIfInBounds id.toNat .done, below, (id, node) :: finished⟩ := by
  have inside := inside_of_mark ((v.active id).mpr List.mem_cons_self)
  have unlisted : id ∉ finished.map (·.1) := v.not_finished
  have distinct : id ∉ below.map (·.id) ∧ (below.map (·.id)).Nodup :=
    List.nodup_cons.mp v.distinct
  obtain ⟨held, walked, split, settled⟩ := v.frames _ List.mem_cons_self
  have all : node.inputs = walked := by simpa using split
  refine ⟨(Array.size_setIfInBounds ..).trans v.size, ?_, ?_, ?_, v.chain.tail, distinct.2,
    ⟨held, unlisted, fun input source reads => settled input source (all ▸ reads), v.closed⟩,
    ?_, ?_⟩
  · intro other
    rw [getElem?_mark inside]
    by_cases h : other = id
    · subst h
      simp [distinct.1]
    · simpa [h] using v.active other
  · intro other
    rw [getElem?_mark inside]
    by_cases h : other = id
    · subst h
      simp
    · simpa [h] using v.done other
  · intro f hf
    exact (v.frames f (List.mem_cons_of_mem _ hf)).cons _
  · have bottom := v.bottom
    cases below with
    | nil => simpa using bottom
    | cons parent below =>
      rw [List.getLast?_cons_cons] at bottom
      cases hlast : (parent :: below).getLast? with
      | none => simp at hlast
      | some f => simpa [hlast] using bottom
  · rintro other (mem | mem)
    · exact v.reached other (Or.inl (List.mem_cons_of_mem _ mem))
    · rcases List.mem_cons.mp mem with rfl | mem
      · exact v.reached _ (Or.inl List.mem_cons_self)
      · exact v.reached other (Or.inr mem)

theorem Valid.advance
    (v : Valid g root ⟨marks, ⟨id, node, (input, binding) :: rest⟩ :: below, finished⟩)
    (settled : ∀ source, binding = .output source → Settled g finished node input source) :
    Valid g root ⟨marks, ⟨id, node, rest⟩ :: below, finished⟩ := by
  refine ⟨v.size, v.active, v.done, ?_, chain_replace v.chain rfl, v.distinct, v.closed, ?_,
    v.reached⟩
  · intro f hf
    rcases List.mem_cons.mp hf with rfl | hf
    · exact (v.frames _ List.mem_cons_self).advance settled
    · exact v.frames f (List.mem_cons_of_mem _ hf)
  · have bottom := v.bottom
    cases below with
    | nil => exact bottom
    | cons parent below => simpa only [List.getLast?_cons_cons] using bottom

theorem Valid.descend
    (v : Valid g root ⟨marks, ⟨id, node, (input, .output source) :: rest⟩ :: below, finished⟩)
    (fresh : marks[source.node.toNat]? = some .unvisited)
    (defined : g.get? source.node = some child) :
    Valid g root ⟨marks.setIfInBounds source.node.toNat .inProgress,
      ⟨source.node, child, child.inputs⟩ :: ⟨id, node, (input, .output source) :: rest⟩ :: below,
      finished⟩ := by
  have inside := inside_of_mark fresh
  have off : source.node ∉ ((⟨id, node, (input, .output source) :: rest⟩ :: below).map (·.id)) :=
    fun mem => absurd (((v.active _).mpr mem).symm.trans fresh) (by simp)
  have unlisted : source.node ∉ finished.map (·.1) :=
    fun mem => absurd (((v.done _).mpr mem).symm.trans fresh) (by simp)
  have frame := v.frames _ List.mem_cons_self
  refine ⟨(Array.size_setIfInBounds ..).trans v.size, ?_, ?_, ?_,
    List.isChain_cons_cons.mpr ⟨⟨input, source.output, rest, rfl⟩, v.chain⟩,
    List.nodup_cons.mpr ⟨off, v.distinct⟩, v.closed, ?_, ?_⟩
  · intro other
    rw [getElem?_mark inside, List.map_cons, List.mem_cons]
    by_cases h : other = source.node
    · simp [h]
    · simpa [h] using v.active other
  · intro other
    rw [getElem?_mark inside]
    by_cases h : other = source.node
    · subst h
      simpa using unlisted
    · simpa [h] using v.done other
  · intro f hf
    rcases List.mem_cons.mp hf with rfl | hf
    · exact ⟨defined, [], rfl, by simp⟩
    · exact v.frames f hf
  · simpa only [List.getLast?_cons_cons] using v.bottom
  · rintro other (mem | mem)
    · rcases List.mem_cons.mp mem with rfl | mem
      · exact (v.reached id (Or.inl List.mem_cons_self)).reads frame.1 frame.reads
      · exact v.reached other (Or.inl mem)
    · exact v.reached other (Or.inr mem)

end Moves

theorem Valid.move (v : Valid g root s) (h : Move g s next) : Valid g root next := by
  cases h with
  | finish => exact v.finish
  | skip unfed => exact v.advance fun source same => absurd same (unfed source)
  | pass done fits =>
    refine v.advance fun source same => ?_
    cases same
    exact ⟨(v.done _).mp done, fits⟩
  | descend fresh defined => exact v.descend fresh defined

theorem Valid.moves (v : Valid g root s) (h : Relation.ReflTransGen (Move g) s next) :
    Valid g root next := by
  induction h with
  | refl => exact v
  | tail _ last ih => exact ih.move last

end Search

end ParticleShading
