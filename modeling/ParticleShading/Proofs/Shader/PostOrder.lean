import ParticleShading.Proofs.Shader.Acceptance

/-!
# Post-order by recursion

`Graph.postOrder` is the plain depth-first recursion: it has no marks and no
path of its own. A node is in progress while it is on the chain of calls, and
done once it is in the list of nodes whose visits have ended. A search does the
same without recursion, so its path has to stand for the chain of calls, and
from an edge down to a source it has to come back to that edge. `Search.Brings`
says where a search comes to after the moves that one call stands for. The
search and the recursion agree on the order and on the first defect they meet.
-/

namespace ParticleShading

namespace Graph

/-- The calls from a node on in words, that node again at the end. -/
def cyclePath (chain : List (NodeId × Node)) (id : NodeId) : List String :=
  let loop := chain.dropWhile (·.1 ≠ id)
  (loop ++ loop.head?.toList).map fun entry => Search.describe entry.1 entry.2

/-- The number of slots that are not on the chain of calls. -/
def offChain (g : Graph) (chain : List (NodeId × Node)) : Nat :=
  (List.range g.size).countP fun slot => slot ∉ chain.map (·.1.toNat)

theorem offChain_lt {g : Graph} {chain : List (NodeId × Node)} {id : NodeId} (node : Node)
    (issued : g.contains id = true) (off : id ∉ chain.map (·.1)) :
    g.offChain (chain ++ [(id, node)]) < g.offChain chain := by
  have free : id.toNat ∉ chain.map (·.1.toNat) := by
    intro mem
    obtain ⟨entry, listed, same⟩ := List.mem_map.mp mem
    exact off (Handle.toNat_inj.mp same ▸ List.mem_map_of_mem listed)
  obtain ⟨before, after, split⟩ :=
    List.append_of_mem (List.mem_range.mpr (contains_iff.mp issued))
  have fewer (slots : List Nat) :
      (slots.countP fun slot => slot ∉ (chain ++ [(id, node)]).map (·.1.toNat)) ≤
        slots.countP fun slot => slot ∉ chain.map (·.1.toNat) := by
    apply List.countP_mono_left
    intro slot _ off
    simp only [List.map_append, List.mem_append, not_or, decide_eq_true_eq] at off ⊢
    exact off.1
  rw [offChain, offChain, split, List.countP_append, List.countP_append, List.countP_cons,
    List.countP_cons]
  have before_le := fewer before
  have after_le := fewer after
  simp only [free, not_false_eq_true, decide_true, if_true]
  simp only [List.map_append, List.map_cons, List.map_nil, List.mem_append, List.mem_singleton,
    or_true, not_true_eq_false, decide_false, Bool.false_eq_true, if_false]
    at before_le after_le ⊢
  omega

mutual

/-- Visits a node. It is in progress until its sources are visited, and then it is appended. -/
def visit (g : Graph) (chain : List (NodeId × Node)) (id : NodeId) (node : Node)
    (done : List (NodeId × Node)) : Except ShaderError (List (NodeId × Node)) := do
  let done ← visitSources g (chain ++ [(id, node)]) node node.inputs done
  return done ++ [(id, node)]
termination_by (g.offChain (chain ++ [(id, node)]), node.inputs.length + 1)
decreasing_by exact Prod.Lex.right _ (Nat.lt_succ_self _)

/-- Walks inputs of a node in their order. The type of an edge is checked once its source is
done. -/
def visitSources (g : Graph) (chain : List (NodeId × Node)) (reader : Node) :
    List (Input Definition × Binding) → List (NodeId × Node) →
      Except ShaderError (List (NodeId × Node))
  | [], done => .ok done
  | (input, .output source) :: rest, done =>
    if _foreign : g.contains source.node = false then .error (.graph (.unknownNode source.node))
    else if _active : source.node ∈ chain.map (·.1) then
      .error (.graph (.cycle (cyclePath chain source.node)))
    else
      match g.get? source.node with
      | none => .error (.graph (.undefinedNode source.node))
      | some child => do
        let done ← (if source.node ∈ done.map (·.1) then .ok done
          else visit g chain source.node child done)
        g.checkOutput reader.name input.name input.type source
        visitSources g chain reader rest done
  | _ :: rest, done => visitSources g chain reader rest done
termination_by pending => (g.offChain chain, pending.length)
decreasing_by
  · exact Prod.Lex.left _ _ (offChain_lt _ (by simpa using _foreign) _active)
  · exact Prod.Lex.right _ (Nat.lt_succ_self _)
  · exact Prod.Lex.right _ (Nat.lt_succ_self _)

end

/-- The nodes that a root reaches, in the order in which their visits end. -/
def postOrder (g : Graph) (root : NodeId) : Except ShaderError (List (NodeId × Node)) :=
  if g.contains root then
    match g.get? root with
    | none => .error (.graph (.undefinedNode root))
    | some node => g.visit [] root node []
  else .error (.graph (.unknownNode root))

end Graph

/-! ## The path as a chain of calls -/

namespace Search

variable {g : Graph} {root id : NodeId} {node child : Node} {input : Input Definition}
variable {binding : Binding} {source : OutputRef} {rest : List (Input Definition × Binding)}
variable {marks : Array Mark} {below path : List Frame} {finished : List (NodeId × Node)}
variable {s s' : Search} {result : Except ShaderError (List (NodeId × Node))}

/-- The calls that a path stands for, the first one first. -/
def calls (path : List Frame) : List (NodeId × Node) := (path.map fun f => (f.id, f.node)).reverse

theorem mem_calls : id ∈ (calls path).map (·.1) ↔ id ∈ path.map (·.id) := by
  simp [calls]

theorem cyclePath_calls (distinct : (path.map (·.id)).Nodup) (mem : id ∈ path.map (·.id)) :
    Graph.cyclePath (calls path) id = cycleText path id := by
  obtain ⟨front, f, rest, rfl, rfl, cycle⟩ := exists_cycleTo mem
  have apart : ∀ entry ∈ calls rest, decide (entry.1 ≠ f.id) = true := by
    intro entry listed
    rw [decide_eq_true_eq]
    intro same
    rw [List.map_append, List.map_cons, List.nodup_append] at distinct
    have below := (List.nodup_cons.mp distinct.2.1).1
    exact below (same ▸ mem_calls.mp (List.mem_map_of_mem listed))
  have split : calls (front ++ f :: rest) = calls rest ++ (f.id, f.node) :: calls front := by
    simp [calls]
  rw [Graph.cyclePath, split, List.dropWhile_append_of_pos apart, cycleText, cycle]
  simp [calls]

/-- A search comes to what a call gives: to its error, or to a state that has the path and the
nodes that are done after the call. -/
inductive Brings (g : Graph) (root : NodeId) (s : Search) (path : List Frame) :
    Except ShaderError (List (NodeId × Node)) → Prop where
  | fails {error : ShaderError} (ends : s.run g = .error error) :
    Brings g root s path (.error error)
  | passes {marks : Array Mark} {done : List (NodeId × Node)}
      (valid : Valid g root ⟨marks, path, done.reverse⟩)
      (ends : s.run g = run g ⟨marks, path, done.reverse⟩) :
    Brings g root s path (.ok done)

theorem Brings.of_run (same : s.run g = s'.run g) (brings : Brings g root s' path result) :
    Brings g root s path result := by
  cases brings with
  | fails ends => exact .fails (same.trans ends)
  | passes valid ends => exact .passes valid (same.trans ends)

/-- Where the path ends on a node whose sources are done, the node itself comes next. -/
theorem Brings.finish (h : Brings g root s (⟨id, node, []⟩ :: path) result) :
    Brings g root s path (result.map (· ++ [(id, node)])) := by
  cases h with
  | fails ends => exact .fails ends
  | passes valid ends =>
    have next := valid.finish
    rw [← List.reverse_concat] at next
    refine .passes next (ends.trans ((run_of_running rfl).trans ?_))
    rw [← List.reverse_concat]

/-- A search that has descended to a node follows the visit of the node. -/
def FollowsVisit (g : Graph) (root : NodeId) (chain : List (NodeId × Node)) (id : NodeId)
    (node : Node) (done : List (NodeId × Node)) : Prop :=
  ∀ marks path, chain = calls path →
    Valid g root ⟨marks, ⟨id, node, node.inputs⟩ :: path, done.reverse⟩ →
      Brings g root ⟨marks, ⟨id, node, node.inputs⟩ :: path, done.reverse⟩ path
        (g.visit chain id node done)

/-- A search that has inputs of a node before it follows the calls for these inputs. -/
def FollowsSources (g : Graph) (root : NodeId) (chain : List (NodeId × Node)) (reader : Node)
    (pending : List (Input Definition × Binding)) (done : List (NodeId × Node)) : Prop :=
  ∀ marks id below, chain = calls (⟨id, reader, pending⟩ :: below) →
    Valid g root ⟨marks, ⟨id, reader, pending⟩ :: below, done.reverse⟩ →
      Brings g root ⟨marks, ⟨id, reader, pending⟩ :: below, done.reverse⟩
        (⟨id, reader, []⟩ :: below) (g.visitSources chain reader pending done)

section Cases

variable {chain done : List (NodeId × Node)} {reader : Node}

theorem FollowsSources.visit
    (follows : FollowsSources g root (chain ++ [(id, node)]) node node.inputs done) :
    FollowsVisit g root chain id node done := by
  intro marks path called v
  have brings := (follows marks id path (by simp [calls, called]) v).finish
  rw [Graph.visit]
  exact brings

theorem followsSources_nil : FollowsSources g root chain reader [] done := by
  intro marks id below _ v
  rw [Graph.visitSources]
  exact .passes v rfl

theorem followsSources_foreign (foreign : g.contains source.node = false) :
    FollowsSources g root chain reader ((input, .output source) :: rest) done := by
  intro marks id below _ v
  have outside : marks[source.node.toNat]? = none := by
    rw [Array.getElem?_eq_none_iff, v.size]
    exact Nat.le_of_not_lt (of_decide_eq_false foreign)
  rw [Graph.visitSources, dif_pos foreign]
  exact .fails (run_of_failed (by simp [step, outside]))

theorem followsSources_active (issued : ¬ g.contains source.node = false)
    (active : source.node ∈ chain.map (·.1)) :
    FollowsSources g root chain reader ((input, .output source) :: rest) done := by
  intro marks id below called v
  rw [Graph.visitSources, dif_neg issued, dif_pos active]
  subst called
  have marked := (v.active source.node).mpr (mem_calls.mp active)
  rw [cyclePath_calls v.distinct (mem_calls.mp active)]
  exact .fails (run_of_failed (by simp only [step, marked]))

/-- An issued node that is neither in progress nor done is unvisited. -/
theorem Valid.unvisited (v : Valid g root ⟨marks, path, done.reverse⟩)
    (issued : ¬ g.contains id = false) (inactive : id ∉ (calls path).map (·.1))
    (fresh : id ∉ done.map (·.1)) : marks[id.toNat]? = some .unvisited := by
  have inside : id.toNat < marks.size := by
    rw [v.size]
    exact Graph.contains_iff.mp (by simpa using issued)
  cases marked : marks[id.toNat] with
  | unvisited => rw [Array.getElem?_eq_getElem inside, marked]
  | inProgress =>
    have active := (v.active id).mp (by rw [Array.getElem?_eq_getElem inside, marked])
    exact absurd (mem_calls.mpr active) inactive
  | done =>
    have listed := (v.done id).mp (by rw [Array.getElem?_eq_getElem inside, marked])
    rw [List.map_reverse, List.mem_reverse] at listed
    exact absurd listed fresh

theorem followsSources_reserved (issued : ¬ g.contains source.node = false)
    (inactive : source.node ∉ chain.map (·.1)) (reserved : g.get? source.node = none) :
    FollowsSources g root chain reader ((input, .output source) :: rest) done := by
  intro marks id below called v
  rw [Graph.visitSources, dif_neg issued, dif_neg inactive, reserved]
  have fresh : source.node ∉ done.map (·.1) := by
    intro mem
    obtain ⟨⟨_, fed⟩, listed, rfl⟩ := List.mem_map.mp mem
    have held := (v.closed.of_mem (List.mem_reverse.mpr listed)).1
    exact absurd (reserved.symm.trans held) (by simp)
  have marked := v.unvisited issued (called ▸ inactive) fresh
  exact .fails (run_of_failed (by simp only [step, marked, reserved]))

/-- Once the source is done, the search looks at the edge as the calls do, and both go on. -/
theorem FollowsSources.pass (later : FollowsSources g root chain reader rest done)
    (called : chain = calls (⟨id, reader, (input, .output source) :: rest⟩ :: below))
    (v : Valid g root
      ⟨marks, ⟨id, reader, (input, .output source) :: rest⟩ :: below, done.reverse⟩)
    (mem : source.node ∈ done.map (·.1)) :
    Brings g root ⟨marks, ⟨id, reader, (input, .output source) :: rest⟩ :: below, done.reverse⟩
      (⟨id, reader, []⟩ :: below) (do
        g.checkOutput reader.name input.name input.type source
        g.visitSources chain reader rest done) := by
  have listed : source.node ∈ done.reverse.map (·.1) := by
    rw [List.map_reverse, List.mem_reverse]
    exact mem
  have marked := (v.done source.node).mpr listed
  cases fits : g.checkOutput reader.name input.name input.type source with
  | error e => exact .fails (run_of_failed (by simp only [step, marked, fits]))
  | ok _ =>
    have next := v.move (.pass marked fits)
    have passes := later marks id below called next
    exact passes.of_run (run_of_running (by simp only [step, marked, fits]))

theorem followsSources_source (issued : ¬ g.contains source.node = false)
    (inactive : source.node ∉ chain.map (·.1)) (held : g.get? source.node = some child)
    (visited : FollowsVisit g root chain source.node child done)
    (later : ∀ done, FollowsSources g root chain reader rest done) :
    FollowsSources g root chain reader ((input, .output source) :: rest) done := by
  intro marks id below called v
  rw [Graph.visitSources, dif_neg issued, dif_neg inactive, held]
  dsimp only
  by_cases mem : source.node ∈ done.map (·.1)
  · rw [if_pos mem]
    exact (later done).pass called v mem
  · rw [if_neg mem]
    have fresh := v.unvisited issued (called ▸ inactive) mem
    have brings := visited _ _ called (v.descend fresh held)
    apply Brings.of_run (run_of_running (by simp only [step, fresh, held]; rfl))
    generalize visit : g.visit chain source.node child done = result at brings
    cases brings with
    | fails ends => exact .fails ends
    | passes valid ends =>
      -- the search is back at the edge that led down, and the source is the latest node done
      obtain ⟨below, _, same⟩ := bind_eq_ok_iff.mp (Graph.visit.eq_1 .. ▸ visit)
      cases same
      exact ((later _).pass called valid (by simp)).of_run ends

theorem followsSources_unfed {head : Input Definition × Binding}
    (unfed : ∀ input source, head = (input, .output source) → False)
    (later : FollowsSources g root chain reader rest done) :
    FollowsSources g root chain reader (head :: rest) done := by
  intro marks id below called v
  rw [Graph.visitSources]
  · obtain ⟨input, binding⟩ := head
    have bare : ∀ source, binding ≠ .output source := by
      rintro source rfl
      exact unfed input source rfl
    have passes := later marks id below called (v.move (.skip bare))
    apply passes.of_run
    cases binding with
    | literal value => exact run_of_running rfl
    | expr text => exact run_of_running rfl
    | output source => exact absurd rfl (bare source)
  · exact unfed

end Cases

/-- By induction on the calls; the path and the marks of the search are whatever they are when
its path stands for the chain of calls. -/
theorem follows (g : Graph) (root : NodeId) :
    (∀ chain id node done, FollowsVisit g root chain id node done) ∧
      ∀ chain reader pending done, FollowsSources g root chain reader pending done := by
  apply Graph.visit.mutual_induct g (FollowsVisit g root) (FollowsSources g root)
  case case1 => exact fun _ _ _ _ follows => follows.visit
  case case2 => exact fun _ _ _ => followsSources_nil
  case case3 => exact fun _ _ _ _ _ _ foreign => followsSources_foreign foreign
  case case4 => exact fun _ _ _ _ _ _ issued active => followsSources_active issued active
  case case5 =>
    exact fun _ _ _ _ _ _ issued inactive reserved =>
      followsSources_reserved issued inactive reserved
  case case6 =>
    exact fun _ _ _ _ _ _ issued inactive _ held visited later =>
      followsSources_source issued inactive held visited later
  case case7 => exact fun _ _ _ _ _ unfed later => followsSources_unfed unfed later

end Search

/-- The search gives what the recursion gives, the same order and the same error. -/
theorem Graph.linearize_eq_postOrder (g : Graph) (root : NodeId) :
    g.linearize root = g.postOrder root := by
  rw [linearize, postOrder]
  split
  · cases held : g.get? root with
    | none => rfl
    | some node =>
      have brings := (Search.follows g root).1 [] root node [] _ [] rfl (Search.valid_start held)
      dsimp only
      generalize g.visit [] root node [] = result at brings
      cases brings with
      | fails ends => exact ends
      | passes valid ends =>
        refine ends.trans (Search.run_of_complete ?_)
        rw [Search.step, List.reverse_reverse]
  · rfl

end ParticleShading
