import ParticleShading.Proofs.Shader.Stages

/-!
# File scope

What stands before `main`. Every output of every node has a global, and a
varying if its node varies; no two of these names are the same. Headers are
compared as they were given and written without their blank end, so each is
written once as long as no two of them differ in blank ends only.
-/

namespace ParticleShading

/-! ## First occurrences -/

section FirstOccurrences

variable {α β : Type} [BEq α] [LawfulBEq α] [BEq β] [LawfulBEq β]

/-- A last element counts if it did not occur before. -/
theorem eraseDups_concat (l : List α) (a : α) :
    (l ++ [a]).eraseDups = if a ∈ l then l.eraseDups else l.eraseDups ++ [a] := by
  rw [List.eraseDups_append]
  by_cases mem : a ∈ l
  · simp [List.removeAll, mem]
  · simp [List.removeAll, mem, List.eraseDups_cons]

theorem nodup_eraseDups (l : List α) : l.eraseDups.Nodup := by
  induction l using List.reverseRecOn with
  | nil => exact List.nodup_nil
  | append_singleton l a ih =>
    rw [eraseDups_concat]
    split
    · exact ih
    · rename_i fresh
      rw [← List.concat_eq_append]
      exact ih.concat (mt List.mem_eraseDups.mp fresh)

/-- What has different images occurs first where its image does. -/
theorem eraseDups_map {f : α → β} {l : List α} (apart : ∀ a ∈ l, ∀ b ∈ l, f a = f b → a = b) :
    (l.map f).eraseDups = l.eraseDups.map f := by
  induction l using List.reverseRecOn with
  | nil => rfl
  | append_singleton l a ih =>
    have within : ∀ b ∈ l, b ∈ l ++ [a] := fun b mem => List.mem_append_left _ mem
    have last : a ∈ l ++ [a] := by simp
    have seen : f a ∈ l.map f ↔ a ∈ l := by
      rw [List.mem_map]
      constructor
      · rintro ⟨b, mem, same⟩
        exact apart b (within b mem) a last same ▸ mem
      · exact fun mem => ⟨a, mem, rfl⟩
    rw [List.map_append, List.map_singleton, eraseDups_concat, eraseDups_concat,
      ih fun b mem c mem' => apart b (within b mem) c (within c mem')]
    by_cases mem : a ∈ l
    · rw [if_pos mem, if_pos (seen.mpr mem)]
    · rw [if_neg mem, if_neg (mt seen.mp mem), List.map_append, List.map_singleton]

end FirstOccurrences

/-! ## Headers -/

namespace Program

/-- The headers of the nodes in program order, as they were given. -/
def headerTexts (p : Program) (stage : Stage) : List String :=
  p.nodes.filterMap fun (_, node) => (node.definition.stage stage).header

/-- Different headers are written differently. -/
def HeadersApart (p : Program) (stage : Stage) : Prop :=
  ∀ s ∈ p.headerTexts stage, ∀ t ∈ p.headerTexts stage,
    Source.headerText s = Source.headerText t → s = t

instance (p : Program) (stage : Stage) : Decidable (p.HeadersApart stage) :=
  inferInstanceAs (Decidable (∀ s ∈ p.headerTexts stage, ∀ t ∈ p.headerTexts stage,
    Source.headerText s = Source.headerText t → s = t))

theorem headers_eq_eraseDups (p : Program) (stage : Stage) :
    p.headers stage = (p.headerTexts stage).eraseDups := by
  suffices kept : ∀ texts : List String,
      texts.foldl (fun seen header => if seen.contains header then seen else seen ++ [header]) [] =
        texts.eraseDups from
    kept (p.headerTexts stage)
  intro texts
  induction texts using List.reverseRecOn with
  | nil => rfl
  | append_singleton texts header ih =>
    rw [List.foldl_append, ih, eraseDups_concat, List.foldl_cons, List.foldl_nil]
    simp only [List.contains_iff_mem, List.mem_eraseDups]

end Program

namespace Source

/-- The header section, header by header. -/
def headerChunks (s : Source) : List String := s.headers.map headerText

/-- The header section stands behind the declarations of uniforms and varyings. -/
theorem text_eq (s : Source) : ∃ later, s.text =
    String.join (s.uniforms.map (Declared.text "uniform ")) ++
      String.join (s.varyings.map (Declared.text "varying ")) ++
      String.join s.headerChunks ++ later := by
  simp only [text, headerChunks, String.append_assoc]
  exact ⟨_, rfl⟩

end Source

namespace Program

variable {p : Program} {stage : Stage} {config : CompilerConfig} {shader : CompiledShader}

theorem headerChunks_of_compile (h : p.compile config = .ok shader) (stage : Stage) :
    (shader.source stage).headerChunks =
      (p.headerTexts stage).eraseDups.map Source.headerText := by
  obtain ⟨uniforms, lines, _, source⟩ := source_of_compile h stage
  rw [Source.headerChunks, source, ← headers_eq_eraseDups]
  rfl

/-- Each header is written once exactly if no two of them are written alike. -/
theorem nodup_headerChunks_iff :
    ((p.headerTexts stage).eraseDups.map Source.headerText).Nodup ↔ p.HeadersApart stage := by
  rw [List.nodup_map_iff_inj_on (nodup_eraseDups _)]
  simp only [List.mem_eraseDups]
  rfl

end Program

/-- The header section of either stage has, without their blank ends, the headers of the nodes that
the root reaches, in order of first occurrence as they were given. So every header is there, and
each is there once exactly if no two of them differ in their blank ends only; then the order is
that of first occurrence as they are written, too. -/
theorem Graph.headers_once_iff {g : Graph} {config : CompilerConfig} {root : NodeId}
    {shader : CompiledShader} (h : g.compile config root = .ok shader) (stage : Stage) :
    ∃ nodes, g.linearize root = .ok nodes ∧
      (∃ later, (shader.source stage).text =
        String.join ((shader.source stage).uniforms.map (Declared.text "uniform ")) ++
          String.join ((shader.source stage).varyings.map (Declared.text "varying ")) ++
          String.join (shader.source stage).headerChunks ++ later) ∧
      (shader.source stage).headerChunks =
        ((Program.mk nodes).headerTexts stage).eraseDups.map Source.headerText ∧
      (∀ id node header, g.Reaches root id → g.get? id = some node →
        (node.definition.stage stage).header = some header →
          Source.headerText header ∈ (shader.source stage).headerChunks) ∧
      ((shader.source stage).headerChunks.Nodup ↔ (Program.mk nodes).HeadersApart stage) ∧
      ((Program.mk nodes).HeadersApart stage → (shader.source stage).headerChunks =
        (((Program.mk nodes).headerTexts stage).map Source.headerText).eraseDups) := by
  obtain ⟨nodes, linearized, compiled⟩ := compile_eq_ok h
  have order := dependencyOrder_of_linearize linearized
  have chunks := Program.headerChunks_of_compile compiled stage
  refine ⟨nodes, linearized, Source.text_eq _, chunks, ?_, ?_, ?_⟩
  · intro id node header reached held given
    obtain ⟨k, other, at_k⟩ := order.exists_position reached
    obtain rfl : other = node := Option.some.inj ((order.held_at at_k).symm.trans held)
    have listed : header ∈ (Program.mk nodes).headerTexts stage :=
      List.mem_filterMap.mpr ⟨(id, other), List.mem_of_getElem? at_k, given⟩
    rw [chunks]
    exact List.mem_map_of_mem (List.mem_eraseDups.mpr listed)
  · rw [chunks]
    exact Program.nodup_headerChunks_iff
  · intro apart
    rw [chunks, eraseDups_map apart]

/-- A node that halves its input by a function of its header. -/
def Definition.halving (header : String) : Definition :=
  { name := "Halving"
    inputs := [Library.optional "a" .float (.float 0)]
    outputs := Library.main .float "halve(in_a)"
    vertex := { header := some header } }

def Definition.halveHeader : String := "float halve(float x) \x7b return x * 0.5; \x7d"

/-- Three nodes in a row that halve what they read, the last one with a header of its own. -/
def Graph.halvings (first last : String) : Graph :=
  ⟨⟨#[some ⟨.halving first, [.literal (.float 1)]⟩, some ⟨.halving first, [.node ⟨0⟩]⟩,
    some ⟨.halving last, [.node ⟨1⟩]⟩]⟩⟩

section Halvings

variable (first last : String)

theorem Graph.linearize_halvings : (halvings first last).linearize ⟨2⟩ = .ok
    [(⟨0⟩, ⟨.halving first, [.literal (.float 1)]⟩), (⟨1⟩, ⟨.halving first, [.node ⟨0⟩]⟩),
      (⟨2⟩, ⟨.halving last, [.node ⟨1⟩]⟩)] := by cbv

theorem Graph.compile_halvings :
    ∃ shader, (halvings first last).compile ⟨[], true⟩ ⟨2⟩ = .ok shader := by
  have table : ((halvings first last).compile ⟨[], true⟩ ⟨2⟩).toOption.map (·.uniforms) =
    some [] := by cbv
  obtain ⟨shader, compiled, _⟩ := exists_ok_of_toOption_map table
  exact ⟨shader, compiled⟩

end Halvings

/-- Both headers are written, each once, although one is given by two nodes. -/
theorem Graph.headers_once_iff_halvings :
    ∃ shader, (halvings Definition.halveHeader "").compile ⟨[], true⟩ ⟨2⟩ = .ok shader ∧
      shader.vertex.headerChunks = [Definition.halveHeader ++ "\n", "\n"] ∧
      shader.vertex.headerChunks.Nodup := by
  obtain ⟨shader, compiled⟩ := compile_halvings Definition.halveHeader ""
  obtain ⟨nodes, linearized, _, chunks, _, once, _⟩ := headers_once_iff compiled .vertex
  cases (linearize_halvings _ _).symm.trans linearized
  exact ⟨shader, compiled, chunks.trans (by decide), once.mpr (by decide)⟩

/-- A header that was given with and without a newline at its end is written twice. -/
theorem Graph.header_written_twice :
    ¬ ∀ g config root shader, Graph.compile g config root = .ok shader →
      ∀ stage, (shader.source stage).headerChunks.Nodup := by
  intro everywhere
  obtain ⟨shader, compiled⟩ :=
    compile_halvings Definition.halveHeader (Definition.halveHeader ++ "\n")
  have once := everywhere _ _ _ _ compiled .vertex
  obtain ⟨nodes, linearized, whole⟩ := compile_eq_ok compiled
  cases (linearize_halvings _ _).symm.trans linearized
  rw [Program.headerChunks_of_compile whole] at once
  revert once
  decide

/-! ## Globals and varyings -/

namespace Program

variable {nodes : List (NodeId × Node)} {declared : Declared}

theorem mem_globals_iff :
    declared ∈ (Program.mk nodes).globals ↔
      ∃ (k : Nat) (id : NodeId) (node : Node), nodes[k]? = some (id, node) ∧
        ∃ output ∈ node.definition.outputs,
          declared = ⟨output.type, globalName (label k) output.name⟩ := by
  constructor
  · intro mem
    obtain ⟨⟨name, node⟩, listed, mem⟩ := List.mem_flatMap.mp mem
    obtain ⟨k, at_k⟩ := List.getElem?_of_mem listed
    obtain ⟨id, entry, rfl⟩ := getElem?_labeled at_k
    obtain ⟨output, member, rfl⟩ := List.mem_map.mp mem
    exact ⟨k, id, node, entry, output, member, rfl⟩
  · rintro ⟨k, id, node, entry, output, member, rfl⟩
    exact mem_globals entry member

/-- Names that tell position and output are all different if no node lists one twice. -/
theorem nodup_names {naming : String → String → String}
    (tells : ∀ {j k : Nat} {a b : String},
      naming (label j) a = naming (label k) b ↔ j = k ∧ a = b) {listed : Node → List String} :
    ((Program.mk nodes).labeled.flatMap fun (label, node) =>
        (listed node).map (naming label)).Nodup ↔
      ∀ entry ∈ nodes, (listed entry.2).Nodup := by
  rw [List.nodup_flatMap]
  constructor
  · rintro ⟨each, _⟩ ⟨id, node⟩ mem
    obtain ⟨k, at_k⟩ := List.getElem?_of_mem mem
    have here := each _ (List.mem_of_getElem? (getElem?_labeled_of_getElem? at_k))
    exact here.of_map
  · intro each
    constructor
    · rintro ⟨name, node⟩ mem
      obtain ⟨k, at_k⟩ := List.getElem?_of_mem mem
      obtain ⟨id, entry, rfl⟩ := getElem?_labeled at_k
      refine (each (id, node) (List.mem_of_getElem? entry)).map fun a b same => ?_
      exact (tells.mp same).2
    · rw [List.pairwise_iff_getElem]
      intro j k inside inside' before name left right
      obtain ⟨_, _, label_j⟩ := getElem?_labeled (List.getElem?_eq_getElem inside)
      obtain ⟨_, _, label_k⟩ := getElem?_labeled (List.getElem?_eq_getElem inside')
      obtain ⟨a, _, rfl⟩ := List.mem_map.mp left
      obtain ⟨b, _, same⟩ := List.mem_map.mp right
      rw [label_j, label_k] at same
      have := (tells.mp same).1
      omega

/-- The outputs of a node by name. -/
def outputNames (node : Node) : List String := node.definition.outputs.map (·.name)

/-- The outputs of a node that vary, by name. -/
def varyingNames (node : Node) : List String :=
  if node.definition.varying then outputNames node else []

theorem nodup_globals : ((Program.mk nodes).globals.map (·.name)).Nodup ↔
    ∀ entry ∈ nodes, (outputNames entry.2).Nodup := by
  have named : (Program.mk nodes).globals.map (·.name) =
      (Program.mk nodes).labeled.flatMap fun (label, node) =>
        (outputNames node).map (globalName label) := by
    simp only [Program.globals, outputNames, List.map_flatMap, List.map_map]
    rfl
  rw [named, nodup_names globalName_inj]

theorem nodup_varyings : ((Program.mk nodes).varyings.map (·.name)).Nodup ↔
    ∀ entry ∈ nodes, (varyingNames entry.2).Nodup := by
  have named : (Program.mk nodes).varyings.map (·.name) =
      (Program.mk nodes).labeled.flatMap fun entry =>
        (varyingNames entry.2).map (varyingName entry.1) := by
    simp only [Program.varyings, varyingNames, outputNames, List.map_flatMap]
    refine List.flatMap_congr fun entry _ => ?_
    cases entry.2.definition.varying <;> simp
  rw [named, nodup_names varyingName_inj]

/-- The declared names differ exactly if no node has two outputs of one name. -/
theorem nodup_declared :
    (((Program.mk nodes).varyings ++ (Program.mk nodes).globals).map (·.name)).Nodup ↔
      ∀ entry ∈ nodes, (outputNames entry.2).Nodup := by
  rw [List.map_append, List.nodup_append', nodup_varyings, nodup_globals]
  constructor
  · exact fun ⟨_, each, _⟩ => each
  · intro each
    refine ⟨fun entry mem => ?_, each, ?_⟩
    · unfold varyingNames
      split
      · exact each entry mem
      · exact List.nodup_nil
    · intro name crossing global
      obtain ⟨_, listed, rfl⟩ := List.mem_map.mp crossing
      obtain ⟨_, _, _, _, _, _, _, rfl⟩ := mem_varyings_iff.mp listed
      obtain ⟨_, listed, same⟩ := List.mem_map.mp global
      obtain ⟨_, _, _, _, _, _, rfl⟩ := mem_globals_iff.mp listed
      exact varyingName_ne_globalName same.symm

end Program

/-- What a source declares for the nodes of a program: a global for each output, a varying for
each output that varies, and no name twice unless a node has two outputs of one name. -/
structure Source.Names (s : Source) (nodes : List (NodeId × Node)) : Prop where
  globals : ∀ declared, declared ∈ s.globals ↔
    ∃ (k : Nat) (id : NodeId) (node : Node), nodes[k]? = some (id, node) ∧
      ∃ output ∈ node.definition.outputs,
        declared = ⟨output.type, Program.globalName (Program.label k) output.name⟩
  varyings : ∀ declared, declared ∈ s.varyings ↔
    ∃ (k : Nat) (id : NodeId) (node : Node), nodes[k]? = some (id, node) ∧
      node.definition.varying = true ∧ ∃ output ∈ node.definition.outputs,
        declared = ⟨output.type, Program.varyingName (Program.label k) output.name⟩
  apart : ((s.varyings ++ s.globals).map (·.name)).Nodup ↔
    ∀ entry ∈ nodes, (Program.outputNames entry.2).Nodup

/-- Each node that the root reaches has one position, which begins the names of its outputs. Names
agree only if positions and outputs do, and no varying has the name of a global, whatever the
outputs are called. So what either stage declares has different names, unless a node has two
outputs of one name. -/
theorem Graph.names_apart {g : Graph} {config : CompilerConfig} {root : NodeId}
    {shader : CompiledShader} (h : g.compile config root = .ok shader) :
    ∃ nodes, g.linearize root = .ok nodes ∧
      (∀ id, g.Reaches root id ↔ ∃ (k : Nat) (node : Node), nodes[k]? = some (id, node)) ∧
      (∀ (k : Nat) (id : NodeId) (node : Node), nodes[k]? = some (id, node) → ∀ a : String,
        Program.globalName ((Program.mk nodes).labelOf id) a = "n" ++ toString k ++ "_" ++ a ∧
        Program.varyingName ((Program.mk nodes).labelOf id) a = "v_n" ++ toString k ++ "_" ++ a) ∧
      (∀ (j k : Nat) (s t : NodeId) (node other : Node), nodes[j]? = some (s, node) →
        nodes[k]? = some (t, other) → (s = t ↔ j = k) ∧ ∀ a b : String,
          (Program.globalName ((Program.mk nodes).labelOf s) a =
            Program.globalName ((Program.mk nodes).labelOf t) b ↔ j = k ∧ a = b) ∧
          (Program.varyingName ((Program.mk nodes).labelOf s) a =
            Program.varyingName ((Program.mk nodes).labelOf t) b ↔ j = k ∧ a = b) ∧
          Program.varyingName ((Program.mk nodes).labelOf s) a ≠
            Program.globalName ((Program.mk nodes).labelOf t) b) ∧
      ∀ stage, (shader.source stage).Names nodes := by
  obtain ⟨nodes, linearized, compiled⟩ := compile_eq_ok h
  have order := dependencyOrder_of_linearize linearized
  refine ⟨nodes, linearized, ?_, ?_, ?_, ?_⟩
  · intro id
    constructor
    · exact order.exists_position
    · rintro ⟨k, node, at_k⟩
      exact (order.mem_iff id).mp (List.mem_map_of_mem (List.mem_of_getElem? at_k))
  · intro k id node at_k a
    rw [order.labelOf at_k]
    constructor
    · rfl
    · simp [Program.varyingName, Program.globalName, Program.label, ← String.append_assoc]
  · intro j k s t node other at_j at_k
    constructor
    · have at_s := order.position? at_j
      have at_t := order.position? at_k
      constructor
      · rintro rfl
        exact Option.some.inj (at_s.symm.trans at_t)
      · rintro rfl
        exact congrArg (·.1) (Option.some.inj (at_j.symm.trans at_k))
    · intro a b
      rw [order.labelOf at_j, order.labelOf at_k]
      exact ⟨Program.globalName_inj, Program.varyingName_inj, Program.varyingName_ne_globalName⟩
  · intro stage
    obtain ⟨_, varyings, globals, _⟩ := CompiledShader.contents compiled stage
    refine ⟨fun declared => ?_, fun declared => ?_, ?_⟩
    · rw [globals]
      exact Program.mem_globals_iff
    · rw [varyings]
      exact Program.mem_varyings_iff
    · rw [varyings, globals]
      exact Program.nodup_declared

/-- The two scaled copies have names of their own, and all that is declared differs in name. -/
theorem Graph.names_apart_diamond :
    ∃ shader nodes, diamond.compile ⟨[], true⟩ ⟨0⟩ = .ok shader ∧
      Program.globalName ((Program.mk nodes).labelOf ⟨1⟩) "value" = "n2_value" ∧
      Program.globalName ((Program.mk nodes).labelOf ⟨1⟩) "value" ≠
        Program.globalName ((Program.mk nodes).labelOf ⟨2⟩) "value" ∧
      ∀ stage, (((shader.source stage).varyings ++ (shader.source stage).globals).map
        (·.name)).Nodup := by
  have table : (diamond.compile ⟨[], true⟩ ⟨0⟩).toOption.map (·.uniforms) =
    some [Library.elapsedTime] := by cbv
  obtain ⟨shader, compiled, _⟩ := exists_ok_of_toOption_map table
  obtain ⟨nodes, linearized, _, spelled, apart, names⟩ := names_apart compiled
  cases linearize_diamond.symm.trans linearized
  obtain ⟨_, names_of⟩ := apart 2 3 ⟨1⟩ ⟨2⟩ _ _ rfl rfl
  have different := (names_of "value" "value").1
  refine ⟨shader, _, compiled, (spelled 2 ⟨1⟩ _ rfl "value").1.trans (by decide), ?_, ?_⟩
  · exact fun same => absurd (different.mp same).1 (by decide)
  · refine fun stage => (names stage).apart.mpr ?_
    decide

end ParticleShading
