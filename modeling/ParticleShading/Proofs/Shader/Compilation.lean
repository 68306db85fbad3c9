import ParticleShading.Shader.Compile

/-!
# Stages of a compilation

When each stage succeeds and what its error means: the placeholders of a
template, the injected lines of a stage, the merge of the uniform declarations.
A compilation succeeds exactly if all of its stages do, and fails with the error
of one of them.
-/

namespace ParticleShading

section Bind

variable {ε α β : Type} {x : Except ε α} {f : α → Except ε β} {b : β} {e : ε}

theorem bind_eq_ok_iff : (x >>= f) = .ok b ↔ ∃ a, x = .ok a ∧ f a = .ok b := by
  cases x <;> simp [bind, Except.bind]

theorem bind_eq_error_iff :
    (x >>= f) = .error e ↔ x = .error e ∨ ∃ a, x = .ok a ∧ f a = .error e := by
  cases x <;> simp [bind, Except.bind]

theorem map_eq_ok_iff {f : α → β} : x.map f = .ok b ↔ ∃ a, x = .ok a ∧ f a = b := by
  cases x <;> simp [Except.map]

/-- A result is read off a computation that does not fail. -/
theorem exists_ok_of_toOption_map {f : α → β} (h : x.toOption.map f = some b) :
    ∃ a, x = .ok a ∧ f a = b := by
  cases x with
  | error e => cases h
  | ok a => exact ⟨a, rfl, Option.some.inj h⟩

end Bind

theorem Definition.findOutput?_eq_some {d : Definition} {name : String} {output : Output}
    (h : d.findOutput? name = some output) : output ∈ d.outputs ∧ output.name = name :=
  ⟨List.mem_of_find?_eq_some h, by simpa using List.find?_some h⟩

theorem Definition.exists_findOutput? {d : Definition} {output : Output} (h : output ∈ d.outputs) :
    ∃ found, d.findOutput? output.name = some found :=
  Option.isSome_iff_exists.mp (List.find?_isSome.mpr ⟨output, h, by simp⟩)

/-! ## Templates -/

namespace Text

variable {ε : Type} {resolve : String → Except ε String} {segments : List Segment}
variable {text : String} {error : ε}

/-- In a template that is filled every placeholder has a text. -/
theorem resolve_of_fill_ok (h : fill resolve segments = .ok text) {name : List Char}
    (mem : .hole name ∈ segments) : ∃ value, resolve (String.ofList name) = .ok value := by
  induction segments generalizing text with
  | nil => cases mem
  | cons segment rest ih =>
    cases segment with
    | plain plain =>
      obtain ⟨tail, filled, _⟩ := bind_eq_ok_iff.mp h
      exact ih filled ((List.mem_cons.mp mem).resolve_left (by simp))
    | hole first =>
      obtain ⟨value, resolved, h⟩ := bind_eq_ok_iff.mp h
      obtain ⟨tail, filled, _⟩ := bind_eq_ok_iff.mp h
      rcases List.mem_cons.mp mem with same | mem
      · cases same
        exact ⟨value, resolved⟩
      · exact ih filled mem

/-- An error comes from a placeholder. -/
theorem resolve_of_fill_error (h : fill resolve segments = .error error) :
    ∃ name, .hole name ∈ segments ∧ resolve (String.ofList name) = .error error := by
  induction segments with
  | nil => cases h
  | cons segment rest ih =>
    have later (tail : fill resolve rest = .error error) :
        ∃ name, .hole name ∈ segment :: rest ∧ resolve (String.ofList name) = .error error := by
      obtain ⟨name, mem, refused⟩ := ih tail
      exact ⟨name, List.mem_cons_of_mem _ mem, refused⟩
    cases segment with
    | plain plain =>
      rcases bind_eq_error_iff.mp h with tail | ⟨_, _, h⟩
      · exact later tail
      · cases h
    | hole name =>
      rcases bind_eq_error_iff.mp h with refused | ⟨_, _, h⟩
      · exact ⟨name, List.mem_cons_self, refused⟩
      · rcases bind_eq_error_iff.mp h with tail | ⟨_, _, h⟩
        · exact later tail
        · cases h

end Text

/-- The names in the placeholders of an injection. -/
def Injection.Names (i : Injection) (output : String) : Prop :=
  ∃ name, .hole name ∈ Text.segments i.template.toList ∧ String.ofList name = output

namespace Program

variable {p : Program} {config : CompilerConfig} {stage : Stage} {injections : List Injection}
variable {lines : List String} {error : GraphError} {i : Injection} {output : String}

theorem rootOutput_of_render {line : String} (h : Text.render p.rootOutput i.template = .ok line)
    (names : i.Names output) : ∃ global, p.rootOutput output = .ok global := by
  obtain ⟨name, mem, rfl⟩ := names
  exact Text.resolve_of_fill_ok h mem

/-- Every injection of the stage has its line. -/
theorem render_of_injectedLines (h : p.injectedLines stage injections = .ok lines)
    (mem : i ∈ injections) (here : i.stage = stage) :
    ∃ line ∈ lines, Text.render p.rootOutput i.template = .ok line := by
  induction injections generalizing lines with
  | nil => cases mem
  | cons first rest ih =>
    unfold injectedLines at h
    split at h
    · obtain ⟨line, head, h⟩ := bind_eq_ok_iff.mp h
      obtain ⟨others, tail, h⟩ := bind_eq_ok_iff.mp h
      cases h
      rcases List.mem_cons.mp mem with rfl | mem
      · exact ⟨line, List.mem_cons_self, head⟩
      · obtain ⟨other, listed, rendered⟩ := ih tail mem
        exact ⟨other, List.mem_cons_of_mem _ listed, rendered⟩
    · rename_i elsewhere
      rcases List.mem_cons.mp mem with rfl | mem
      · exact absurd here elsewhere
      · exact ih h mem

/-- An error in the injected lines is the error of a placeholder. -/
theorem rootOutput_of_injectedLines_error (h : p.injectedLines stage injections = .error error) :
    ∃ i ∈ injections, ∃ output, i.Names output ∧ p.rootOutput output = .error error := by
  induction injections with
  | nil => cases h
  | cons first rest ih =>
    have later (tail : p.injectedLines stage rest = .error error) :
        ∃ i ∈ first :: rest, ∃ output, i.Names output ∧ p.rootOutput output = .error error := by
      obtain ⟨i, mem, refused⟩ := ih tail
      exact ⟨i, List.mem_cons_of_mem _ mem, refused⟩
    unfold injectedLines at h
    split at h
    · rcases bind_eq_error_iff.mp h with head | ⟨_, _, h⟩
      · obtain ⟨name, mem, refused⟩ := Text.resolve_of_fill_error head
        exact ⟨first, List.mem_cons_self, _, ⟨name, mem, rfl⟩, refused⟩
      · rcases bind_eq_error_iff.mp h with tail | ⟨_, _, h⟩
        · exact later tail
        · cases h
    · exact later h

/-- The source of a stage around its injected lines. -/
def sourceAround (p : Program) (config : CompilerConfig) (uniforms : List UniformDeclaration)
    (stage : Stage) (injections : List String) : Source :=
  { stage
    uniforms := uniforms.map fun d => ⟨d.type, d.name⟩
    varyings := p.varyings
    headers := p.headers stage
    globals := p.globals
    main := p.labeled.flatMap fun (label, node) => p.statements stage config.annotate label node
    injections }

theorem source_eq (uniforms : List UniformDeclaration) :
    p.source config uniforms stage =
      (p.injectedLines stage config.injections).map (p.sourceAround config uniforms stage) := by
  unfold source
  cases p.injectedLines stage config.injections <;> rfl

end Program

/-! ## Uniforms -/

namespace UniformDeclaration

variable {d e : UniformDeclaration} {known declared table : List UniformDeclaration}
variable {error : GraphError}

theorem mem_insertByName : e ∈ d.insertByName known ↔ e = d ∨ e ∈ known := by
  induction known with
  | nil => simp [insertByName]
  | cons first rest ih =>
    unfold insertByName
    split
    · exact List.mem_cons
    · rw [List.mem_cons, List.mem_cons, ih]
      exact or_left_comm

/-- A declaration put in is found under its name, and the others as before. -/
theorem find?_insertByName (fresh : known.find? (·.name = d.name) = none) (name : String) :
    (d.insertByName known).find? (·.name = name) =
      if d.name = name then some d else known.find? (·.name = name) := by
  induction known with
  | nil =>
    by_cases h : d.name = name <;> simp [insertByName, h]
  | cons first rest ih =>
    have apart : first.name ≠ d.name := by simpa using List.find?_eq_none.mp fresh first (by simp)
    have later := ih (List.find?_eq_none.mpr fun other mem =>
      List.find?_eq_none.mp fresh other (List.mem_cons_of_mem _ mem))
    unfold insertByName
    split
    · by_cases h : d.name = name <;> simp [List.find?_cons, h]
    · by_cases h : first.name = name
      · have : d.name ≠ name := fun same => apart (h.trans same.symm)
        simp [h, this]
      · simpa [List.find?_cons, h] using later

/-- What a merge knew it still finds, and of every declaration it finds one of that type. -/
theorem find?_of_merge_ok (h : merge known declared = .ok table) :
    (∀ name first, known.find? (·.name = name) = some first →
      table.find? (·.name = name) = some first) ∧
    ∀ d ∈ declared, ∃ first, table.find? (·.name = d.name) = some first ∧ first.type = d.type := by
  induction declared generalizing known with
  | nil =>
    cases h
    exact ⟨fun _ _ found => found, by simp⟩
  | cons d rest ih =>
    unfold merge at h
    split at h
    · rename_i fresh
      obtain ⟨old, new⟩ := ih h
      constructor
      · intro name first found
        apply old name first
        rw [find?_insertByName fresh, if_neg, found]
        rintro rfl
        exact absurd (found.symm.trans fresh) (by simp)
      · intro other mem
        rcases List.mem_cons.mp mem with rfl | mem
        · exact ⟨other, old _ _ (by rw [find?_insertByName fresh, if_pos rfl]), rfl⟩
        · exact new other mem
    · rename_i first found
      split at h
      · rename_i agree
        obtain ⟨old, new⟩ := ih h
        refine ⟨old, fun other mem => ?_⟩
        rcases List.mem_cons.mp mem with rfl | mem
        · exact ⟨first, old _ _ found, agree⟩
        · exact new other mem
      · cases h

/-- A merge is refused for two declarations of one name and two types. -/
theorem conflict_of_merge_error (h : merge known declared = .error error) :
    ∃ first ∈ known ++ declared, ∃ second ∈ declared, first.name = second.name ∧
      first.type ≠ second.type ∧
      error = .conflictingUniform second.name first.type second.type := by
  induction declared generalizing known with
  | nil => cases h
  | cons d rest ih =>
    unfold merge at h
    split at h
    · obtain ⟨first, mem, second, mem', conflict⟩ := ih h
      refine ⟨first, ?_, second, List.mem_cons_of_mem _ mem', conflict⟩
      simpa [mem_insertByName, or_assoc, or_left_comm] using mem
    · rename_i first found
      split at h
      · obtain ⟨other, mem, second, mem', conflict⟩ := ih h
        refine ⟨other, ?_, second, List.mem_cons_of_mem _ mem', conflict⟩
        rcases List.mem_append.mp mem with mem | mem
        · exact List.mem_append.mpr (Or.inl mem)
        · exact List.mem_append.mpr (Or.inr (List.mem_cons_of_mem _ mem))
      · rename_i differ
        cases h
        exact ⟨first, List.mem_append.mpr (Or.inl (List.mem_of_find?_eq_some found)), d,
          List.mem_cons_self, by simpa using List.find?_some found, differ, rfl⟩

end UniformDeclaration

def CompiledShader.source (shader : CompiledShader) : Stage → Source
  | .vertex => shader.vertex
  | .fragment => shader.fragment

namespace Program

variable {p : Program} {config : CompilerConfig} {shader : CompiledShader} {error : GraphError}

theorem compile_eq_ok (h : p.compile config = .ok shader) :
    ∃ uniforms vertex fragment, p.uniforms = .ok uniforms ∧
      p.injectedLines .vertex config.injections = .ok vertex ∧
      p.injectedLines .fragment config.injections = .ok fragment ∧
      shader = ⟨p.sourceAround config uniforms .vertex vertex,
        p.sourceAround config uniforms .fragment fragment, uniforms, p.nodes.length⟩ := by
  obtain ⟨uniforms, merged, h⟩ := bind_eq_ok_iff.mp h
  obtain ⟨vertex, vertexDone, h⟩ := bind_eq_ok_iff.mp h
  obtain ⟨fragment, fragmentDone, h⟩ := bind_eq_ok_iff.mp h
  cases h
  rw [source_eq] at vertexDone fragmentDone
  cases vertexLines : p.injectedLines .vertex config.injections with
  | error e => simp [vertexLines, Except.map] at vertexDone
  | ok lines =>
    cases fragmentLines : p.injectedLines .fragment config.injections with
    | error e => simp [fragmentLines, Except.map] at fragmentDone
    | ok lines' =>
      simp only [vertexLines, fragmentLines, Except.map, Except.ok.injEq] at vertexDone fragmentDone
      subst vertexDone fragmentDone
      exact ⟨uniforms, lines, lines', merged, rfl, rfl, rfl⟩

/-- Every injection has its line in the source of its stage. -/
theorem exists_line {i : Injection} {stage : Stage} (h : p.compile config = .ok shader)
    (mem : i ∈ config.injections) (here : i.stage = stage) :
    ∃ line ∈ (shader.source stage).injections, Text.render p.rootOutput i.template = .ok line := by
  obtain ⟨uniforms, vertex, fragment, _, vertexLines, fragmentLines, rfl⟩ := compile_eq_ok h
  cases stage with
  | vertex => exact render_of_injectedLines vertexLines mem here
  | fragment => exact render_of_injectedLines fragmentLines mem here

theorem compile_eq_error (h : p.compile config = .error error) :
    p.uniforms = .error error ∨
      ∃ stage, p.injectedLines stage config.injections = .error error := by
  have lines {uniforms : List UniformDeclaration} {stage : Stage}
      (refused : p.source config uniforms stage = .error error) :
      p.injectedLines stage config.injections = .error error := by
    rw [source_eq] at refused
    cases found : p.injectedLines stage config.injections with
    | ok lines => simp [found, Except.map] at refused
    | error e => simpa [found, Except.map] using refused
  rcases bind_eq_error_iff.mp h with conflict | ⟨uniforms, _, h⟩
  · exact Or.inl conflict
  rcases bind_eq_error_iff.mp h with vertex | ⟨_, _, h⟩
  · exact Or.inr ⟨.vertex, lines vertex⟩
  rcases bind_eq_error_iff.mp h with fragment | ⟨_, _, h⟩
  · exact Or.inr ⟨.fragment, lines fragment⟩
  · cases h

end Program

namespace Graph

variable {g : Graph} {root : NodeId} {config : CompilerConfig}

theorem compile_eq_ok {shader : CompiledShader} (h : g.compile config root = .ok shader) :
    ∃ nodes, g.linearize root = .ok nodes ∧ (Program.mk nodes).compile config = .ok shader := by
  unfold compile at h
  split at h
  · cases h
  · rename_i nodes linearized
    split at h
    · rename_i done
      cases h
      exact ⟨nodes, linearized, done⟩
    · cases h

theorem compile_eq_error {error : ShaderError} (h : g.compile config root = .error error) :
    g.linearize root = .error error ∨
      ∃ nodes fault, g.linearize root = .ok nodes ∧
        (Program.mk nodes).compile config = .error fault ∧ error = .graph fault := by
  unfold compile at h
  split at h
  · rename_i refused
    cases h
    exact Or.inl refused
  · rename_i nodes linearized
    split at h
    · cases h
    · rename_i fault refused
      cases h
      exact Or.inr ⟨nodes, fault, linearized, refused, rfl⟩

end Graph

end ParticleShading
