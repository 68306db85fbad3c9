import ParticleShading.Proofs.Shader.Storage

/-!
# Declared types

A declaration fixes the type of a uniform, and shaders declare it with that
type. Setting coerces to it or is refused; advancing writes whatever the rule
hands back. So the stored value keeps its type for good exactly if the rule
keeps it, as standing still and counting seconds do, and a value of another type
comes from a custom rule.
-/

namespace ParticleShading

namespace UpdateRule

/-- The rule hands back values of the type for values of the type. -/
def Keeps (rule : UpdateRule) (type : ValueType) : Prop :=
  ∀ value delta, value.type = type → (rule.apply value delta).type = type

theorem type_apply_elapsed (value : Value) (delta : Single) :
    (elapsed.apply value delta).type = value.type := by
  obtain ⟨type, components⟩ := value
  cases type <;> rfl

theorem keeps_static (type : ValueType) : static.Keeps type := fun _ _ same => same

theorem keeps_elapsed (type : ValueType) : elapsed.Keeps type :=
  fun value delta same => (type_apply_elapsed value delta).trans same

end UpdateRule

namespace Write

variable {w : Write} {u : Uniform} {cells : Cells} {writes : List Write}

/-- A write through a handle of the store, in which handles to the storage of `u` are copies of
`u`. -/
structure Allowed (w : Write) (u : Uniform) (cells : Cells) : Prop where
  inside : w.uniform.cell < cells.size
  copy : w.uniform.sharesStorage u = true → w.uniform = u

/-- Writes one after another. -/
def runAll (writes : List Write) (cells : Cells) : Cells :=
  writes.foldl (fun cells w => w.run cells) cells

theorem runAll_concat (writes : List Write) (w : Write) (cells : Cells) :
    runAll (writes ++ [w]) cells = w.run (runAll writes cells) := by
  rw [runAll, List.foldl_append]
  rfl

theorem size_runAll (writes : List Write) (cells : Cells) :
    (runAll writes cells).size = cells.size := by
  induction writes using List.reverseRecOn with
  | nil => rfl
  | append_singleton writes w ih => rw [runAll_concat, size_run, ih]

theorem run_set_of_refused {value : Value} (refused : value.coerce? u.type = none) :
    run ⟨u, .set value⟩ cells = cells := by
  simp only [run, Uniform.set, refused]

theorem get_run_set {value coerced : Value} (inside : u.cell < cells.size)
    (fits : value.coerce? u.type = some coerced) : u.get (run ⟨u, .set value⟩ cells) = coerced := by
  rw [get_run inside, if_pos (by simp [Uniform.sharesStorage])]
  simp only [apply, fits, Option.getD_some]

theorem get_run_advance {delta : Single} (inside : u.cell < cells.size) :
    u.get (run ⟨u, .advance delta⟩ cells) = u.rule.apply (u.get cells) delta :=
  Uniform.get_advance delta inside

/-- What a handle reads after a write: a value of its type, what it read before, or what the rule
makes of that. -/
theorem get_run_cases (allowed : w.Allowed u cells) :
    (u.get (w.run cells)).type = u.type ∨ u.get (w.run cells) = u.get cells ∨
      ∃ delta, w = ⟨u, .advance delta⟩ ∧
        u.get (w.run cells) = u.rule.apply (u.get cells) delta := by
  obtain ⟨v, op⟩ := w
  by_cases shared : v.sharesStorage u = true
  · obtain rfl : v = u := allowed.copy shared
    cases op with
    | set value =>
      cases fits : value.coerce? v.type with
      | none => exact Or.inr (Or.inl (by rw [run_set_of_refused fits]))
      | some coerced =>
        left
        rw [get_run_set allowed.inside fits]
        exact Value.type_of_coerce? fits
    | advance delta => exact Or.inr (Or.inr ⟨delta, rfl, get_run_advance allowed.inside⟩)
  · rw [get_run allowed.inside, if_neg shared]
    exact Or.inr (Or.inl rfl)

/-- One write keeps the type of the stored value if the rule does. -/
theorem type_run (allowed : w.Allowed u cells) (keeps : u.rule.Keeps u.type)
    (typed : (u.get cells).type = u.type) : (u.get (w.run cells)).type = u.type := by
  rcases get_run_cases allowed with fits | same | ⟨delta, _, advanced⟩
  · exact fits
  · rw [same, typed]
  · rw [advanced]
    exact keeps _ delta typed

/-- What holds before a write holds after the writes that came first. -/
theorem Allowed.after (allowed : w.Allowed u cells) (writes : List Write) :
    w.Allowed u (runAll writes cells) :=
  ⟨(size_runAll writes cells).symm ▸ allowed.inside, allowed.copy⟩

theorem type_runAll (allowed : ∀ w ∈ writes, w.Allowed u cells) (keeps : u.rule.Keeps u.type)
    (typed : (u.get cells).type = u.type) : (u.get (runAll writes cells)).type = u.type := by
  induction writes using List.reverseRecOn with
  | nil => exact typed
  | append_singleton writes w ih =>
    rw [runAll_concat]
    refine type_run ((allowed w (by simp)).after writes) keeps ?_
    exact ih fun other mem => allowed other (by simp [mem])

/-- A stored value that is not of the declared type comes from an advance. -/
theorem advance_of_misfit (allowed : ∀ w ∈ writes, w.Allowed u cells)
    (typed : (u.get cells).type = u.type)
    (misfit : (u.get (runAll writes cells)).type ≠ u.type) :
    ∃ earlier delta later, writes = earlier ++ ⟨u, .advance delta⟩ :: later ∧
      u.get (runAll writes cells) = u.rule.apply (u.get (runAll earlier cells)) delta := by
  induction writes using List.reverseRecOn with
  | nil => exact absurd typed misfit
  | append_singleton writes w ih =>
    rw [runAll_concat] at misfit ⊢
    rcases get_run_cases ((allowed w (by simp)).after writes) with
      fits | same | ⟨delta, rfl, advanced⟩
    · exact absurd fits misfit
    · rw [same] at misfit ⊢
      obtain ⟨earlier, delta, later, rfl, value⟩ :=
        ih (fun other mem => allowed other (by simp [mem])) misfit
      exact ⟨earlier, delta, later ++ [w], by simp, value⟩
    · exact ⟨writes, delta, [], rfl, advanced⟩

/-- Any value of the type can be stored, and then the rule is applied to it. -/
theorem keeps_of_type_kept (inside : u.cell < cells.size)
    (kept : ∀ writes, (∀ w ∈ writes, w.Allowed u cells) →
      (u.get (runAll writes cells)).type = u.type) : u.rule.Keeps u.type := by
  intro value delta fits
  have own (op : UniformOp) : Allowed ⟨u, op⟩ u cells := ⟨inside, fun _ => rfl⟩
  have after := kept ([⟨u, .set value⟩] ++ [⟨u, .advance delta⟩]) (by simp [own])
  have stored : u.get (runAll [⟨u, .set value⟩] cells) = value :=
    get_run_set inside (if_pos fits)
  rw [runAll_concat, get_run_advance (by rwa [size_runAll]), stored] at after
  exact after

/-- A stored value that is not of the declared type was handed back by a custom rule. -/
theorem custom_of_misfit (allowed : ∀ w ∈ writes, w.Allowed u cells)
    (typed : (u.get cells).type = u.type)
    (misfit : (u.get (runAll writes cells)).type ≠ u.type) :
    ∃ f earlier delta later, u.rule = .custom f ∧
      writes = earlier ++ ⟨u, .advance delta⟩ :: later ∧
      u.get (runAll writes cells) = f (u.get (runAll earlier cells)) delta := by
  obtain ⟨earlier, delta, later, split, advanced⟩ := advance_of_misfit allowed typed misfit
  have broken : ¬ u.rule.Keeps u.type := fun keeps => misfit (type_runAll allowed keeps typed)
  cases rule : u.rule with
  | static => exact absurd (rule ▸ UpdateRule.keeps_static _) broken
  | elapsed => exact absurd (rule ▸ UpdateRule.keeps_elapsed _) broken
  | custom f =>
    refine ⟨f, earlier, delta, later, rfl, split, advanced.trans ?_⟩
    rw [rule]
    rfl

end Write

namespace Uniform

variable {u : Uniform} {cells after : Cells} {value : Value}

/-- Setting is refused for want of a coercion. -/
theorem set_eq_error_iff {error : ShaderError} : u.set value cells = .error error ↔
    value.coerce? u.type = none ∧ error = .typeMismatch "uniform" u.name u.type value.type := by
  unfold set
  cases value.coerce? u.type with
  | none => simp [eq_comm]
  | some coerced => simp

/-- Shaders declare a uniform with the type of its initial value. -/
theorem declared_of_compile {d : UniformDeclaration} {store : Cells} {g : Graph}
    {config : CompilerConfig} {root : NodeId} {shader : CompiledShader}
    (compiled : g.compile config root = .ok shader) (listed : d ∈ shader.uniforms)
    (stage : Stage) :
    ⟨(allocate d store).1.type, (allocate d store).1.name⟩ ∈ (shader.source stage).uniforms := by
  obtain ⟨nodes, _, compiled⟩ := Graph.compile_eq_ok compiled
  rw [(CompiledShader.interface compiled).uniforms stage]
  exact List.mem_map_of_mem listed

end Uniform

/-- A uniform has the type of its initial value, which is the one that shaders declare. The stored
value keeps this type through every sequence of writes exactly if the rule hands back values of the
type for such values; static and elapsed rules do. What is stored and not of the type was handed
back by a custom rule. Setting is refused exactly if there is no coercion, then leaves every value
alone, and otherwise stores a value of the type, whatever was there. -/
theorem Uniform.type_kept_iff (d : UniformDeclaration) (store : Cells) :
    let u := (allocate d store).1
    let cells := (allocate d store).2
    u.type = d.initial.type ∧
    (∀ (g : Graph) config root shader stage, g.compile config root = .ok shader →
      d ∈ shader.uniforms → ⟨u.type, u.name⟩ ∈ (shader.source stage).uniforms) ∧
    ((∀ writes, (∀ w ∈ writes, Write.Allowed w u cells) →
      (u.get (Write.runAll writes cells)).type = u.type) ↔ d.rule.Keeps u.type) ∧
    UpdateRule.static.Keeps u.type ∧ UpdateRule.elapsed.Keeps u.type ∧
    ∀ writes, (∀ w ∈ writes, Write.Allowed w u cells) →
      ((u.get (Write.runAll writes cells)).type ≠ u.type →
        ∃ f earlier delta later, d.rule = .custom f ∧
          writes = earlier ++ ⟨u, .advance delta⟩ :: later ∧
          u.get (Write.runAll writes cells) = f (u.get (Write.runAll earlier cells)) delta) ∧
      ∀ value,
        (∀ error, u.set value (Write.runAll writes cells) = .error error ↔
          value.coerce? u.type = none ∧
            error = .typeMismatch "uniform" u.name u.type value.type) ∧
        (value.coerce? u.type = none →
          Write.runAll (writes ++ [⟨u, .set value⟩]) cells = Write.runAll writes cells) ∧
        ∀ coerced, value.coerce? u.type = some coerced →
          u.get (Write.runAll (writes ++ [⟨u, .set value⟩]) cells) = coerced ∧
            coerced.type = u.type := by
  intro u cells
  have typed : (u.get cells).type = u.type := congrArg Value.type (get_allocate d store)
  have inside : u.cell < cells.size := by simp [u, cells, allocate, Cells.size]
  refine ⟨rfl, fun _ _ _ _ stage compiled listed => declared_of_compile compiled listed stage,
    ⟨Write.keeps_of_type_kept inside,
      fun keeps writes allowed => Write.type_runAll allowed keeps typed⟩,
    UpdateRule.keeps_static _, UpdateRule.keeps_elapsed _, fun writes allowed =>
    ⟨Write.custom_of_misfit allowed typed, fun value => ⟨fun error => set_eq_error_iff, ?_, ?_⟩⟩⟩
  · intro refused
    rw [Write.runAll_concat, Write.run_set_of_refused refused]
  · intro coerced stored
    have inside_after : u.cell < (Write.runAll writes cells).size := by
      rwa [Write.size_runAll]
    rw [Write.runAll_concat, Write.get_run_set inside_after stored]
    exact ⟨rfl, Value.type_of_coerce? stored⟩

/-- A count that a custom rule turns into a pair. -/
def UniformDeclaration.pair : UniformDeclaration := ⟨"u_pair", .float 0, .deltaPair⟩

/-- The pair comes from the rule, a scalar can be stored in its place, and another pair cannot. The
seconds of a clock stay a scalar. -/
theorem Uniform.type_kept_iff_pair :
    let u := (allocate .pair .empty).1
    let cells := (allocate .pair .empty).2
    let advanced : List Write := [⟨u, .advance 1⟩]
    (¬ UniformDeclaration.pair.rule.Keeps .float ∧
      (∃ f earlier delta later, UniformDeclaration.pair.rule = .custom f ∧
        advanced = earlier ++ ⟨u, .advance delta⟩ :: later ∧
        u.get (Write.runAll advanced cells) = f (u.get (Write.runAll earlier cells)) delta) ∧
      u.get (Write.runAll (advanced ++ [⟨u, .set (.float 2)⟩]) cells) = .float 2 ∧
      Write.runAll (advanced ++ [⟨u, .set (.vec2 ⟨2, 2⟩)⟩]) cells = Write.runAll advanced cells) ∧
    ∀ writes, (∀ w ∈ writes, Write.Allowed w (allocate Library.elapsedTime .empty).1
        (allocate Library.elapsedTime .empty).2) →
      ((allocate Library.elapsedTime .empty).1.get
        (Write.runAll writes (allocate Library.elapsedTime .empty).2)).type = .float := by
  intro u cells advanced
  have allowed : ∀ w ∈ advanced, w.Allowed u cells := by
    intro w mem
    obtain rfl := List.mem_singleton.mp mem
    exact ⟨by decide, fun _ => rfl⟩
  have misfit : (u.get (Write.runAll advanced cells)).type ≠ u.type := by
    intro same
    cases same
  obtain ⟨_, _, kept, _, _, after⟩ := type_kept_iff .pair .empty
  obtain ⟨origin, setting⟩ := after advanced allowed
  obtain ⟨_, _, stored⟩ := setting (.float 2)
  obtain ⟨_, refused, _⟩ := setting (.vec2 ⟨2, 2⟩)
  obtain ⟨_, _, seconds, _, elapsed, _⟩ := type_kept_iff Library.elapsedTime .empty
  exact ⟨⟨fun keeps => misfit (kept.mpr keeps advanced allowed), origin misfit,
    (stored _ rfl).1, refused rfl⟩, seconds.mpr elapsed⟩

/-- After one step the stored value is not of the declared type. -/
theorem Uniform.custom_rule_leaves_type :
    ¬ ∀ (d : UniformDeclaration) (store : Cells) (writes : List Write),
      (∀ w ∈ writes, w.uniform = (allocate d store).1) →
        ((allocate d store).1.get (Write.runAll writes (allocate d store).2)).type =
          (allocate d store).1.type := by
  intro everywhere
  have kept := everywhere .pair .empty [⟨(allocate .pair .empty).1, .advance 1⟩] (by simp)
  cases kept

end ParticleShading
