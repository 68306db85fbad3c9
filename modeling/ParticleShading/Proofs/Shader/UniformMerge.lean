import ParticleShading.Proofs.Shader.Storage
import ParticleShading.Proofs.Text.ByteOrder

/-!
# Merged uniforms

The table of a program has the first declaration of every name, in the order of
the bytes of the names. A merge goes through exactly if declarations of one name
have one type; otherwise it stops at the first declaration that does not have
the type of the first one of its name.
-/

namespace ParticleShading

/-- Where no name is repeated an entry is found under its name. -/
theorem find?_of_nodup_map {α : Type} {name : α → String} {entries : List α} {entry : α}
    (nodup : (entries.map name).Nodup) (mem : entry ∈ entries) :
    entries.find? (name · = name entry) = some entry := by
  cases found : entries.find? (name · = name entry) with
  | none => simpa using List.find?_eq_none.mp found entry mem
  | some other =>
    have same : name other = name entry := by simpa using List.find?_some found
    rw [List.inj_on_of_nodup_map nodup (List.mem_of_find?_eq_some found) mem same]

namespace UniformDeclaration

variable {d : UniformDeclaration} {known declared table : List UniformDeclaration}
variable {error : GraphError}

/-- Every name has one type. -/
def Agree (declared : List UniformDeclaration) : Prop :=
  ∀ d ∈ declared, ∀ e ∈ declared, d.name = e.name → d.type = e.type

/-- A table of the declared names in the order of their bytes, each once and with its first
declaration. -/
structure FirstOfEach (declared table : List UniformDeclaration) : Prop where
  names : ∀ name, name ∈ table.map (·.name) ↔ name ∈ declared.map (·.name)
  ordered : (table.map fun d => Text.bytes d.name).Pairwise (· < ·)
  nodup : (table.map (·.name)).Nodup
  first : ∀ d ∈ table, declared.find? (·.name = d.name) = some d

/-- The first declaration of a list that does not have the type of the first one of its name. -/
structure FirstClash (declared : List UniformDeclaration) (first second : UniformDeclaration) :
    Prop where
  found : declared.find? (·.name = second.name) = some first
  differ : first.type ≠ second.type
  earlier : ∃ before after, declared = before ++ second :: after ∧
    ∀ d ∈ before, ∀ e, declared.find? (·.name = d.name) = some e → e.type = d.type

/-- A merge finds under a name what it knew, and otherwise the first declaration of the name. -/
theorem find?_merge (h : merge known declared = .ok table) (name : String) :
    table.find? (·.name = name) = (known ++ declared).find? (·.name = name) := by
  induction declared generalizing known with
  | nil =>
    cases h
    rw [List.append_nil]
  | cons d rest ih =>
    unfold merge at h
    rw [List.find?_append, List.find?_cons]
    split at h
    · rename_i fresh
      rw [ih h, List.find?_append, find?_insertByName fresh]
      by_cases same : d.name = name
      · subst same
        simp [fresh]
      · simp [same]
    · rename_i first found
      split at h
      · rw [ih h, List.find?_append]
        by_cases same : d.name = name
        · subst same
          simp [found]
        · simp [same]
      · cases h

/-- What stands before the declaration at which a merge stops is merged. -/
theorem split_of_merge_error (h : merge known declared = .error error) :
    ∃ (before : List UniformDeclaration) (second : UniformDeclaration)
      (after table : List UniformDeclaration) (first : UniformDeclaration),
      declared = before ++ second :: after ∧
      merge known before = .ok table ∧ table.find? (·.name = second.name) = some first ∧
      first.type ≠ second.type ∧
      error = .conflictingUniform second.name first.type second.type := by
  induction declared generalizing known with
  | nil => cases h
  | cons d rest ih =>
    unfold merge at h
    split at h
    · rename_i fresh
      obtain ⟨before, second, after, table, first, rfl, merged, clash⟩ := ih h
      refine ⟨d :: before, second, after, table, first, rfl, ?_, clash⟩
      simp only [merge, fresh, merged]
    · rename_i first found
      split at h
      · rename_i agree
        obtain ⟨before, second, after, table, other, rfl, merged, clash⟩ := ih h
        refine ⟨d :: before, second, after, table, other, rfl, ?_, clash⟩
        simp only [merge, found, agree, if_true, merged]
      · rename_i differ
        cases h
        exact ⟨[], d, rest, known, first, rfl, rfl, found, differ, rfl⟩

theorem agree_of_merge_ok (h : merge known declared = .ok table) : Agree declared := by
  obtain ⟨_, listed⟩ := find?_of_merge_ok h
  intro d declared e declared' same
  obtain ⟨first, found, type⟩ := listed d declared
  obtain ⟨first', found', type'⟩ := listed e declared'
  rw [same, found'] at found
  cases found
  exact type.symm.trans type'

theorem exists_merge_iff : (∃ table, merge [] declared = .ok table) ↔ Agree declared := by
  constructor
  · rintro ⟨table, merged⟩
    exact agree_of_merge_ok merged
  · intro agree
    cases merged : merge [] declared with
    | ok table => exact ⟨table, rfl⟩
    | error e =>
      obtain ⟨first, mem, second, mem', same, differ, _⟩ := conflict_of_merge_error merged
      exact absurd (agree first mem second mem' same) differ

theorem Ordered.nodup_names (ordered : Ordered table) : (table.map (·.name)).Nodup := by
  refine List.pairwise_map.mpr (ordered.imp ?_)
  intro d e below same
  rw [same] at below
  exact String.lt_irrefl _ below

theorem mem_names_iff {name : String} :
    name ∈ declared.map (·.name) ↔ (declared.find? (·.name = name)).isSome = true := by
  rw [List.find?_isSome, List.mem_map]
  simp

theorem firstOfEach_of_merge_ok (h : merge [] declared = .ok table) :
    FirstOfEach declared table := by
  have ordered := ordered_of_merge_ok h .nil
  refine ⟨fun name => ?_, ?_, ordered.nodup_names, fun d mem => ?_⟩
  · rw [mem_names_iff, mem_names_iff, find?_merge h, List.nil_append]
  · exact List.pairwise_map.mpr (ordered.imp Text.bytes_lt_of_lt)
  · rw [← find?_of_nodup_map ordered.nodup_names mem, find?_merge h, List.nil_append]

theorem firstClash_of_merge_error (h : merge [] declared = .error error) :
    ∃ first second, FirstClash declared first second ∧
      error = .conflictingUniform second.name first.type second.type := by
  obtain ⟨before, second, after, table, first, rfl, merged, found, differ, rfl⟩ :=
    split_of_merge_error h
  -- a declaration is first of its name already among those before the clash
  have extended {name : String} {e : UniformDeclaration}
      (here : before.find? (·.name = name) = some e) :
      (before ++ second :: after).find? (·.name = name) = some e := by
    rw [List.find?_append, here, Option.some_or]
  rw [find?_merge merged, List.nil_append] at found
  refine ⟨first, second, ⟨extended found, differ, before, after, rfl, ?_⟩, rfl⟩
  intro d mem e here
  obtain ⟨other, first_d⟩ := Option.isSome_iff_exists.mp
    (mem_names_iff.mp (List.mem_map_of_mem mem))
  cases (extended first_d).symm.trans here
  have named : e.name = d.name := by simpa using List.find?_some first_d
  exact agree_of_merge_ok merged e (List.mem_of_find?_eq_some first_d) d mem named

end UniformDeclaration

namespace UniformTable

variable {table : List UniformDeclaration} {d : UniformDeclaration}

/-- The handles of a table have the names of its declarations. -/
theorem map_name_allocate (table : List UniformDeclaration) (cells : Cells) :
    (allocate table cells).1.entries.map (·.name) = table.map (·.name) := by
  rw [allocate_eq]
  calc ((table.zipIdx cells.size).map fun entry => entry.1.handle entry.2).map (·.name)
      = ((table.zipIdx cells.size).map Prod.fst).map (·.name) := by
        rw [List.map_map, List.map_map]
        rfl
    _ = table.map (·.name) := by rw [List.zipIdx_map_fst]

/-- Once a table has its cells, the handle under a name has the type and the rule of the declaration
of the name and reads its initial value. -/
theorem find?_allocate (nodup : (table.map (·.name)).Nodup) (mem : d ∈ table) (cells : Cells) :
    ∃ u, (allocate table cells).1.find? d.name = some u ∧ u.type = d.type ∧ u.rule = d.rule ∧
      u.get (allocate table cells).2 = d.initial := by
  obtain ⟨k, at_k⟩ := List.getElem?_of_mem mem
  have entry : d.handle (cells.size + k) ∈ (allocate table cells).1.entries := by
    rw [allocate_eq]
    refine List.mem_map.mpr ⟨(d, cells.size + k), List.mem_of_getElem? (i := k) ?_, rfl⟩
    rw [List.getElem?_zipIdx, at_k]
    rfl
  rw [← map_name_allocate table cells] at nodup
  refine ⟨d.handle (cells.size + k), find?_of_nodup_map nodup entry, rfl, rfl, ?_⟩
  have value : (cells.values ++ (table.map (·.initial)).toArray)[cells.size + k]? =
      some d.initial := by
    rw [Cells.size, Array.getElem?_append_right (Nat.le_add_right _ _), Nat.add_sub_cancel_left,
      List.getElem?_toArray, List.getElem?_map, at_k]
    rfl
  rw [allocate_eq]
  simp only [Uniform.get, UniformDeclaration.handle, value, Option.getD_some]

end UniformTable

/-- The uniforms of a program can be merged exactly if every name has one type. The table then has
the first declaration of every name, in the order of the bytes of the names, and so do the handles
made from it. A refusal tells the first declaration that does not have the type of the first one of
its name, with both types. -/
theorem Program.uniforms_first_declarations (p : Program) :
    ((∃ table, p.uniforms = .ok table) ↔ UniformDeclaration.Agree p.declarations) ∧
    (∀ table, p.uniforms = .ok table →
      UniformDeclaration.FirstOfEach p.declarations table ∧
      ∀ cells, (UniformTable.allocate table cells).1.entries.map (·.name) = table.map (·.name) ∧
        ∀ d ∈ table, ∃ u, (UniformTable.allocate table cells).1.find? d.name = some u ∧
          u.type = d.type ∧ u.rule = d.rule ∧
          u.get (UniformTable.allocate table cells).2 = d.initial) ∧
    ∀ error, p.uniforms = .error error → ∃ first second,
      UniformDeclaration.FirstClash p.declarations first second ∧
      error = .conflictingUniform second.name first.type second.type := by
  refine ⟨UniformDeclaration.exists_merge_iff, fun table merged => ?_,
    fun error refused => UniformDeclaration.firstClash_of_merge_error refused⟩
  have firsts := UniformDeclaration.firstOfEach_of_merge_ok merged
  exact ⟨firsts, fun cells => ⟨UniformTable.map_name_allocate table cells,
    fun d mem => UniformTable.find?_allocate firsts.nodup mem cells⟩⟩

/-- A clock, and a node that asks for a scale and for a time of its own. -/
def Program.clocks (start : Value) : Program :=
  ⟨[(⟨0⟩, ⟨Library.time, []⟩),
    (⟨1⟩, ⟨{ name := "Pulse"
             uniforms := [⟨"u_scale", .float 2, .static⟩, ⟨timeUniform, start, .static⟩] }, []⟩)]⟩

/-- A time that starts later and stands still gives way to the clock; a time of another type is
refused. -/
theorem Program.uniforms_first_declarations_clocks :
    (∃ table u, (clocks (.float 5)).uniforms = .ok table ∧
      table.map (·.name) = ["u_scale", "u_time"] ∧
      (UniformTable.allocate table .empty).1.find? "u_time" = some u ∧ u.rule = .elapsed ∧
      u.get (UniformTable.allocate table .empty).2 = .float 0) ∧
    ∃ first second, (clocks (.color .white)).uniforms =
        .error (.conflictingUniform "u_time" .float .color) ∧
      UniformDeclaration.FirstClash (clocks (.color .white)).declarations first second ∧
      first.type = .float ∧ second.type = .color := by
  obtain ⟨_, merging, _⟩ := uniforms_first_declarations (clocks (.float 5))
  obtain ⟨_, _, refusing⟩ := uniforms_first_declarations (clocks (.color .white))
  have merged : (clocks (.float 5)).uniforms =
      .ok [⟨"u_scale", .float 2, .static⟩, Library.elapsedTime] := by cbv
  have refused : (clocks (.color .white)).uniforms =
      .error (.conflictingUniform "u_time" .float .color) := by cbv
  constructor
  · obtain ⟨_, handles⟩ := merging _ merged
    obtain ⟨u, found, _, rule, value⟩ := (handles .empty).2 Library.elapsedTime (by simp)
    exact ⟨_, u, merged, rfl, found, rule, value⟩
  · obtain ⟨first, second, clash, same⟩ := refusing _ refused
    injection same with _ type type'
    exact ⟨first, second, refused, clash, type.symm, type'.symm⟩

end ParticleShading
