import ParticleShading.Proofs.Shader.Stages

/-!
# Storage behind handles

Sets and advances are kept in a log. A handle reads the initial value of its
cell with the writes to that cell applied in their order, whatever is written
through other handles and whatever uniforms are made in between. Every uniform
of a compilation gets a cell of its own.
-/

namespace ParticleShading

/-- What can be done through a handle. -/
inductive UniformOp where
  | set (value : Value)
  | advance (delta : Single)

structure Write where
  uniform : Uniform
  op : UniformOp

namespace Uniform

variable {u v : Uniform} {cells after : Cells}

/-- Handles to one cell read alike. -/
theorem get_congr (same : u.cell = v.cell) (inside : u.cell < cells.size) :
    u.get cells = v.get cells := by
  have inside' : u.cell < cells.values.size := inside
  simp only [get, ← same, Array.getElem?_eq_getElem inside', Option.getD_some]

/-- A handle to another cell sees no new value. -/
theorem get_set_of_ne {value : Value} (apart : ¬ u.sharesStorage v)
    (done : u.set value cells = .ok after) : v.get after = v.get cells := by
  have apart : u.cell ≠ v.cell := by simpa [sharesStorage] using apart
  unfold set at done
  split at done
  · cases done
  · cases done
    simp [get, Array.getElem?_setIfInBounds_ne apart]

end Uniform

namespace Write

/-- What a write does to the cells; a value that does not fit is refused. -/
def run (w : Write) (cells : Cells) : Cells :=
  match w.op with
  | .set value =>
    match w.uniform.set value cells with
    | .ok after => after
    | .error _ => cells
  | .advance delta => w.uniform.advance delta cells

/-- What a write makes of the value in its cell. -/
def apply (w : Write) (value : Value) : Value :=
  match w.op with
  | .set next => (next.coerce? w.uniform.type).getD value
  | .advance delta => w.uniform.rule.apply value delta

/-- An initial value with the writes to the storage of a handle applied in order. -/
def replay (u : Uniform) (initial : Value) (log : List Write) : Value :=
  (log.filter (·.uniform.sharesStorage u)).foldl (fun value w => w.apply value) initial

variable {w : Write} {u : Uniform} {cells : Cells} {log : List Write} {initial : Value}

theorem size_run (w : Write) (cells : Cells) : (w.run cells).size = cells.size := by
  unfold run
  split
  · rename_i value _
    cases fits : value.coerce? w.uniform.type with
    | none => simp [Uniform.set, fits]
    | some coerced => simp [Uniform.set, fits, Cells.size]
  · simp [Uniform.advance, Cells.size]

theorem get_run (inside : w.uniform.cell < cells.size) (u : Uniform) :
    u.get (w.run cells) =
      if w.uniform.sharesStorage u then w.apply (u.get cells) else u.get cells := by
  obtain ⟨v, op⟩ := w
  by_cases shared : v.sharesStorage u = true
  · have same : v.cell = u.cell := by simpa [Uniform.sharesStorage] using shared
    rw [if_pos shared, ← Uniform.get_congr same inside,
      ← Uniform.get_congr same (Nat.lt_of_lt_of_eq inside (size_run _ cells).symm)]
    cases op with
    | set value =>
      cases fits : value.coerce? v.type with
      | none => simp [run, apply, Uniform.set, fits]
      | some coerced =>
        have done : v.set value cells = .ok ⟨cells.values.setIfInBounds v.cell coerced⟩ := by
          simp [Uniform.set, fits]
        simp only [run, apply, done, fits, Option.getD_some]
        exact Uniform.get_set inside done fits
    | advance delta => exact Uniform.get_advance delta inside
  · rw [if_neg shared]
    cases op with
    | set value =>
      cases done : v.set value cells with
      | error e => simp [run, done]
      | ok after =>
        simp only [run, done]
        exact Uniform.get_set_of_ne shared done
    | advance delta => exact Uniform.get_advance_of_ne shared delta cells

theorem replay_append (w : Write) :
    replay u initial (log ++ [w]) =
      if w.uniform.sharesStorage u then w.apply (replay u initial log)
      else replay u initial log := by
  unfold replay
  rw [List.filter_append, List.foldl_append]
  by_cases shared : w.uniform.sharesStorage u = true <;> simp [shared]

/-- Writes to other cells do not count. -/
theorem replay_of_forall (apart : ∀ w ∈ log, w.uniform.cell ≠ u.cell) :
    replay u initial log = initial := by
  have none : log.filter (·.uniform.sharesStorage u) = [] := by
    refine List.filter_eq_nil_iff.mpr fun w mem => ?_
    simpa [Uniform.sharesStorage] using apart w mem
  rw [replay, none]
  rfl

end Write

/-- Cells with the log of all writes to them, the oldest first. -/
structure Ledger where
  cells : Cells
  log : List Write

namespace Ledger

def write (l : Ledger) (w : Write) : Ledger := ⟨w.run l.cells, l.log ++ [w]⟩

/-- A later state of a ledger, reached by writes through handles. -/
inductive Writes (l : Ledger) : Ledger → Prop where
  | refl : Writes l l
  | write {middle : Ledger} {w : Write} (before : Writes l middle)
      (inside : w.uniform.cell < middle.cells.size) : Writes l (middle.write w)

variable {l middle after : Ledger} {origins : List (Nat × UniformDeclaration)}

theorem Writes.trans (first : l.Writes middle) (second : middle.Writes after) : l.Writes after := by
  induction second with
  | refl => exact first
  | write _ inside ih => exact .write ih inside

theorem Writes.size (h : l.Writes after) : after.cells.size = l.cells.size := by
  induction h with
  | refl => rfl
  | write _ _ ih => exact (Write.size_run _ _).trans ih

theorem Writes.log_prefix (h : l.Writes after) : l.log <+: after.log := by
  induction h with
  | refl => exact List.prefix_rfl
  | write _ _ ih => exact ih.trans (List.prefix_append _ _)

/-- All uniforms of a table are advanced one after another. -/
theorem writes_advance {entries : List Uniform} (delta : Single)
    (inside : ∀ u ∈ entries, u.cell < l.cells.size) :
    l.Writes ⟨(UniformTable.mk entries).advance delta l.cells,
      l.log ++ entries.map fun u => ⟨u, .advance delta⟩⟩ := by
  induction entries generalizing l with
  | nil =>
    rw [List.map_nil, List.append_nil]
    exact .refl
  | cons u rest ih =>
    have first : l.Writes (l.write ⟨u, .advance delta⟩) :=
      .write .refl (inside u List.mem_cons_self)
    have later := ih (l := l.write ⟨u, .advance delta⟩) fun v mem => by
      rw [first.size]
      exact inside v (List.mem_cons_of_mem _ mem)
    have both := first.trans later
    simp only [Ledger.write, List.append_assoc, List.singleton_append] at both
    exact both

/-- The declaration behind every cell is known, with the number of the call that made the cell; the
log accounts for every value. -/
structure Accurate (l : Ledger) (origins : List (Nat × UniformDeclaration)) : Prop where
  size : l.cells.size = origins.length
  inside : ∀ w ∈ l.log, w.uniform.cell < origins.length
  value : ∀ (u : Uniform) n d, origins[u.cell]? = some (n, d) →
    u.get l.cells = Write.replay u d.initial l.log

theorem Accurate.write {w : Write} (accurate : l.Accurate origins)
    (inside : w.uniform.cell < l.cells.size) : (l.write w).Accurate origins := by
  refine ⟨(Write.size_run w l.cells).trans accurate.size, ?_, ?_⟩
  · intro other mem
    rcases List.mem_append.mp mem with older | latest
    · exact accurate.inside other older
    · cases List.mem_singleton.mp latest
      rw [← accurate.size]
      exact inside
  · intro u n d origin
    have before := accurate.value u n d origin
    simp only [Ledger.write, Write.get_run inside u, Write.replay_append, before]

theorem Accurate.writes (accurate : l.Accurate origins) (h : l.Writes after) :
    after.Accurate origins := by
  induction h with
  | refl => exact accurate
  | write _ inside ih => exact ih.write inside

/-- Fresh cells take nothing from the log, and the others are as before. -/
theorem Accurate.extend (accurate : l.Accurate origins) (n : Nat)
    (declared : List UniformDeclaration) :
    Accurate ⟨⟨l.cells.values ++ (declared.map (·.initial)).toArray⟩, l.log⟩
      (origins ++ declared.map (Prod.mk n)) := by
  have size : l.cells.values.size = origins.length := accurate.size
  refine ⟨by simp [Cells.size, size], ?_, ?_⟩
  · intro w mem
    have := accurate.inside w mem
    rw [List.length_append]
    omega
  · intro u m d origin
    rw [List.getElem?_append] at origin
    split at origin
    · rename_i older
      have same : (l.cells.values ++ (declared.map (·.initial)).toArray)[u.cell]? =
          l.cells.values[u.cell]? := Array.getElem?_append_left (by omega)
      rw [← accurate.value u m d origin]
      simp only [Uniform.get, same]
    · rename_i fresh
      rw [List.getElem?_map, Option.map_eq_some_iff] at origin
      obtain ⟨e, here, same⟩ := origin
      cases same
      have value : (l.cells.values ++ (declared.map (·.initial)).toArray)[u.cell]? =
          some d.initial := by
        rw [Array.getElem?_append_right (by omega), List.getElem?_toArray, List.getElem?_map, size,
          here]
        rfl
      rw [Write.replay_of_forall]
      · simp only [Uniform.get, value, Option.getD_some]
      · intro w mem
        have := accurate.inside w mem
        omega

end Ledger

/-! ## Fresh cells -/

/-- The handle of a declaration to a cell. -/
def UniformDeclaration.handle (d : UniformDeclaration) (cell : Nat) : Uniform :=
  ⟨d.name, d.type, cell, d.rule⟩

theorem Uniform.allocate_eq (d : UniformDeclaration) (cells : Cells) :
    Uniform.allocate d cells =
      (d.handle cells.size, ⟨cells.values ++ ([d].map (·.initial)).toArray⟩) := by
  simp [Uniform.allocate, UniformDeclaration.handle]

/-- A table takes consecutive fresh cells. -/
theorem UniformTable.allocate_eq (declared : List UniformDeclaration) (cells : Cells) :
    UniformTable.allocate declared cells =
      (⟨(declared.zipIdx cells.size).map fun entry => entry.1.handle entry.2⟩,
        ⟨cells.values ++ (declared.map (·.initial)).toArray⟩) := by
  induction declared generalizing cells with
  | nil => simp [allocate]
  | cons d rest ih =>
    simp only [allocate, Uniform.allocate_eq, ih]
    simp [Cells.size]

/-- In a table ordered by name a name tells the position. -/
theorem UniformDeclaration.Ordered.eq_of_name {table : List UniformDeclaration} {i j : Nat}
    {d e : UniformDeclaration} (ordered : Ordered table) (at_i : table[i]? = some d)
    (at_j : table[j]? = some e) (same : d.name = e.name) : i = j := by
  have distinct : (table.map (·.name)).Nodup := by
    refine List.pairwise_map.mpr (ordered.imp ?_)
    intro first second below equal
    rw [equal] at below
    exact String.lt_irrefl _ below
  have inside : i < (table.map (·.name)).length := by
    rw [List.length_map]
    exact (List.getElem?_eq_some_iff.mp at_i).1
  refine (List.getElem?_inj inside distinct).mp ?_
  simp only [List.getElem?_map, at_i, at_j, Option.map_some, same]

/-- What compiles has no two uniforms of one name. -/
theorem Graph.uniforms_ordered {g : Graph} {config : CompilerConfig} {root : NodeId}
    {shader : CompiledShader} (h : g.compile config root = .ok shader) :
    UniformDeclaration.Ordered shader.uniforms := by
  obtain ⟨nodes, _, compiled⟩ := compile_eq_ok h
  exact (CompiledShader.interface compiled).ordered

end ParticleShading
