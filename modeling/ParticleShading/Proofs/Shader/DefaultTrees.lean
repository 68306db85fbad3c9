import ParticleShading.Proofs.Shader.Fallbacks

/-!
# Default trees

The nodes behind open inputs, tree by tree. `Definition.fillers` lists the
definitions whose trees fill open inputs, `Definition.plant` puts their trees
one behind another, and `Definition.treeSize` counts the nodes of a tree from
its definition alone. The layout of `Definition.supply` is of this form, so what
feeds an input stands at an offset that depends only on the inputs before it.
-/

namespace ParticleShading

/-! ## Trees one behind another -/

namespace Definition

/-- The definition whose tree fills an input, if the input is open and has such a fallback. -/
def filler? (input : Input Definition) : Option Binding → Option Definition
  | some _ => none
  | none =>
    match input.fallback with
    | some (.node d) => some d
    | _ => none

/-- The definitions whose trees fill open inputs, in the order of the inputs. -/
def fillers : List (Input Definition) → List (Option Binding) → List Definition
  | [], _ => []
  | input :: rest, given => (filler? input given.head?.join).toList ++ fillers rest given.tail

mutual

/-- The number of nodes behind inputs that are all open. -/
def fallbackSize : List (Input Definition) → Nat
  | [] => 0
  | ⟨_, _, fallback⟩ :: rest =>
    let first := match fallback with
      | some (.node d) => treeSize d
      | _ => 0
    first + fallbackSize rest

/-- The number of nodes in the tree of a definition. -/
def treeSize : Definition → Nat
  | ⟨_, inputs, _, _, _, _, _⟩ => fallbackSize inputs + 1

end

/-- The number of nodes in some trees. -/
def totalSize : List Definition → Nat
  | [] => 0
  | d :: rest => d.treeSize + totalSize rest

/-- Trees from a slot on, one behind another. -/
def plant (start : Nat) : List Definition → List Node
  | [] => []
  | d :: rest => d.tree start ++ plant (start + (d.tree start).length) rest

variable {start : Nat} {owner : String} {input : Input Definition} {d : Definition}
variable {inputs : List (Input Definition)} {given raw : List (Option Binding)}

theorem totalSize_append (ds later : List Definition) :
    totalSize (ds ++ later) = totalSize ds + totalSize later := by
  induction ds with
  | nil => rw [List.nil_append, totalSize, Nat.zero_add]
  | cons d rest ih => rw [List.cons_append, totalSize, totalSize, ih, Nat.add_assoc]

theorem fallbackSize_eq (inputs : List (Input Definition)) :
    fallbackSize inputs = totalSize (fillers inputs []) := by
  induction inputs with
  | nil =>
    rw [fallbackSize]
    rfl
  | cons input rest ih =>
    obtain ⟨name, type, fallback⟩ := input
    rw [fallbackSize.eq_def, fillers, totalSize_append, List.tail_nil, ← ih]
    rcases fallback with _ | value | source | d <;> simp [filler?, totalSize]

theorem treeSize_eq (d : Definition) : d.treeSize = totalSize (fillers d.inputs []) + 1 := by
  cases d
  rw [treeSize, fallbackSize_eq]

theorem filler?_eq_some {given : Option Binding} :
    filler? input given = some d ↔ given = none ∧ input.fallback = some (.node d) := by
  obtain ⟨name, type, fallback⟩ := input
  cases given with
  | some binding => simp [filler?]
  | none => rcases fallback with _ | value | source | inner <;> simp [filler?]

theorem mem_fillers (mem : d ∈ fillers inputs given) :
    ∃ (k : Nat) (input : Input Definition), inputs[k]? = some input ∧ given[k]?.join = none ∧
      input.fallback = some (.node d) := by
  induction inputs generalizing given with
  | nil => cases mem
  | cons first rest ih =>
    rcases List.mem_append.mp mem with here | later
    · obtain ⟨free, fallback⟩ := filler?_eq_some.mp (Option.mem_toList.mp here)
      exact ⟨0, first, rfl, by rwa [← List.head?_eq_getElem?], fallback⟩
    · obtain ⟨k, input, at_k, free, fallback⟩ := ih later
      exact ⟨k + 1, input, at_k, by rwa [← List.getElem?_tail], fallback⟩

/-- The trees of the inputs before an open input come before the tree of that input. -/
theorem exists_fillers_append {k : Nat} (at_k : inputs[k]? = some input)
    (free : given[k]?.join = none) (fallback : input.fallback = some (.node d)) :
    ∃ later, fillers inputs given = fillers (inputs.take k) given ++ d :: later := by
  induction inputs generalizing given k with
  | nil => cases at_k
  | cons first rest ih =>
    cases k with
    | zero =>
      cases at_k
      rw [← List.head?_eq_getElem?] at free
      rw [fillers, filler?_eq_some.mpr ⟨free, fallback⟩]
      exact ⟨_, rfl⟩
    | succ k =>
      rw [← List.getElem?_tail] at free
      obtain ⟨later, split⟩ := ih at_k free
      refine ⟨later, ?_⟩
      rw [List.take_succ_cons, fillers, fillers, split, List.append_assoc]

/-- What fills an open input has inputs that can be filled. -/
theorem Supplied.checkOpen_filler (supplied : Supplied owner inputs given)
    (mem : d ∈ fillers inputs given) : checkOpen d.name d.inputs = .ok () := by
  obtain ⟨k, input, at_k, free, fallback⟩ := mem_fillers mem
  have passed := supplied k input at_k free
  rw [checkFallback, fallback] at passed
  obtain ⟨_, _, inner⟩ := bind_eq_ok_iff.mp passed
  exact inner

/-- Only what is open decides which trees there are. -/
theorem fillers_congr
    (same : ∀ (k : Nat) (input : Input Definition), inputs[k]? = some input →
      (raw[k]?.join = none ↔ given[k]?.join = none)) :
    fillers inputs raw = fillers inputs given := by
  induction inputs generalizing raw given with
  | nil => rfl
  | cons first rest ih =>
    have later : fillers rest raw.tail = fillers rest given.tail := by
      apply ih
      intro k input at_k
      rw [List.getElem?_tail, List.getElem?_tail]
      exact same (k + 1) input at_k
    have here := same 0 first rfl
    rw [← List.head?_eq_getElem?, ← List.head?_eq_getElem?] at here
    have filled : filler? first raw.head?.join = filler? first given.head?.join := by
      apply Option.ext
      intro d
      rw [filler?_eq_some, filler?_eq_some, here]
    rw [fillers, fillers, filled, later]

/-! ## The layout by trees -/

theorem supplyOne_fst (start : Nat) (input : Input Definition) (given : Option Binding) :
    (supplyOne start input given).1 = plant start (filler? input given).toList := by
  obtain ⟨name, type, fallback⟩ := input
  cases given with
  | some binding => rfl
  | none => rcases fallback with _ | value | source | d <;> simp [supplyOne, filler?, plant]

theorem plant_append (start : Nat) (ds later : List Definition) :
    plant start (ds ++ later) =
      plant start ds ++ plant (start + (plant start ds).length) later := by
  induction ds generalizing start with
  | nil => rfl
  | cons d rest ih =>
    rw [List.cons_append, plant, ih, plant, List.append_assoc, List.length_append, Nat.add_assoc]

/-- The fresh nodes are the trees behind the open inputs. -/
theorem supply_fst (start : Nat) (inputs : List (Input Definition))
    (given : List (Option Binding)) :
    (supply start inputs given).1 = plant start (fillers inputs given) := by
  induction inputs generalizing start given with
  | nil =>
    rw [supply_nil]
    rfl
  | cons input rest ih =>
    rw [supply_cons, fillers, plant_append, ← supplyOne_fst]
    exact congrArg _ (ih ..)

theorem length_plant_of_forall {ds : List Definition}
    (sized : ∀ d ∈ ds, ∀ start, (d.tree start).length = d.treeSize) (start : Nat) :
    (plant start ds).length = totalSize ds := by
  induction ds generalizing start with
  | nil => rfl
  | cons d rest ih =>
    rw [List.forall_mem_cons] at sized
    rw [plant, List.length_append, ih sized.2, sized.1]
    simp [totalSize]

theorem length_tree (start : Nat) (d : Definition) : (d.tree start).length = d.treeSize := by
  induction d using nested_induction generalizing start with
  | step d nested =>
    have sized : ∀ inner ∈ fillers d.inputs [], ∀ start,
        (inner.tree start).length = inner.treeSize := by
      intro inner mem start
      obtain ⟨k, input, at_k, _, fallback⟩ := mem_fillers mem
      exact nested input (List.mem_of_getElem? at_k) inner fallback start
    rw [tree_eq, List.length_append, supply_fst, length_plant_of_forall sized, treeSize_eq]
    rfl

theorem length_plant (start : Nat) (ds : List Definition) :
    (plant start ds).length = totalSize ds :=
  length_plant_of_forall (fun d _ start => length_tree start d) start

/-- The tree of an open input stands behind the trees of the inputs before it. -/
theorem tree_of_plant {k : Nat} (at_k : inputs[k]? = some input) (free : given[k]?.join = none)
    (fallback : input.fallback = some (.node d)) :
    ((plant start (fillers inputs given)).drop (totalSize (fillers (inputs.take k) given))).take
        d.treeSize = d.tree (start + totalSize (fillers (inputs.take k) given)) := by
  obtain ⟨later, split⟩ := exists_fillers_append at_k free fallback
  rw [split, plant_append, length_plant, List.drop_left' (length_plant ..), plant,
    List.take_left' (length_tree ..)]

/-- An input is fed from behind the trees of the inputs before it. -/
theorem getElem?_supply {k : Nat} (at_k : inputs[k]? = some input) :
    (supply start inputs given).2[k]? =
      some (supplyOne (start + totalSize (fillers (inputs.take k) given)) input
        given[k]?.join).2 := by
  induction inputs generalizing start given k with
  | nil => cases at_k
  | cons first rest ih =>
    rw [supply_cons]
    dsimp only
    rw [supplyOne_fst, length_plant]
    cases k with
    | zero =>
      cases at_k
      rw [List.getElem?_cons_zero, List.head?_eq_getElem?]
      rfl
    | succ k =>
      rw [List.getElem?_cons_succ, ih at_k, List.getElem?_tail, Nat.add_assoc,
        ← totalSize_append, List.take_succ_cons, fillers]

end Definition

end ParticleShading
