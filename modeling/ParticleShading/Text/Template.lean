/-!
# Templates

A template is plain text with placeholders `{name}`. A brace that opens no
placeholder is plain text, and the text put in for a name is never read again.
-/

namespace ParticleShading.Text

inductive Segment where
  | plain (text : List Char)
  | hole (name : List Char)
  deriving DecidableEq

/-- The text that a segment was cut from. -/
def Segment.text : Segment → List Char
  | .plain text => text
  | .hole name => '\x7b' :: name ++ ['\x7d']

/-- Cuts a text at the first occurrence of a character, which belongs to
neither part. -/
def cut? (mark : Char) : List Char → Option (List Char × List Char)
  | [] => none
  | c :: cs =>
    if c = mark then some ([], cs)
    else (cut? mark cs).map fun (before, after) => (c :: before, after)

theorem length_of_cut? {mark : Char} {cs before after : List Char}
    (h : cut? mark cs = some (before, after)) :
    cs.length = before.length + after.length + 1 := by
  induction cs generalizing before with
  | nil => simp [cut?] at h
  | cons c cs ih =>
    unfold cut? at h
    split at h
    · simp only [Option.some.injEq, Prod.mk.injEq] at h
      obtain ⟨rfl, rfl⟩ := h
      simp
    · simp only [Option.map_eq_some_iff, Prod.mk.injEq, Prod.exists] at h
      obtain ⟨b, a, hba, rfl, rfl⟩ := h
      simp only [List.length_cons, ih hba]
      omega

theorem append_of_cut? {mark : Char} {cs before after : List Char}
    (h : cut? mark cs = some (before, after)) : cs = before ++ mark :: after := by
  induction cs generalizing before with
  | nil => simp [cut?] at h
  | cons c cs ih =>
    unfold cut? at h
    split at h
    · rename_i hc
      simp only [Option.some.injEq, Prod.mk.injEq] at h
      obtain ⟨rfl, rfl⟩ := h
      simp [hc]
    · simp only [Option.map_eq_some_iff, Prod.mk.injEq, Prod.exists] at h
      obtain ⟨b, a, hba, rfl, rfl⟩ := h
      rw [ih hba, List.cons_append]

/-- The segments of a template. A placeholder runs from an opening brace to the
first closing brace after it. -/
def segments (cs : List Char) : List Segment :=
  match _hopen : cut? '\x7b' cs with
  | none => [.plain cs]
  | some (before, after) =>
    match _hclose : cut? '\x7d' after with
    | none => [.plain cs]
    | some (name, rest) => .plain before :: .hole name :: segments rest
termination_by cs.length
decreasing_by
  have := length_of_cut? _hopen
  have := length_of_cut? _hclose
  omega

/-- Nothing of a template is lost in its segments. -/
theorem flatMap_text_segments (cs : List Char) : (segments cs).flatMap Segment.text = cs := by
  fun_induction segments cs with
  | case1 => simp [Segment.text]
  | case2 => simp [Segment.text]
  | case3 cs before after hopen name rest hclose ih =>
    rw [append_of_cut? hopen, append_of_cut? hclose]
    simp [Segment.text, ih]

/-- Puts a text for every name; the first name without one decides the error. -/
def fill {ε : Type} (resolve : String → Except ε String) : List Segment → Except ε String
  | [] => .ok ""
  | .plain text :: rest => do
    let tail ← fill resolve rest
    return String.ofList text ++ tail
  | .hole name :: rest => do
    let value ← resolve (String.ofList name)
    let tail ← fill resolve rest
    return value ++ tail

/-- Renders a template. -/
def render {ε : Type} (resolve : String → Except ε String) (template : String) :
    Except ε String :=
  fill resolve (segments template.toList)

end ParticleShading.Text
