import ParticleShading.Proofs.Shader.Compilation
import Mathlib.Data.List.Forall2

/-!
# Placeholders

What a template says, apart from the scan that reads it. `Splits` takes it apart
from left to right: plain text up to a brace that is closed later, the name up
to the first closing brace, and so on, until no opening brace is closed. Every
template splits in one way. A rendered template is its plain texts with a text
for every name between them, and the error of a template is that of its first
name without a text.
-/

namespace ParticleShading.Text

/-- A name in braces with the plain text before it. -/
structure Placeholder where
  plain : List Char
  name : List Char

/-- No opening brace has a closing one behind it. -/
def Unpaired (text : List Char) : Prop :=
  ∀ before after, text = before ++ '\x7b' :: after → '\x7d' ∉ after

/-- A text taken apart from left to right, into placeholders and the text behind the last one. -/
inductive Splits : List Char → List Placeholder → List Char → Prop where
  | rest {tail : List Char} (unpaired : Unpaired tail) : Splits tail [] tail
  | next {plain name later tail : List Char} {parts : List Placeholder}
      (unopened : '\x7b' ∉ plain) (unclosed : '\x7d' ∉ name) (splits : Splits later parts tail) :
    Splits (plain ++ '\x7b' :: (name ++ '\x7d' :: later)) (⟨plain, name⟩ :: parts) tail

/-! ## The scan -/

theorem cut?_eq_none_iff {mark : Char} {text : List Char} :
    cut? mark text = none ↔ mark ∉ text := by
  induction text with
  | nil => simp [cut?]
  | cons c rest ih =>
    by_cases here : c = mark
    · simp [cut?, here]
    · simp [cut?, here, ih, Ne.symm here]

theorem cut?_append {mark : Char} {before after : List Char} (first : mark ∉ before) :
    cut? mark (before ++ mark :: after) = some (before, after) := by
  induction before with
  | nil => simp [cut?]
  | cons c rest ih =>
    rw [List.mem_cons, not_or] at first
    simp [cut?, Ne.symm first.1, ih first.2]

theorem not_mem_of_cut? {mark : Char} {text before after : List Char}
    (h : cut? mark text = some (before, after)) : mark ∉ before := by
  induction text generalizing before with
  | nil => cases h
  | cons c rest ih =>
    rw [cut?] at h
    split at h
    · cases h
      exact List.not_mem_nil
    · rename_i apart
      obtain ⟨⟨inner, _⟩, cut, same⟩ := Option.map_eq_some_iff.mp h
      cases same
      exact List.not_mem_cons_of_ne_of_not_mem (Ne.symm apart) (ih cut)

/-- The segments of placeholders and of the text behind them. -/
def layout : List Placeholder → List Char → List Segment
  | [], tail => [.plain tail]
  | p :: parts, tail => .plain p.plain :: .hole p.name :: layout parts tail

theorem layout_inj {parts parts' : List Placeholder} {tail tail' : List Char}
    (h : layout parts tail = layout parts' tail') : parts = parts' ∧ tail = tail' := by
  induction parts generalizing parts' with
  | nil =>
    cases parts' with
    | nil => simpa [layout] using h
    | cons p' parts' => simp [layout] at h
  | cons p parts ih =>
    cases parts' with
    | nil => simp [layout] at h
    | cons p' parts' =>
      simp only [layout, List.cons.injEq, Segment.plain.injEq, Segment.hole.injEq] at h
      obtain ⟨plain, name, later⟩ := h
      obtain ⟨rfl, rfl⟩ := ih later
      obtain ⟨_, _⟩ := p
      obtain ⟨_, _⟩ := p'
      exact ⟨congrArg (· :: parts) (congrArg₂ Placeholder.mk plain name), rfl⟩

/-- The scan finds the placeholders of any split. -/
theorem Splits.segments_eq {text tail : List Char} {parts : List Placeholder}
    (splits : Splits text parts tail) : segments text = layout parts tail := by
  induction splits with
  | @rest tail unpaired =>
    rw [segments]
    split
    · rfl
    · rename_i before after opened
      have closed := cut?_eq_none_iff.mpr (unpaired before after (append_of_cut? opened))
      split
      · rfl
      · rename_i found
        cases closed.symm.trans found
  | @next plain name later tail parts unopened unclosed splits ih =>
    have opened := @cut?_append _ _ (name ++ '\x7d' :: later) unopened
    have closed := @cut?_append _ _ later unclosed
    rw [segments]
    split
    · rename_i none
      cases opened.symm.trans none
    · rename_i found
      cases opened.symm.trans found
      split
      · rename_i none
        cases closed.symm.trans none
      · rename_i found
        cases closed.symm.trans found
        rw [ih, layout]

/-- If the first opening brace is not closed, then no other is. -/
theorem unpaired_of_cut? {text before after : List Char}
    (opened : cut? '\x7b' text = some (before, after)) (unclosed : '\x7d' ∉ after) :
    Unpaired text := by
  intro before' after' split
  rw [append_of_cut? opened] at split
  rcases List.append_eq_append_iff.mp split with ⟨between, rfl, later⟩ | ⟨between, rfl, later⟩
  · -- the other brace is the first one, or it stands behind it
    rcases List.cons_eq_append_iff.mp later with ⟨rfl, same⟩ | ⟨between, rfl, rfl⟩
    · cases same
      exact unclosed
    · exact fun mem => unclosed (by simp [mem])
  · rcases List.cons_eq_append_iff.mp later with ⟨rfl, same⟩ | ⟨between, rfl, _⟩
    · cases same
      exact unclosed
    · exact absurd (not_mem_of_cut? opened) (by simp)

theorem exists_splits (text : List Char) : ∃ parts tail, Splits text parts tail := by
  fun_induction segments text with
  | case1 text unopened =>
    refine ⟨[], text, .rest ?_⟩
    rintro before after rfl
    exact absurd (cut?_eq_none_iff.mp unopened) (by simp)
  | case2 text before after opened unclosed =>
    exact ⟨[], text, .rest (unpaired_of_cut? opened (cut?_eq_none_iff.mp unclosed))⟩
  | case3 text before after opened name rest closed ih =>
    obtain ⟨parts, tail, splits⟩ := ih
    rw [append_of_cut? opened, append_of_cut? closed]
    exact ⟨_, tail, .next (not_mem_of_cut? opened) (not_mem_of_cut? closed) splits⟩

theorem Splits.unique {text tail tail' : List Char} {parts parts' : List Placeholder}
    (splits : Splits text parts tail) (splits' : Splits text parts' tail') :
    parts = parts' ∧ tail = tail' :=
  layout_inj (splits.segments_eq.symm.trans splits'.segments_eq)

/-! ## Rendered text -/

/-- Plain texts with a text for every name between them. -/
def written : List Placeholder → List String → List Char → String
  | p :: parts, value :: values, tail =>
    String.ofList p.plain ++ value ++ written parts values tail
  | _, _, tail => String.ofList tail

section Fill

variable {ε : Type} {resolve : String → Except ε String} {parts : List Placeholder}
variable {p : Placeholder} {tail : List Char} {text : String} {error : ε}

theorem fill_cons_ok_iff : fill resolve (layout (p :: parts) tail) = .ok text ↔
    ∃ value later, resolve (String.ofList p.name) = .ok value ∧
      fill resolve (layout parts tail) = .ok later ∧
      text = String.ofList p.plain ++ value ++ later := by
  rw [layout, fill, bind_eq_ok_iff]
  constructor
  · rintro ⟨_, holed, same⟩
    cases same
    obtain ⟨value, resolved, rest⟩ := bind_eq_ok_iff.mp holed
    obtain ⟨later, filled, same⟩ := bind_eq_ok_iff.mp rest
    cases same
    exact ⟨value, later, resolved, filled, (String.append_assoc ..).symm⟩
  · rintro ⟨value, later, resolved, filled, rfl⟩
    refine ⟨value ++ later, bind_eq_ok_iff.mpr ⟨value, resolved, ?_⟩, ?_⟩
    · exact bind_eq_ok_iff.mpr ⟨later, filled, rfl⟩
    · exact congrArg Except.ok (String.append_assoc ..).symm

theorem fill_cons_error_iff : fill resolve (layout (p :: parts) tail) = .error error ↔
    resolve (String.ofList p.name) = .error error ∨
      ∃ value, resolve (String.ofList p.name) = .ok value ∧
        fill resolve (layout parts tail) = .error error := by
  rw [layout, fill, bind_eq_error_iff, fill, bind_eq_error_iff]
  simp only [bind_eq_error_iff, pure, Except.pure, reduceCtorEq, and_false, exists_const, or_false]

/-- All names have texts, and they stand between the plain texts. -/
theorem fill_layout_ok_iff : fill resolve (layout parts tail) = .ok text ↔
    ∃ values, List.Forall₂ (fun p value => resolve (String.ofList p.name) = .ok value) parts
      values ∧ text = written parts values tail := by
  induction parts generalizing text with
  | nil => simp [layout, fill, written, bind, Except.bind, pure, Except.pure, eq_comm]
  | cons p parts ih =>
    rw [fill_cons_ok_iff]
    constructor
    · rintro ⟨value, later, resolved, filled, rfl⟩
      obtain ⟨values, all, rfl⟩ := ih.mp filled
      exact ⟨value :: values, .cons resolved all, rfl⟩
    · rintro ⟨_, all, rfl⟩
      cases all with
      | @cons _ value _ values resolved all =>
        exact ⟨value, _, resolved, ih.mpr ⟨values, all, rfl⟩, rfl⟩

/-- The first name without a text decides the error. -/
theorem fill_layout_error_iff : fill resolve (layout parts tail) = .error error ↔
    ∃ before p after, parts = before ++ p :: after ∧
      (∀ q ∈ before, ∃ value, resolve (String.ofList q.name) = .ok value) ∧
      resolve (String.ofList p.name) = .error error := by
  induction parts with
  | nil => simp [layout, fill]
  | cons p parts ih =>
    rw [fill_cons_error_iff, ih]
    constructor
    · rintro (refused | ⟨value, resolved, before, q, after, rfl, earlier, refused⟩)
      · exact ⟨[], p, parts, rfl, by simp, refused⟩
      · exact ⟨p :: before, q, after, rfl, List.forall_mem_cons.mpr ⟨⟨value, resolved⟩, earlier⟩,
          refused⟩
    · rintro ⟨before, q, after, split, earlier, refused⟩
      cases before with
      | nil =>
        cases split
        exact Or.inl refused
      | cons first before =>
        cases split
        obtain ⟨⟨value, resolved⟩, earlier⟩ := List.forall_mem_cons.mp earlier
        exact Or.inr ⟨value, resolved, before, q, after, rfl, earlier, refused⟩

end Fill

/-- A name in its braces. -/
def braced (name : String) : String := "\x7b" ++ name ++ "\x7d"

/-- With every name put back in its braces a template is written as it was. -/
theorem Splits.written_braced {text tail : List Char} {parts : List Placeholder}
    (splits : Splits text parts tail) :
    written parts (parts.map fun p => braced (String.ofList p.name)) tail = String.ofList text := by
  induction splits with
  | rest => rfl
  | next _ _ _ ih =>
    rw [List.map_cons, written, ih, ← String.toList_inj]
    simp [braced]

/-- A template splits in one way. It is rendered as its plain texts with the text of every name
between them, and these texts are not read again; if names have no text, the first of them decides
the error. If the text of a name is the name in its braces, every template is rendered as itself. -/
theorem render_splits (template : String) :
    ∃ parts tail, Splits template.toList parts tail ∧
      (∀ parts' tail', Splits template.toList parts' tail' → parts' = parts ∧ tail' = tail) ∧
      (∀ {ε : Type} (resolve : String → Except ε String),
        (∀ text, render resolve template = .ok text ↔
          ∃ values, List.Forall₂ (fun p value => resolve (String.ofList p.name) = .ok value) parts
            values ∧ text = written parts values tail) ∧
        ∀ error, render resolve template = .error error ↔
          ∃ before p after, parts = before ++ p :: after ∧
            (∀ q ∈ before, ∃ value, resolve (String.ofList q.name) = .ok value) ∧
            resolve (String.ofList p.name) = .error error) ∧
      ∀ ε : Type, render (fun name => (.ok (braced name) : Except ε String)) template =
        .ok template := by
  obtain ⟨parts, tail, splits⟩ := exists_splits template.toList
  refine ⟨parts, tail, splits, fun _ _ other => other.unique splits, ?_, ?_⟩
  · intro ε resolve
    rw [render, splits.segments_eq]
    exact ⟨fun _ => fill_layout_ok_iff, fun _ => fill_layout_error_iff⟩
  · intro ε
    rw [render, splits.segments_eq, fill_layout_ok_iff]
    refine ⟨parts.map fun p => braced (String.ofList p.name), ?_, ?_⟩
    · rw [List.forall₂_map_right_iff]
      exact List.forall₂_same.mpr fun _ _ => rfl
    · rw [splits.written_braced, String.ofList_toList]

/-- A stray closing brace, an opening brace in a name, an empty name and a brace never closed. -/
example : render (fun name => (.ok ("<" ++ name ++ ">") : Except Unit String))
    "\x7d\x7bx\x7by\x7d\x7b\x7d\x7bz" = .ok "\x7d<x\x7by><>\x7bz" := by
  cbv

end ParticleShading.Text
