/-!
# Blank characters

Trimming and line splitting. Blank means Unicode white space, not only the
characters of ASCII.
-/

namespace ParticleShading.Text

/-- The Unicode property White_Space. -/
def isBlank (c : Char) : Bool :=
  let n := c.toNat
  (0x09 ≤ n && n ≤ 0x0D) || n = 0x20 || n = 0x85 || n = 0xA0 || n = 0x1680 ||
    (0x2000 ≤ n && n ≤ 0x200A) || n = 0x2028 || n = 0x2029 || n = 0x202F || n = 0x205F ||
    n = 0x3000

/-- Core's ASCII white space is blank. -/
theorem isBlank_of_isWhitespace {c : Char} (h : c.isWhitespace = true) : isBlank c = true := by
  simp only [Char.isWhitespace, Bool.or_eq_true, decide_eq_true_eq] at h
  rcases h with ((rfl | rfl) | rfl) | rfl <;> decide

def dropBlank (cs : List Char) : List Char := cs.dropWhile isBlank

/-- Removes the blank end of a text. -/
def trimEnd (cs : List Char) : List Char := (dropBlank cs.reverse).reverse

/-- Removes the blank start and end of a text. -/
def trim (cs : List Char) : List Char := trimEnd (dropBlank cs)

/-- The lines of a text. A line feed ends a line, so a final one opens no new
line. -/
def lines : List Char → List (List Char)
  | [] => []
  | '\n' :: cs => [] :: lines cs
  | c :: cs =>
    match lines cs with
    | [] => [[c]]
    | line :: rest => (c :: line) :: rest

end ParticleShading.Text
