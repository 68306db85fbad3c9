/-!
# Parsers

A parser takes characters off the front of a text or fails. Repetition ends when
the parser fails or takes nothing, so every parser ends.
-/

namespace ParticleShading.Toml

abbrev Parser (α : Type) := StateT (List Char) Option α

namespace Parser

/-- One character of a class. -/
def satisfy (p : Char → Bool) : Parser Char := fun s =>
  match s with
  | c :: rest => if p c then some (c, rest) else none
  | [] => none

def char (c : Char) : Parser Char := satisfy (· = c)

/-- A fixed text. -/
def text : List Char → Parser Unit
  | [] => pure ()
  | c :: rest => do
    discard (char c)
    text rest

/-- All characters of a class at the front. -/
def spanned (p : Char → Bool) : Parser (List Char) := fun s =>
  some (s.takeWhile p, s.dropWhile p)

def perhaps {α : Type} (p : Parser α) : Parser (Option α) := fun s =>
  match p s with
  | some (a, rest) => some (some a, rest)
  | none => some (none, s)

/-- As many as there are. -/
def many {α : Type} (p : Parser α) : Parser (List α) := fun s =>
  match p s with
  | none => some ([], s)
  | some (a, rest) =>
    if rest.length < s.length then
      (many p rest).map fun (as, rest) => (a :: as, rest)
    else some ([], s)
termination_by s => s.length

/-- One or more with a separator between them. -/
def separated {α β : Type} (separator : Parser β) (p : Parser α) : Parser (List α) := do
  let first ← p
  let others ← many do
    discard separator
    p
  return first :: others

/-- The end of the text. -/
def atEnd : Parser Unit := fun s => if s.isEmpty then some ((), s) else none

/-- Blanks between the words of a line. -/
def space : Parser Unit := discard (spanned fun c => c = ' ' || c = '\t')

/-- A line feed, with or without a carriage return before it. -/
def newline : Parser Unit := do
  discard (perhaps (char '\r'))
  discard (char '\n')

/-- The characters of comments and strings: all but the controls, tabs allowed. -/
def isPlain (c : Char) : Bool := c = '\t' || (0x20 ≤ c.toNat && c.toNat ≠ 0x7F)

def comment : Parser Unit := do
  discard (char '#')
  discard (spanned isPlain)

/-- Blanks, line ends and comments, as they stand between the items of an array. -/
def gap : Parser Unit :=
  discard (many do
    space
    discard (perhaps comment)
    newline) *> space

end Parser

end ParticleShading.Toml
