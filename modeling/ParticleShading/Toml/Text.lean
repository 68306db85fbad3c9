import ParticleShading.Text.Hex
import ParticleShading.Toml.Parser

/-!
# Strings and keys

Basic strings have escapes and literal strings have none. Both have a form that
runs over several lines, in which every line end reads as a line feed.
-/

namespace ParticleShading.Toml

open Toml.Parser

/-- The character with a number of `digits` hexadecimal digits. Surrogates and
numbers past the last character stand for none. -/
def codePoint (digits : Nat) : Parser Char := fun s => do
  let values ← (s.take digits).mapM Text.hexDigit?
  guard (values.length = digits)
  let n := values.foldl (fun n d => 16 * n + d) 0
  guard n.isValidChar
  return (Char.ofNat n, s.drop digits)

/-- What follows a backslash. -/
def escaped : Parser Char := do
  match ← satisfy fun _ => true with
  | 'b' => return '\x08'
  | 't' => return '\t'
  | 'n' => return '\n'
  | 'f' => return '\x0c'
  | 'r' => return '\r'
  | '"' => return '"'
  | '\\' => return '\\'
  | 'u' => codePoint 4
  | 'U' => codePoint 8
  | _ => failure

def basicChar : Parser Char :=
  (char '\\' *> escaped) <|> satisfy fun c => isPlain c && c != '"' && c != '\\'

def basicString : Parser String := do
  discard (char '"')
  let cs ← many basicChar
  discard (char '"')
  return String.ofList cs

def literalString : Parser String := do
  discard (char '\'')
  let cs ← spanned fun c => isPlain c && c != '\''
  discard (char '\'')
  return String.ofList cs

/-- A line end inside a string. -/
def stringNewline : Parser (List Char) := newline *> pure ['\n']

/-- A backslash at the end of a line joins it to the next text. -/
def continuation : Parser (List Char) := do
  discard (char '\\')
  space
  newline
  discard (many (discard (char ' ') <|> discard (char '\t') <|> newline))
  return []

/-- Up to two quotes that do not end the string: other content follows them. -/
def innerQuotes (quote : Char) (content : Parser (List Char)) : Parser (List Char) :=
  (do text [quote, quote]; return quote :: quote :: (← content)) <|>
  (do text [quote]; return quote :: (← content))

/-- The end of a string of several lines. Up to two quotes before it belong to
the string. -/
def closingQuotes (quote : Char) : Parser (List Char) :=
  (text [quote, quote, quote, quote, quote] *> pure [quote, quote]) <|>
  (text [quote, quote, quote, quote] *> pure [quote]) <|>
  (text [quote, quote, quote] *> pure [])

def multiline (quote : Char) (content : Parser (List Char)) : Parser String := do
  text [quote, quote, quote]
  discard (perhaps newline)
  let body ← many (content <|> innerQuotes quote content)
  let rest ← closingQuotes quote
  return String.ofList (body.flatten ++ rest)

def multilineBasic : Parser String :=
  multiline '"' (continuation <|> stringNewline <|> ([·]) <$> basicChar)

def multilineLiteral : Parser String :=
  multiline '\'' (stringNewline <|> ([·]) <$> satisfy fun c => isPlain c && c != '\'')

def string : Parser String :=
  multilineBasic <|> basicString <|> multilineLiteral <|> literalString

def isBare (c : Char) : Bool :=
  ('a' ≤ c && c ≤ 'z') || ('A' ≤ c && c ≤ 'Z') || ('0' ≤ c && c ≤ '9') || c = '-' || c = '_'

def bareKey : Parser String := do
  let cs ← spanned isBare
  guard !cs.isEmpty
  return String.ofList cs

/-- The number of nested values and of parts of a key stays below this. -/
def depthLimit : Nat := 80

/-- The parts of a dotted key. -/
def key : Parser (List String) := do
  let parts ← separated (char '.') do
    space
    let part ← basicString <|> literalString <|> bareKey
    space
    return part
  guard (parts.length < depthLimit)
  return parts

end ParticleShading.Toml
