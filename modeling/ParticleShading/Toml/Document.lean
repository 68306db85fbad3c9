import ParticleShading.Toml.Number
import ParticleShading.Toml.Table

/-!
# Documents

The lines of a document are read into statements, and the statements build the
root table. Values nest in arrays and inline tables up to a fixed depth.
-/

namespace ParticleShading.Toml

open Toml.Parser

/-- A value that holds no others. -/
def scalar : Parser Value :=
  (do return .string (← string)) <|>
  (do datetime; return .datetime) <|>
  (do return .float (← float)) <|>
  (do return .integer (← integer)) <|>
  (do text ['t', 'r', 'u', 'e']; return .boolean true) <|>
  (do text ['f', 'a', 'l', 's', 'e']; return .boolean false)

/-- Items between brackets; line ends and comments may stand around them and a
comma after the last one. -/
def arrayOf (item : Parser Value) : Parser Value := do
  discard (char '[')
  let items ← perhaps (separated (char ',') do
    gap
    let v ← item
    gap
    return v)
  if items.isSome then discard (perhaps (char ','))
  gap
  discard (char ']')
  return .array (items.getD [])

/-- A key, an equals sign and a value. -/
def assignment (item : Parser Value) : Parser (List String × Value) := do
  let path ← key
  discard (char '=')
  space
  let v ← item
  return (path, v)

/-- Adds an assignment; the last part of its path is the key. -/
def Entries.assign (entries : Entries) (path : List String) (v : Value) : Option Entries :=
  match path.getLast? with
  | some key => entries.insert path.dropLast key v
  | none => none

def Entries.assignAll : Entries → List (List String × Value) → Option Entries
  | entries, [] => some entries
  | entries, (path, v) :: rest => do (← entries.assign path v).assignAll rest

/-- Assignments between braces, all on one line. -/
def inlineTableOf (item : Parser Value) : Parser Value := do
  discard (char '\x7b')
  space
  let pairs ← perhaps (separated (char ',') do
    space
    let pair ← assignment item
    space
    return pair)
  space
  discard (char '\x7d')
  match Entries.assignAll [] (pairs.getD []) with
  | some entries => return .table (valuesOf entries)
  | none => failure

/-- A value with at most `depth` levels of arrays and inline tables. -/
def value : Nat → Parser Value
  | 0 => scalar
  | depth + 1 => scalar <|> arrayOf (value depth) <|> inlineTableOf (value depth)

inductive Statement where
  | table (path : List String)
  | element (path : List String)
  | assign (path : List String) (v : Value)

def statement : Parser Statement :=
  (do
    text ['[', '[']
    let path ← key
    text [']', ']']
    return .element path) <|>
  (do
    discard (char '[')
    let path ← key
    discard (char ']')
    return .table path) <|>
  (do
    let (path, v) ← assignment (value (depthLimit - 1))
    return .assign path v)

/-- A line without its end: perhaps a statement, then perhaps a comment. -/
def line : Parser (Option Statement) := do
  space
  let s ← perhaps statement
  space
  discard (perhaps comment)
  return s

/-- All lines; a byte order mark before them is skipped. -/
def lines : Parser (List Statement) := do
  discard (perhaps (char '\uFEFF'))
  let statements ← separated newline line
  atEnd
  return statements.filterMap id

/-- Reads the statements in order; `current` is the path of the table that the
last header opened. -/
def build : List String → Entries → List Statement → Option Entries
  | _, root, [] => some root
  | current, root, .assign path v :: rest => do
    let root ← Entries.within false (fun _ entries => entries.assign path v) current .header root
    build current root rest
  | _, root, .table path :: rest =>
    match path.getLast? with
    | none => none
    | some key => do build path (← root.openTable path.dropLast key) rest
  | _, root, .element path :: rest =>
    match path.getLast? with
    | none => none
    | some key => do build path (← root.openElement path.dropLast key) rest

/-- The root table of a document. -/
def parse? (source : String) : Option Value := do
  let (statements, _) ← lines source.toList
  let entries ← build [] [] statements
  return .table (valuesOf entries)

end ParticleShading.Toml
