import ParticleShading.Toml.Value

/-!
# Tables under construction

A document opens tables by headers and by dotted keys, and each table is opened
at most once. A table that only came up on the way to another one may still get
its own header; one that dotted keys made may not.
-/

namespace ParticleShading.Toml

/-- How a table came up: by its own header, on the way to another header, or by
a dotted key. -/
inductive Origin where
  | header
  | implied
  | dotted
  deriving DecidableEq

/-- What a key of a table under construction holds. -/
inductive Entry where
  | value (v : Value)
  | table (origin : Origin) (entries : List (String × Entry))
  /-- The tables of an array, the latest first. -/
  | tables (elements : List (List (String × Entry)))

abbrev Entries := List (String × Entry)

namespace Entries

/-- Replaces what a key holds, or appends the key. -/
def put (entries : Entries) (key : String) (entry : Entry) : Entries :=
  if entries.any (·.1 = key) then entries.map fun e => if e.1 = key then (key, entry) else e
  else entries ++ [(key, entry)]

/-- Changes the table at a path, opening the tables on the way. The last table
of an array stands for the array. A path of dotted keys may not enter a table
that has a header. -/
def within (dotted : Bool) (change : Origin → Entries → Option Entries) :
    List String → Origin → Entries → Option Entries
  | [], origin, entries => change origin entries
  | key :: path, _, entries => do
    let entry ← match entries.lookup key with
      | none =>
        let origin := if dotted then Origin.dotted else .implied
        pure (Entry.table origin (← within dotted change path origin []))
      | some (.value _) => none
      | some (.table origin inner) =>
        if dotted && origin = .header then none
        else pure (Entry.table origin (← within dotted change path origin inner))
      | some (.tables []) => none
      | some (.tables (last :: before)) =>
        pure (Entry.tables ((← within dotted change path .header last) :: before))
    return entries.put key entry

/-- Adds a key with its value to the table that a dotted path leads to. A path
that leads away has to end in a table of dotted keys. -/
def insert (path : List String) (key : String) (v : Value) (entries : Entries) :
    Option Entries :=
  within true
    (fun origin entries =>
      if path.isEmpty ≠ decide (origin ≠ .dotted) then none
      else if entries.any (·.1 = key) then none
      else some (entries ++ [(key, .value v)]))
    path .header entries

/-- Opens a table by its header. -/
def openTable (path : List String) (key : String) (entries : Entries) : Option Entries :=
  within false
    (fun _ entries =>
      match entries.lookup key with
      | none => some (entries.put key (.table .header []))
      | some (.table .implied inner) => some (entries.put key (.table .header inner))
      | some _ => none)
    path .header entries

/-- Opens the next table of an array by its header. -/
def openElement (path : List String) (key : String) (entries : Entries) : Option Entries :=
  within false
    (fun _ entries =>
      match entries.lookup key with
      | none => some (entries.put key (.tables [[]]))
      | some (.tables elements) => some (entries.put key (.tables ([] :: elements)))
      | some _ => none)
    path .header entries

end Entries

mutual

/-- The finished value. -/
def Entry.toValue : Entry → Value
  | .value v => v
  | .table _ entries => .table (valuesOf entries)
  | .tables elements => .array (tablesOf elements).reverse

def valuesOf : List (String × Entry) → List (String × Value)
  | [] => []
  | (key, entry) :: rest => (key, entry.toValue) :: valuesOf rest

def tablesOf : List (List (String × Entry)) → List Value
  | [] => []
  | entries :: rest => .table (valuesOf entries) :: tablesOf rest

end

end ParticleShading.Toml
