/-!
# TOML documents

A document is a table whose values may be tables again. A table remembers how it came about, because that
decides whether it may still be extended:

* a table that a header names, or an array of tables, is complete when the next header comes;
* a table that only stands on the way to another header is *implicit*, and may get a header of its own once;
* a table that a dotted key made is implicit and *dotted*: more dotted keys may extend it, no header may
  name it;
* a table in braces is complete at once.
-/

namespace Adf.Toml

inductive Value where
  | string (value : String)
  | integer (value : Int)
  | float (value : Float)
  | boolean (value : Bool)
  | datetime
  | array (items : List Value)
  /-- A table in braces. -/
  | inlineTable (entries : List (String × Value))
  | table (implicit dotted : Bool) (entries : List (String × Value))
  /-- The tables that headers in double brackets made, the last one first. -/
  | tables (entries : List (List (String × Value)))
deriving Inhabited, Repr

/-- The entries of a table, in the order in which they were made. -/
abbrev Entries := List (String × Value)

namespace Entries

/-- Replaces the value of a key that is there. -/
def replace (key : String) (value : Value) (entries : Entries) : Entries :=
  entries.map fun (k, old) => if k = key then (k, value) else (k, old)

def erase (key : String) (entries : Entries) : Entries :=
  entries.filter fun (k, _) => k ≠ key

/-- Adds an entry under a new key. -/
def add? (key : String) (value : Value) (entries : Entries) : Option Entries :=
  match entries.lookup key with
  | none => some (entries ++ [(key, value)])
  | some _ => none

/-- Sets the value of a dotted key. Every table on the way must be implicit, and the last one dotted. -/
def setDotted? (key : String) (value : Value) (dotted : Bool) (path : List String) (entries : Entries) :
    Option Entries :=
  match path with
  | [] => if dotted then entries.add? key value else none
  | name :: rest =>
    match entries.lookup name with
    | none => do
      let inner ← setDotted? key value true rest []
      return entries ++ [(name, .table true true inner)]
    | some (.table true d inner) => do
      let inner ← setDotted? key value d rest inner
      return replace name (.table true d inner) entries
    | some (.tables (last :: before)) => do
      let last ← setDotted? key value false rest last
      return replace name (.tables (last :: before)) entries
    | some _ => none

/-- Sets the value of a key, plain or dotted. -/
def set? (path : List String) (key : String) (value : Value) (entries : Entries) : Option Entries :=
  match path with
  | [] => entries.add? key value
  | _ => setDotted? key value false path entries

/-- Changes the table at the end of a path, making the tables on the way that are not there yet. The last
table of an array stands for the array. -/
def update? {α : Type} (f : Entries → Option (Entries × α)) (path : List String) (entries : Entries) :
    Option (Entries × α) :=
  match path with
  | [] => f entries
  | name :: rest =>
    match entries.lookup name with
    | none => do
      let (inner, a) ← update? f rest []
      return (entries ++ [(name, .table true false inner)], a)
    | some (.table implicit dotted inner) => do
      let (inner, a) ← update? f rest inner
      return (replace name (.table implicit dotted inner) entries, a)
    | some (.tables (last :: before)) => do
      let (last, a) ← update? f rest last
      return (replace name (.tables (last :: before)) entries, a)
    | some _ => none

/-- Takes the table that a header names out of the table around it; it must be new or implicit. -/
def take? (key : String) (entries : Entries) : Option (Entries × Entries) :=
  match entries.lookup key with
  | none => some (entries, [])
  | some (.table true false inner) => some (erase key entries, inner)
  | some _ => none

/-- Makes room for one table more in an array of tables. -/
def reserve? (key : String) (entries : Entries) : Option (Entries × Entries) :=
  match entries.lookup key with
  | none => some (entries ++ [(key, .tables [])], [])
  | some (.tables _) => some (entries, [])
  | some _ => none

/-- Adds a complete table to an array of tables. -/
def pushTable? (key : String) (entries table : Entries) : Option Entries :=
  match entries.lookup key with
  | some (.tables before) => some (replace key (.tables (table :: before)) entries)
  | _ => none

end Entries

/-! ## Documents in the making -/

/-- Which table the next keys belong to. -/
inductive Section where
  | root
  | table (path : List String) (key : String)
  | tables (path : List String) (key : String)

/-- A document up to some header, and the table under that header. -/
structure Draft where
  root : Entries
  opened : Section
  current : Entries

namespace Draft

def empty : Draft := ⟨[], .root, []⟩

/-- Puts the open table in its place. -/
def close? (d : Draft) : Option Entries :=
  match d.opened with
  | .root => some d.current
  | .table path key =>
    (d.root.update? (fun parent => (parent.add? key (.table false false d.current)).map (·, ())) path).map
      Prod.fst
  | .tables path key =>
    (d.root.update? (fun parent => (parent.pushTable? key d.current).map (·, ())) path).map Prod.fst

/-- A header in brackets. -/
def openTable? (path : List String) (key : String) (d : Draft) : Option Draft := do
  let root ← d.close?
  let (root, current) ← root.update? (Entries.take? key) path
  return ⟨root, .table path key, current⟩

/-- A header in double brackets. -/
def openTables? (path : List String) (key : String) (d : Draft) : Option Draft := do
  let root ← d.close?
  let (root, current) ← root.update? (Entries.reserve? key) path
  return ⟨root, .tables path key, current⟩

def set? (path : List String) (key : String) (value : Value) (d : Draft) : Option Draft := do
  return { d with current := ← d.current.set? path key value }

end Draft

end Adf.Toml
