import Stepwise.Document.Basic

/-!
Tables under construction. A table that came into being only because a longer header or a dotted key runs
through it may be filled later, once and in the same manner; a table that was written out may not.
-/

namespace Stepwise.Toml

inductive TableKind where
  /-- Written out, by a header of its own or in braces. -/
  | written
  /-- Part of a longer header. -/
  | implied
  /-- Part of a dotted key. -/
  | dotted
deriving DecidableEq

/-- What a key holds. -/
inductive Item where
  /-- A value that nothing can be added to. -/
  | value (document : Document)
  | table (kind : TableKind) (entries : List (String × Item))
  /-- The tables under one double header, latest first. -/
  | tables (elements : List (List (String × Item)))

abbrev Entries := List (String × Item)

namespace Item

mutual

def toDocument : Item → Document
  | .value d => d
  | .table _ entries => .object (entriesToDocuments entries)
  | .tables elements => .array (elementsToDocuments elements).reverse

def entriesToDocuments : List (String × Item) → List (String × Document)
  | [] => []
  | (key, item) :: rest => (key, item.toDocument) :: entriesToDocuments rest

def elementsToDocuments : List (List (String × Item)) → List Document
  | [] => []
  | entries :: rest => .object (entriesToDocuments entries) :: elementsToDocuments rest

end

end Item

namespace Entries

def replace (entries : Entries) (key : String) (item : Item) : Entries :=
  entries.map fun e => if e.1 = key then (key, item) else e

private def duplicate (key : String) : String :=
  s!"duplicate key \x60{key}\x60"

/-- Change the table at the end of a path. Missing tables on the way are made; of several tables under one
double header the latest is meant. -/
def alter {α : Type} (made : TableKind) (change : TableKind → Entries →
    Except String (α × Entries)) :
    List String → TableKind → Entries → Except String (α × Entries)
  | [], kind, entries => change kind entries
  | key :: path, _, entries =>
    match entries.lookup key with
    | none => do
      let (result, inner) ← alter made change path made []
      return (result, entries ++ [(key, .table made inner)])
    | some (.table kind inner) => do
      if made = .dotted ∧ kind = .written then throw (duplicate key)
      let (result, inner) ← alter made change path kind inner
      return (result, replace entries key (.table kind inner))
    | some (.tables (latest :: others)) => do
      let (result, latest) ← alter made change path .written latest
      return (result, replace entries key (.tables (latest :: others)))
    | some _ => throw s!"cannot add to \x60{key}\x60"

/-- Set a key, whose last part is given apart. -/
def set (entries : Entries) (path : List String) (key : String) (item : Item) :
    Except String Entries := do
  let change (kind : TableKind) (table : Entries) : Except String (Unit × Entries) :=
    if (kind = .dotted) = path.isEmpty then throw (duplicate key)
    else if (table.lookup key).isSome then throw (duplicate key)
    else return ((), table ++ [(key, item)])
  return (← alter .dotted change path .written entries).2

/-- Take a table out to fill it. Only one that a longer header implied may be there already. -/
def takeTable (entries : Entries) (path : List String) (key : String) :
    Except String (Entries × Entries) :=
  let change (_ : TableKind) (table : Entries) : Except String (Entries × Entries) :=
    match table.lookup key with
    | none => .ok ([], table)
    | some (.table .implied inner) => .ok (inner, table.filter fun e => e.1 != key)
    | some _ => throw (duplicate key)
  alter .implied change path .written entries

/-- Put a table at the end of its parent. -/
def putTable (entries : Entries) (path : List String) (key : String) (filled : Entries) :
    Except String Entries := do
  let change (_ : TableKind) (table : Entries) : Except String (Unit × Entries) :=
    return ((), table ++ [(key, .table .written filled)])
  return (← alter .implied change path .written entries).2

/-- Add a table to those under a double header. -/
def addTable (entries : Entries) (path : List String) (key : String) (filled : Entries) :
    Except String Entries := do
  let change (_ : TableKind) (table : Entries) : Except String (Unit × Entries) :=
    match table.lookup key with
    | none => .ok ((), table ++ [(key, .tables [filled])])
    | some (.tables elements) => .ok ((), replace table key (.tables (filled :: elements)))
    | some _ => throw (duplicate key)
  return (← alter .implied change path .written entries).2

end Entries

end Stepwise.Toml
