/-!
The contents of a TOML document: tables of named nodes. A table remembers how it came about, since
that decides whether later lines may add to it.
-/

set_option autoImplicit false
set_option relaxedAutoImplicit false

namespace DeferredDefaults.Toml

/-- A simple value that is no string. Only its kind is kept. -/
inductive Scalar where
  | integer
  | float
  | boolean
  /-- A date, a time or both. -/
  | moment
deriving DecidableEq, Repr

inductive Origin where
  /-- By a header of its own; also the document itself. -/
  | header
  /-- By the header of a table below it. -/
  | implied
  /-- By a dotted key. -/
  | dotted
  /-- By braces. Nothing can be added to it. -/
  | braces
deriving DecidableEq, Repr

inductive Node where
  | string (text : String)
  | scalar (kind : Scalar)
  | array (items : List Node)
  | table (origin : Origin) (entries : List (String × Node))
  /-- Tables with headers in double brackets. Only the last can still grow, and only it is kept. -/
  | tables (last : List (String × Node))
deriving Repr

abbrev Entries := List (String × Node)

namespace Entries

def find? (entries : Entries) (key : String) : Option Node :=
  (List.find? (fun entry => entry.1 == key) entries).map Prod.snd

def without (entries : Entries) (key : String) : Entries :=
  List.filter (fun entry => entry.1 != key) entries

def put (entries : Entries) (key : String) (node : Node) : Entries :=
  entries.without key ++ [(key, node)]

def add? (entries : Entries) (key : String) (node : Node) : Option Entries :=
  if (entries.find? key).isSome then none else some (entries.put key node)

/-- Acts on the table that a path leads to. Tables on the way are made if they are missing, and a
dotted key cannot lead through a table with a header of its own. -/
def change {α : Type} (dotted : Bool) (act : Origin → Entries → Option (α × Entries)) :
    List String → Origin → Entries → Option (α × Entries)
  | [], origin, entries => act origin entries
  | key :: path, _, entries =>
    match entries.find? key with
    | none => do
      let origin := if dotted then Origin.dotted else Origin.implied
      let (result, inner) ← change dotted act path origin []
      return (result, entries.put key (.table origin inner))
    | some (.table origin inner) =>
      if origin = .braces ∨ (dotted = true ∧ origin = .header) then none
      else do
        let (result, inner) ← change dotted act path origin inner
        return (result, entries.put key (.table origin inner))
    | some (.tables last) => do
      let (result, last) ← change dotted act path .header last
      return (result, entries.put key (.tables last))
    | some _ => none

/-- Adds a node under a dotted key. A table on the way to the key must be one that dotted keys have
made. -/
def addDotted? (entries : Entries) (path : List String) (key : String) (node : Node) :
    Option Entries :=
  let add (origin : Origin) (inner : Entries) : Option (Unit × Entries) :=
    if path ≠ [] ∧ origin ≠ .dotted then none
    else (inner.add? key node).map fun inner => ((), inner)
  (change true add path .header entries).map Prod.snd

end Entries

end DeferredDefaults.Toml
