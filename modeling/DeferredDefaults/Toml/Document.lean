import DeferredDefaults.Toml.Node
import DeferredDefaults.Toml.Number

/-!
Reading a TOML document. Values are nested less deep than a limit. Lines with a key go to the table
of the last header; a header puts that table into the document and begins its own.
-/

set_option autoImplicit false
set_option relaxedAutoImplicit false

namespace DeferredDefaults.Toml

/-- The items of an array, behind its bracket or a comma. Every round reads at least one character,
so `rounds` is the number of characters at most. -/
def arrayItems (value : Reads Node) : (rounds : Nat) → Reads (List Node)
  | 0, _ => none
  | rounds + 1, text => do
    match ← skipFiller? false text with
    | ']' :: rest => return ([], rest)
    | text =>
      let (item, rest) ← value text
      match ← skipFiller? false rest with
      | ',' :: rest => do
        let (items, rest) ← arrayItems value rounds rest
        return (item :: items, rest)
      | ']' :: rest => return ([item], rest)
      | _ => none

/-- The entries of a table in braces, behind the first brace or a comma. -/
def braceEntries (value : Reads Node) (entries : Entries) : (rounds : Nat) → Reads Entries
  | 0, _ => none
  | rounds + 1, text => do
    let ((path, last), rest) ← key text
    let (node, rest) ← value (skipSpace (← char? '=' rest))
    let entries ← entries.addDotted? path last node
    match skipSpace rest with
    | ',' :: rest => braceEntries value entries rounds rest
    | '\x7d' :: rest => return (entries, rest)
    | _ => none

def braceTable (value : Reads Node) : Reads Node := fun text => do
  match skipSpace text with
  | '\x7d' :: rest => return (.table .braces [], rest)
  | text =>
    let (entries, rest) ← braceEntries value [] text.length text
    return (.table .braces entries, rest)

def quantity : Reads Node := fun text =>
  let as (kind : Scalar) (read : Option (Unit × List Char)) : Option (Node × List Char) :=
    read.map fun (_, rest) => (.scalar kind, rest)
  (as .moment (moment text)).or <| (as .float (decimal text)).or <|
    (as .float (specialFloat text)).or (as .integer (integer text))

def truth : Reads Node := fun text =>
  ((word? "true" text).or (word? "false" text)).map fun rest => (.scalar .boolean, rest)

/-- A value that holds others to at most `depth` levels. -/
def value (depth : Nat) : Reads Node
  | '[' :: rest => match depth with
    | 0 => none
    | depth + 1 =>
      (arrayItems (value depth) (rest.length + 1) rest).map fun (items, rest) =>
        (.array items, rest)
  | '\x7b' :: rest => match depth with
    | 0 => none
    | depth + 1 => braceTable (value depth) rest
  | c :: rest =>
    if c = '"' ∨ c = '\'' then
      (stringValue (c :: rest)).map fun (text, rest) => (.string (String.ofList text), rest)
    else if c = 't' ∨ c = 'f' then truth (c :: rest)
    else quantity (c :: rest)
  | [] => none

structure Draft where
  /-- The tables whose headers have been passed. -/
  root : Entries := []
  /-- The path of the last header. -/
  path : List String := []
  /-- The last header stands in double brackets. -/
  repeated : Bool := false
  /-- The table of the last header. -/
  current : Entries := []
deriving Repr

namespace Draft

def close? (draft : Draft) : Option Entries :=
  match draft.path.getLast? with
  | none => some draft.current
  | some last =>
    let place (_ : Origin) (entries : Entries) : Option (Unit × Entries) :=
      if draft.repeated then some ((), entries.put last (.tables draft.current))
      else (entries.add? last (.table .header draft.current)).map fun entries => ((), entries)
    (Entries.change false place draft.path.dropLast .header draft.root).map Prod.snd

/-- Begins the table of a header. A table that headers below it have implied goes on; any other of
the same path is a duplicate. -/
def beginTable? (draft : Draft) (path : List String) (last : String) : Option Draft := do
  let begin (_ : Origin) (entries : Entries) : Option (Entries × Entries) :=
    match entries.find? last with
    | none => some ([], entries)
    | some (.table .implied inner) => some (inner, entries.without last)
    | some _ => none
  let (inner, root) ← Entries.change false begin path .header (← draft.close?)
  return { root := root, path := path ++ [last], repeated := false, current := inner }

def beginRepeated? (draft : Draft) (path : List String) (last : String) : Option Draft := do
  let begin (_ : Origin) (entries : Entries) : Option (Unit × Entries) :=
    match entries.find? last with
    | none | some (.tables _) => some ((), entries)
    | some _ => none
  let (_, root) ← Entries.change false begin path .header (← draft.close?)
  return { root := root, path := path ++ [last], repeated := true, current := [] }

def header? (draft : Draft) : Reads Draft
  | '[' :: text => do
    let ((path, last), rest) ← key text
    let rest ← restOfLine? (← char? ']' (← char? ']' rest))
    return (← draft.beginRepeated? path last, rest)
  | text => do
    let ((path, last), rest) ← key text
    let rest ← restOfLine? (← char? ']' rest)
    return (← draft.beginTable? path last, rest)

def entry? (draft : Draft) : Reads Draft := fun text => do
  let ((path, last), rest) ← key text
  let (node, rest) ← value (depthLimit - 1) (skipSpace (← char? '=' rest))
  let rest ← restOfLine? rest
  return ({ draft with current := ← draft.current.addDotted? path last node }, rest)

/-- Reads the lines of a document. Every round reads at least one character, so `rounds` is the
number of characters at most. -/
def lines? (draft : Draft) : (rounds : Nat) → List Char → Option Draft
  | 0, _ => none
  | rounds + 1, text =>
    match skipSpace text with
    | [] => some draft
    | '#' :: rest => do draft.lines? rounds (← restOfLine? ('#' :: rest))
    | '[' :: rest => do
      let (draft, rest) ← draft.header? rest
      draft.lines? rounds rest
    | c :: rest =>
      if c = '\n' ∨ c = '\r' then do draft.lines? rounds (← lineBreak? (c :: rest))
      else do
        let (draft, rest) ← draft.entry? (c :: rest)
        draft.lines? rounds rest

end Draft

def read? (text : List Char) : Option Entries := do
  let text := match text with
    | '\ufeff' :: rest => rest
    | _ => text
  let draft ← Draft.lines? {} (text.length + 1) text
  draft.close?

end DeferredDefaults.Toml
