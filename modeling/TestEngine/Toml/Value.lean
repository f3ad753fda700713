import TestEngine.Keyed
import TestEngine.Number.Width
import TestEngine.Toml.Moment

/-!
# Values of a settings file

A settings file is a table: keys with values, each of which may be a table again. The entries of a
table are kept in the order in which they were written; no key has two of them.

A table may be written in several places: below its header, on the way to the headers of its
subtables, by dotted keys. Which of these may be combined depends on how a table came to be, so a
`Draft` remembers that until the whole file has been read.

* A header opens a table that is new or was only implied by other headers, and no other. In the
  order of the entries a table stands where its own header opens it.
* A dotted key passes through tables that are new, implied by headers or already passed by dotted
  keys. From then on each of them is a table of dotted keys, which no header opens.
* What is written between braces is complete.
-/

namespace TestEngine

/-- A value of a settings file. -/
inductive Toml where
  | text (s : String)
  /-- An integer of 64 bits. -/
  | integer (n : Int)
  | float (x : Binary64)
  | boolean (b : Bool)
  | moment (m : Toml.Moment)
  | list (items : List Toml)
  | table (entries : List (String × Toml))
  /-- A place of a list that nothing was written to. No text spells it; it comes from a path that
  names another place of the list. -/
  | absent
  deriving Inhabited, Repr

namespace Toml

/-- The entries of a table. -/
abbrev Entries := List (String × Toml)

/-! ## Tables under construction -/

open Keyed (put remove)

/-- How a table came to be. -/
inductive Origin where
  /-- It was passed on the way to the table of a header. -/
  | implied
  /-- It was passed by a dotted key. -/
  | dotted
  /-- It has a header or braces, or is the whole file. -/
  | defined
  deriving DecidableEq, Repr

/-- A value under construction. -/
inductive Draft where
  /-- A value that is complete. -/
  | value (v : Toml)
  | table (origin : Origin) (entries : List (String × Draft))
  /-- A list of tables, last first, that grows by headers. -/
  | tables (items : List Draft)
  deriving Inhabited

namespace Draft

/-- A table without entries. -/
def empty : Draft := .table .defined []

/-! ## Writing into a draft -/

/-- Changes the table at the end of a path. Tables that are missing on the way are created; in a
list of tables the way goes through the last one. The path of a dotted key claims the tables on its
way. -/
def descend (dotted : Bool) (change : Draft → Option Draft) : List String → Draft → Option Draft
  | [], d => change d
  | key :: path, .table origin entries => do
    let next ← match entries.lookup key with
      | none => descend dotted change path (.table (if dotted then .dotted else .implied) [])
      | some (.table o es) =>
        if !dotted then descend dotted change path (.table o es)
        else if o == .defined then none
        else descend dotted change path (.table .dotted es)
      | some (.tables (last :: earlier)) =>
        (descend dotted change path last).map fun t => .tables (t :: earlier)
      | some _ => none
    pure (.table origin (put key next entries))
  | _ :: _, _ => none

/-- Sets a key that is not there yet. Behind a path it must not be the key of a table that is
defined elsewhere. -/
def define (path : List String) (key : String) (v : Toml) : Draft → Option Draft :=
  descend true
    (fun
      | .table origin entries =>
        if (origin == .defined && !path.isEmpty) || (entries.lookup key).isSome then none
        else some (.table origin (put key (.value v) entries))
      | _ => none)
    path

/-- Opens the table of a header. -/
def openTable (path : List String) (key : String) : Draft → Option Draft :=
  descend false
    (fun
      | .table origin entries =>
        match entries.lookup key with
        | none => some (.table origin (put key empty entries))
        | some (.table .implied es) =>
          some (.table origin (put key (.table .defined es) (remove key entries)))
        | _ => none
      | _ => none)
    path

/-- Opens the next table of a list of tables. -/
def openItem (path : List String) (key : String) : Draft → Option Draft :=
  descend false
    (fun
      | .table origin entries =>
        match entries.lookup key with
        | none => some (.table origin (put key (.tables [empty]) entries))
        | some (.tables items) => some (.table origin (put key (.tables (empty :: items)) entries))
        | _ => none
      | _ => none)
    path

/-! ## The finished value -/

mutual

/-- The value of a draft. -/
def toValue : Draft → Toml
  | .value v => v
  | .table _ entries => .table (toEntries entries)
  | .tables items => .list (toItems items).reverse

def toEntries : List (String × Draft) → Entries
  | [] => []
  | (k, d) :: rest => (k, toValue d) :: toEntries rest

def toItems : List Draft → List Toml
  | [] => []
  | d :: rest => toValue d :: toItems rest

end

end Draft

end Toml

end TestEngine
