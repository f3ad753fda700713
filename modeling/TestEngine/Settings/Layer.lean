import TestEngine.Keyed
import TestEngine.Number.Width
import TestEngine.Toml.Value

/-!
# Layers of settings

The settings of a user are laid over the built-in ones, table by table: what the upper layer does
not mention is seen from the layer below. A key of the upper layer's outermost table may be a path
such as `profile.ci`, which names a place further down.
-/

namespace TestEngine.Settings

open Keyed (put)
open Toml (Entries)

/-! ## Laying one value over another -/

/-- The entries of a table; any other value has none. -/
def entriesOf : Option Toml → Entries
  | some (.table entries) => entries
  | _ => []

mutual

/-- A value over what is below it: a table is laid entry by entry, and any other value hides what is
below. -/
def layered (below : Option Toml) : Toml → Toml
  | .table entries => .table (layeredEntries (entriesOf below) entries)
  | v => v

/-- Entries over those of the table below. -/
def layeredEntries (below : Entries) : Entries → Entries
  | [] => below
  | (k, v) :: rest => layeredEntries (put k (layered (below.lookup k) v) below) rest

end

/-! ## Paths -/

/-- One step of a path. -/
inductive Step where
  | key (k : String)
  | index (n : Int)
  deriving DecidableEq, Repr

/-- A character of a key in a path. -/
def isKeyChar (c : Char) : Bool := c.isAlphanum || c == '_' || c == '-'

def isPathBlank (c : Char) : Bool := c == ' ' || c == '\t'

/-- The index in the text between brackets: digits, behind a minus sign or not, with blanks around
them. -/
def index? (cs : List Char) : Option Int :=
  let cs := ((cs.dropWhile isPathBlank).reverse.dropWhile isPathBlank).reverse
  let (negative, ds) := match cs with
    | '-' :: ds => (true, ds)
    | ds => (false, ds)
  if ds.isEmpty || !ds.all Char.isDigit then none
  else
    let n : Int := (ds.foldl (fun n d => 10 * n + (d.toNat - '0'.toNat)) 0 : Nat)
    let n := if negative then -n else n
    if FitsInt64 n then some n else none

/-- Where the reader of a path stands: in a key, between brackets, or behind them. -/
inductive PathPlace where
  | key (read : List Char)
  | index (read : List Char)
  | behind

/-- One character of a path. The steps read so far are kept last first. -/
def stepPath (st : PathPlace × List Step) (c : Char) : Option (PathPlace × List Step) :=
  match st with
  | (.key read, steps) =>
    if isKeyChar c then some (.key (c :: read), steps)
    else if read.isEmpty then none
    else
      let steps := .key (String.ofList read.reverse) :: steps
      if c = '.' then some (.key [], steps)
      else if c = '[' then some (.index [], steps)
      else none
  | (.index read, steps) =>
    if c = ']' then (index? read.reverse).map fun n => (.behind, .index n :: steps)
    else some (.index (c :: read), steps)
  | (.behind, steps) =>
    if c = '.' then some (.key [], steps)
    else if c = '[' then some (.index [], steps)
    else none

/-- The path that a key has the form of: keys with dots between them, and indices in brackets. -/
def path? (key : String) : Option (List Step) :=
  match key.toList.foldlM stepPath (.key [], []) with
  | some (.key (c :: read), steps) =>
    some (.key (String.ofList (c :: read).reverse) :: steps).reverse
  | some (.behind, steps) => some steps.reverse
  | _ => none

/-! ## Layers -/

/-- The items of a list; any other value has none. -/
def itemsOf : Option Toml → List Toml
  | some (.list items) => items
  | _ => []

/-- A list that has a place for an index, and the number of that place. An index below zero counts
from the end. Places that are missing are added, behind the items or in front of them. -/
def withPlace (index : Int) (items : List Toml) : List Toml × Nat :=
  if 0 ≤ index then
    (items ++ List.replicate (index.toNat + 1 - items.length) .absent, index.toNat)
  else (List.replicate (index.natAbs - items.length) .absent ++ items, items.length - index.natAbs)

/-- Lays a value over what is at the end of a path. What lies on the way and is no table becomes one
for a key, and what is no list becomes one for an index. -/
def layeredAt (v : Toml) : List Step → Option Toml → Toml
  | [], below => layered below v
  | .key k :: path, below =>
    let entries := entriesOf below
    .table (put k (layeredAt v path (entries.lookup k)) entries)
  | .index n :: path, below =>
    let (items, place) := withPlace n (itemsOf below)
    .list (items.set place (layeredAt v path items[place]?))

/-- Lays one entry of the outermost table over the settings below. -/
def layeredEntry (below : Entries) (key : String) (v : Toml) : Entries :=
  entriesOf (some (layeredAt v ((path? key).getD [.key key]) (some (.table below))))

/-- The settings of an upper layer over those of a lower one. -/
def overlay (below upper : Entries) : Entries :=
  upper.foldl (fun settings entry => layeredEntry settings entry.1 entry.2) below

/-- The lowest layer. -/
def builtIn : Entries :=
  [("profile", .table
    [("default", .table [("stop-on-fail", .boolean false), ("message-bus", .text "async")])])]

end TestEngine.Settings
