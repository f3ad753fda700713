import TestEngine.Number.Shortest
import TestEngine.Settings.Layer
import TestEngine.Settings.Options
import TestEngine.Text.Quoted

/-!
# Profiles

A profile is a set of settings with a name. A setting that a profile leaves out is taken from the
profile `default`, and one that is missing there too has a built-in value.

A profile is written as a table, or as a list of the values of its settings in the order of
`Setting.all`.

The values of `default` are converted where that makes sense, so that `1` is a truth value and `5` a
name. The values of any other profile have to be of the right type.
-/

namespace TestEngine

/-- What a profile can set. -/
inductive Setting where
  | disableParallelization
  | maxThreads
  | stopOnFail
  | bus
  | collectionOrderer
  | caseOrderer
  deriving DecidableEq, Repr

/-- All settings, in the order in which a list gives their values. -/
def Setting.all : List Setting :=
  [.disableParallelization, .maxThreads, .stopOnFail, .bus, .collectionOrderer, .caseOrderer]

/-- The key of a setting. -/
def Setting.key : Setting → String
  | .disableParallelization => "disable-parallelization"
  | .maxThreads => "max-parallel-threads"
  | .stopOnFail => "stop-on-fail"
  | .bus => "message-bus"
  | .collectionOrderer => "collection-orderer"
  | .caseOrderer => "case-orderer"

/-- The setting of a key. -/
def Setting.ofKey? (key : String) : Option Setting := all.find? (·.key == key)

theorem Setting.ofKey?_key (s : Setting) : ofKey? s.key = some s := by cases s <;> decide

/-- The settings of one profile. -/
structure Profile where
  disableParallelization : Option Bool := none
  maxThreads : Option ThreadLimit := none
  stopOnFail : Option Bool := none
  bus : Option BusKind := none
  collectionOrderer : Option String := none
  caseOrderer : Option String := none
  deriving DecidableEq, Repr, Inhabited

namespace Profile

/-! ## What a profile means -/

/-- A profile over the one that it inherits from. -/
def inheriting (p base : Profile) : Profile where
  disableParallelization := p.disableParallelization.or base.disableParallelization
  maxThreads := p.maxThreads.or base.maxThreads
  stopOnFail := p.stopOnFail.or base.stopOnFail
  bus := p.bus.or base.bus
  collectionOrderer := p.collectionOrderer.or base.collectionOrderer
  caseOrderer := p.caseOrderer.or base.caseOrderer

/-- The options of a run with a profile. -/
def options (p : Profile) : Options where
  disableParallelization := p.disableParallelization
  maxThreads := p.maxThreads
  stopOnFail := p.stopOnFail.getD false
  bus := p.bus.getD .asynchronous
  collectionOrderer := p.collectionOrderer
  caseOrderer := p.caseOrderer

/-! ## Reading values -/

/-- How values are read. -/
structure Reading where
  boolean? : Toml → Option Bool
  text? : Toml → Option String
  bus? : Toml → Option BusKind

/-- The truth value that a word stands for, in any case. -/
def booleanOfWord? (s : String) : Option Bool :=
  let word := String.ofList (s.toList.map Char.toLower)
  if ["1", "true", "on", "yes"].contains word then some true
  else if ["0", "false", "off", "no"].contains word then some false
  else none

/-- Reading with conversions. -/
def converting : Reading where
  boolean?
    | .boolean b => some b
    | .integer n => some (n != 0)
    | .float x => some (!x.isZero)
    | .text s => booleanOfWord? s
    | _ => none
  text?
    | .text s => some s
    | .moment m => some m.text
    | .boolean b => some (toString b)
    | .integer n => some (toString n)
    | .float x => some x.plain
    | _ => none
  bus?
    | .text s => BusKind.ofText? s
    | .table [(key, _)] => BusKind.ofText? key
    | _ => none

/-- Reading without conversions. -/
def strict : Reading where
  boolean?
    | .boolean b => some b
    | _ => none
  text?
    | .text s => some s
    | .moment m => some m.text
    | _ => none
  bus?
    | .text s => BusKind.ofText? s
    | _ => none

/-- What a value is that cannot be a limit on threads. -/
def unexpected : Toml → String
  | .text s => "invalid value: string " ++ Quoted.text s
  | .moment m => "invalid value: string " ++ Quoted.text m.text
  | .integer n => "invalid value: integer `" ++ toString n ++ "`"
  | .boolean b => "invalid type: boolean `" ++ toString b ++ "`"
  | .float x => "invalid type: floating point `" ++ x.pointed ++ "`"
  | .list _ => "invalid type: sequence"
  | .table _ => "invalid type: map"
  | .absent => "invalid type: unit value"

/-- A limit on threads: an integer or one of two words, however other values are read. -/
def threads? : Toml → Option ThreadLimit
  | .integer n => some (.ofInt n)
  | .text "num-cpus" => some .processors
  | .text "unlimited" => some .unlimited
  | _ => none

/-! ## Reading profiles -/

/-- A setting with a value that it cannot have. -/
structure Misfit where
  setting : Setting
  value : Toml

/-- A value can be that of a setting. One that is absent leaves the setting out. -/
def fits (r : Reading) (setting : Setting) : Toml → Bool
  | .absent => true
  | v =>
    match setting with
    | .disableParallelization | .stopOnFail => (r.boolean? v).isSome
    | .maxThreads => (threads? v).isSome
    | .bus => (r.bus? v).isSome
    | .collectionOrderer | .caseOrderer => (r.text? v).isSome

/-- What is wrong with an entry. A key that is no setting has no meaning. -/
def misfit? (r : Reading) (entry : String × Toml) : Option Misfit :=
  match Setting.ofKey? entry.1 with
  | some setting => if fits r setting entry.2 then none else some ⟨setting, entry.2⟩
  | none => none

/-- The value of a setting, if it is set. -/
def valueOf? {α : Type} (entries : Toml.Entries) (setting : Setting) (value? : Toml → Option α) :
    Option α :=
  entries.lookup setting.key >>= value?

/-- The profile that a table describes, or what is wrong with the first entry that has a value that
it cannot have. -/
def ofEntries (r : Reading) (entries : Toml.Entries) : Except Misfit Profile :=
  match entries.findSome? (misfit? r) with
  | some m => .error m
  | none => .ok {
      disableParallelization := valueOf? entries .disableParallelization r.boolean?
      maxThreads := valueOf? entries .maxThreads threads?
      stopOnFail := valueOf? entries .stopOnFail r.boolean?
      bus := valueOf? entries .bus r.bus?
      collectionOrderer := valueOf? entries .collectionOrderer r.text?
      caseOrderer := valueOf? entries .caseOrderer r.text? }

/-- The entries of a profile whose values are listed in the order of the settings. -/
def entriesOfList (items : List Toml) : Toml.Entries := (Setting.all.map Setting.key).zip items

end Profile

end TestEngine
