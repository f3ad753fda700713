import TestEngine.Settings.Profile
import TestEngine.Toml.Reader

/-!
# Where profiles come from

Profiles are read from a settings file, laid over the built-in settings. There is always a profile
`default`, and any number of others.

What can go wrong is that the file cannot be read as a table, or that a table is there but does not
describe profiles; an error in `default` is reported before one in another profile.
-/

namespace TestEngine

/-- The profiles of a settings file. -/
structure Profiles where
  default : Profile := {}
  /-- The other profiles, by name. -/
  custom : List (String × Profile) := []
  deriving DecidableEq, Repr, Inhabited

/-- A name that no profile has. -/
structure UnknownProfile where
  name : String
  /-- The names that there are, sorted. -/
  known : List String
  deriving DecidableEq, Repr

def UnknownProfile.message (e : UnknownProfile) : String :=
  "profile `" ++ e.name ++ "` not found (known profiles: " ++ commaSeparated e.known ++ ")"

/-- What is wrong with a table of settings. -/
inductive SettingsFault where
  /-- Something among the profiles other than `default`, or there are none at all. -/
  | profiles
  /-- The profile `default` is neither a table nor a list. -/
  | default
  /-- A setting of `default`. -/
  | setting (misfit : Profile.Misfit)
  /-- A setting of `default`, which is a list. -/
  | item (misfit : Profile.Misfit)

namespace SettingsFault

/-- The place of the fault in the file. -/
def path : SettingsFault → String
  | .profiles => "profile"
  | .default => "profile.default"
  | .setting m => "profile.default." ++ m.setting.key
  | .item m => "profile.default[" ++ toString (Setting.all.idxOf m.setting) ++ "]"

/-- What was expected instead of a limit on threads. -/
def detail? : SettingsFault → Option String
  | .setting ⟨.maxThreads, v⟩ =>
    some (Profile.unexpected v ++
      ", expected an integer, the string \"num-cpus\" or the string \"unlimited\" for key `" ++
      "profile.default." ++ Setting.maxThreads.key ++ "`")
  | _ => none

end SettingsFault

namespace Profiles

/-- The name of the profile that the others inherit from. -/
def defaultName : String := "default"

/-! ## Looking up -/

/-- The profile of a name, with what it inherits. -/
def find? (ps : Profiles) (name : String) : Option Profile :=
  if name = defaultName then some ps.default
  else (ps.custom.lookup name).map (·.inheriting ps.default)

/-- The names of all profiles, sorted. -/
def names (ps : Profiles) : List String :=
  (defaultName :: ps.custom.map (·.1)).mergeSort fun a b => decide (a ≤ b)

/-- The options of a run with the profile of a name. -/
def options (ps : Profiles) (name : String) : Except UnknownProfile Options :=
  match ps.find? name with
  | some p => .ok p.options
  | none => .error ⟨name, ps.names⟩

/-! ## Reading -/

/-- The profile `default`. Of a list, what follows the values of the settings has no meaning. -/
def readDefault : Option Toml → Except SettingsFault Profile
  | some (.table entries) => (Profile.ofEntries Profile.converting entries).mapError .setting
  | some (.list items) =>
    (Profile.ofEntries Profile.converting (Profile.entriesOfList items)).mapError .item
  | some _ => .error .default
  | none => .error .profiles

/-- The entries of a profile other than `default`: a table, or a list of at most as many values as
there are settings. -/
def customEntries? : Toml → Option Toml.Entries
  | .table entries => some entries
  | .list items =>
    if items.length ≤ Setting.all.length then some (Profile.entriesOfList items) else none
  | _ => none

/-- A profile other than `default`. -/
def readCustom (entry : String × Toml) : Except SettingsFault (String × Profile) :=
  match (customEntries? entry.2).map (Profile.ofEntries Profile.strict) with
  | some (.ok p) => .ok (entry.1, p)
  | _ => .error .profiles

/-- The profiles that settings describe. -/
def ofEntries (settings : Toml.Entries) : Except SettingsFault Profiles :=
  match settings.lookup "profile" with
  | some (.table profiles) => do
    let default ← readDefault (profiles.lookup defaultName)
    let custom ← (profiles.filter (·.1 != defaultName)).mapM readCustom
    pure { default, custom }
  | _ => .error .profiles

/-- The profiles of a user's settings, laid over the built-in ones. -/
def ofUser (settings : Toml.Entries) : Except SettingsFault Profiles :=
  ofEntries (Settings.overlay Settings.builtIn settings)

/-- The built-in profiles. -/
def builtIn : Profiles where
  default := { stopOnFail := some false, bus := some .asynchronous }

theorem ofUser_nil : ofUser [] = .ok builtIn := by rfl

end Profiles

/-! ## Files -/

/-- Why there are no profiles. -/
inductive SettingsProblem where
  /-- The file is missing or is no settings file. -/
  | unreadable
  | fault (f : SettingsFault)

/-- An error with the file that it is about. -/
structure SettingsError where
  file : String
  problem : SettingsProblem

def SettingsError.message (e : SettingsError) : String :=
  "failed to parse trellis config at `" ++ e.file ++ "`"

/-- Where settings are taken from. The text of a file is missing if the file is. -/
inductive SettingsSource where
  /-- The built-in settings alone. -/
  | builtIn
  /-- A text under a name. -/
  | inline (name text : String)
  /-- The file of a directory that holds its settings, which need not exist. -/
  | directory (root : String) (text : Option String)
  /-- A file. -/
  | file (path : String) (text : Option String)

namespace SettingsSource

/-- The file of a directory that holds its settings. -/
def fileBelow (root : String) : String := root ++ "/.config/trellis.toml"

/-- The profiles that a text describes. -/
def read (file text : String) : Except SettingsError Profiles :=
  match Toml.parse? text with
  | none => .error ⟨file, .unreadable⟩
  | some settings => (Profiles.ofUser settings).mapError fun f => ⟨file, .fault f⟩

/-- The profiles that a file describes. The byte order mark that a file may begin with is no part of
its text. -/
def readFile (file text : String) : Except SettingsError Profiles :=
  read file (String.ofList (Toml.Lexer.withoutMark text.toList))

/-- The profiles of a source. -/
def profiles : SettingsSource → Except SettingsError Profiles
  | .builtIn => .ok .builtIn
  | .inline name text => read name text
  | .directory root (some text) => readFile (fileBelow root) text
  | .directory _ none => .ok .builtIn
  | .file path (some text) => readFile path text
  | .file path none => .error ⟨path, .unreadable⟩

end SettingsSource

end TestEngine
