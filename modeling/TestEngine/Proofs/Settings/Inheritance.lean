import Mathlib.Data.List.Forall2
import Mathlib.Data.String.Basic
import TestEngine.Proofs.Settings.Layers
import TestEngine.Proofs.Settings.Values

/-!
# What a profile inherits

Settings take three steps from a user's tables to the options of a run: the tables are laid over the
built-in ones, profiles are read from what comes of it, and a profile is completed by the profile
`default`. In the end each setting of a profile has a value of its own that can be told from the
user's tables alone.

* `Profiles.Inherit` — what is to be known of the profiles of a user's settings.
* `Profiles.isolated_ofUser` — a setting of a profile is what the profile says, or else what
  `default` says, or else what is built in; and nothing else in the settings makes a difference.
-/

namespace TestEngine

open Settings (LaidOver KeysDiffer NoLists writtenOut overlay entriesOf)

/-! ## Tables of profiles -/

namespace Profiles

/-- The entries of the value of a profile, by key. -/
def entriesIn : Option Toml → Toml.Entries
  | some (.table entries) => entries
  | some (.list items) => Profile.entriesOfList items
  | _ => []

/-- How the values of a profile are read. -/
def readingOf (name : String) : Profile.Reading :=
  if name = defaultName then Profile.converting else Profile.strict

theorem readingOf_default : readingOf defaultName = Profile.converting := if_pos rfl

theorem value?_absent_readingOf (name : String) (s : Setting) :
    (readingOf name).value? s .absent = none := by
  unfold readingOf
  split
  · exact Profile.value?_absent_converting s
  · exact Profile.value?_absent_strict s

end Profiles

namespace Settings

open Profiles (defaultName entriesIn readingOf)

variable {settings user : Toml.Entries} {name : String} {s : Setting}

/-- The value of a profile in tables of settings. -/
def profile? (settings : Toml.Entries) (name : String) : Option Toml :=
  (entriesOf (settings.lookup "profile")).lookup name

/-- There is a profile of this name: `default`, or one that the table `profile` has a key for. -/
def HasProfile (settings : Toml.Entries) (name : String) : Prop :=
  name = defaultName ∨ (profile? settings name).isSome

/-- What a profile says of a setting. A place of a list that nothing was written to says nothing. -/
def said (settings : Toml.Entries) (name : String) (s : Setting) : Option Toml :=
  match (entriesIn (profile? settings name)).lookup s.key with
  | some .absent => none
  | v => v

/-- The value that a profile itself gives a setting. -/
def own (settings : Toml.Entries) (name : String) (s : Setting) : Option s.Value :=
  (said settings name s).bind ((readingOf name).value? s)

theorem own_eq_bind (settings : Toml.Entries) (name : String) (s : Setting) :
    own settings name s =
      ((entriesIn (profile? settings name)).lookup s.key).bind ((readingOf name).value? s) := by
  unfold own said
  split
  · rename_i h
    rw [h]
    exact (Profiles.value?_absent_readingOf name s).symm
  · rfl

theorem get_eq_own {p : Profile}
    (hp : Profile.ofEntries (readingOf name) (entriesIn (profile? settings name)) = .ok p)
    (s : Setting) : p.get s = own settings name s := by
  rw [own_eq_bind]
  exact Profile.get_of_ofEntries hp s

theorem lookup_of_said {v : Toml} (h : said settings name s = some v) :
    (entriesIn (profile? settings name)).lookup s.key = some v ∧ v ≠ .absent := by
  unfold said at h
  split at h
  · cases h
  · rename_i hne
    refine ⟨h, ?_⟩
    rintro rfl
    exact hne h

/-- Only a profile that there is says anything. -/
theorem hasProfile_of_said {v : Toml} (h : said settings name s = some v) :
    HasProfile settings name := by
  cases hv : profile? settings name with
  | none =>
    have hlookup := (lookup_of_said h).1
    rw [hv] at hlookup
    cases hlookup
  | some _ => exact .inr (by rw [hv]; rfl)

theorem said_congr (h : profile? settings name = profile? user name) (s : Setting) :
    said settings name s = said user name s := by
  unfold said
  rw [h]

/-! ## Over the built-in settings -/

theorem noLists_builtIn : NoLists (some (.table builtIn)) := by
  have hdefault : NoLists (some (.table
      [("stop-on-fail", .boolean false), ("message-bus", .text "async")])) := by
    refine .of_forall_mem fun e he => ?_
    obtain rfl | rfl : e = ("stop-on-fail", Toml.boolean false) ∨
      e = ("message-bus", Toml.text "async") := by simpa using he
    · exact .leaf rfl rfl
    · exact .leaf rfl rfl
  refine .of_forall_mem fun e he => ?_
  rw [List.mem_singleton.mp he]
  refine .of_forall_mem fun e he => ?_
  rw [List.mem_singleton.mp he]
  exact hdefault

theorem laidOver_profile? (settings : Toml.Entries) (name : String) :
    LaidOver (profile? builtIn name) (profile? (writtenOut settings) name)
      (profile? (overlay builtIn settings) name) :=
  ((laidOver_overlay noLists_builtIn settings).lookup "profile").lookup name

/-- A profile other than `default` is what the user says. -/
theorem profile?_overlay_of_ne (settings : Toml.Entries) (h : name ≠ defaultName) :
    profile? (overlay builtIn settings) name = profile? (writtenOut settings) name := by
  have hnone : profile? builtIn name = none := Keyed.lookup_cons_of_ne h _ []
  have hlaid := laidOver_profile? settings name
  rw [hnone] at hlaid
  exact hlaid.eq_of_none

theorem hasProfile_overlay (settings : Toml.Entries) (name : String) :
    HasProfile (overlay builtIn settings) name ↔ HasProfile (writtenOut settings) name := by
  unfold HasProfile
  by_cases h : name = defaultName
  · exact ⟨fun _ => .inl h, fun _ => .inl h⟩
  · rw [profile?_overlay_of_ne settings h]

theorem own_overlay_of_ne (settings : Toml.Entries) (h : name ≠ defaultName) (s : Setting) :
    own (overlay builtIn settings) name s = own (writtenOut settings) name s := by
  unfold own
  rw [said_congr (profile?_overlay_of_ne settings h)]

/-- Of a setting, `default` says what the user says. If they say nothing, something can still be
built in. -/
theorem said_overlay_default (settings : Toml.Entries) (s : Setting) :
    said (overlay builtIn settings) defaultName s = said (writtenOut settings) defaultName s ∨
      said (writtenOut settings) defaultName s = none ∧
      said (overlay builtIn settings) defaultName s = said builtIn defaultName s := by
  unfold said
  have hlaid := laidOver_profile? settings defaultName
  generalize profile? (overlay builtIn settings) defaultName = merged at hlaid
  generalize profile? (writtenOut settings) defaultName = user at hlaid
  generalize hbase : profile? builtIn defaultName = base at hlaid
  cases hlaid with
  | hidden => exact .inl rfl
  | bare => exact .inr ⟨rfl, rfl⟩
  | tables h =>
    have hkey := (h s.key).eq_or (by cases hbase; cases s <;> rintro _ ⟨⟩)
    unfold entriesIn
    obtain heq | ⟨hnone, heq⟩ := hkey
    · exact .inl (by rw [heq])
    · exact .inr (by rw [hnone, heq]; exact ⟨rfl, rfl⟩)

/-- What the user says of a setting is what is said. -/
theorem said_overlay_of_isSome (h : (said (writtenOut settings) name s).isSome = true) :
    said (overlay builtIn settings) name s = said (writtenOut settings) name s := by
  by_cases hname : name = defaultName
  · subst hname
    refine (said_overlay_default settings s).resolve_right fun ⟨hnone, _⟩ => ?_
    rw [hnone] at h
    cases h
  · exact said_congr (profile?_overlay_of_ne settings hname) s

theorem own_builtIn_or (s : Setting) : (own builtIn defaultName s).or s.builtIn = s.builtIn := by
  cases s <;> rfl

/-- So what is left out of `default` is built in. -/
theorem own_overlay_default_or (settings : Toml.Entries) (s : Setting) :
    (own (overlay builtIn settings) defaultName s).or s.builtIn =
      ((own (writtenOut settings) defaultName s).or (own builtIn defaultName s)).or s.builtIn := by
  rw [Option.or_assoc, own_builtIn_or]
  unfold own
  obtain heq | ⟨hnone, heq⟩ := said_overlay_default settings s
  · rw [heq]
  · rw [heq, hnone]
    exact own_builtIn_or s

/-- No two profiles have one name. -/
theorem keysDiffer_overlay (settings : Toml.Entries) :
    KeysDiffer ((overlay builtIn settings).lookup "profile") := by
  have hbase : KeysDiffer (builtIn.lookup "profile") := List.pairwise_singleton _ _
  exact hbase.overlay settings

end Settings

/-! ## Profiles that were read -/

namespace Profiles

open Settings (profile? HasProfile said own IsPlain overlay_eq_layeredEntries writtenOut_eq_self)

variable {settings : Toml.Entries} {name : String} {ps : Profiles} {s : Setting}

theorem ofEntries_of_mapError {f : Profile.Misfit → SettingsFault} {r : Profile.Reading}
    {entries : Toml.Entries} {p : Profile}
    (h : (Profile.ofEntries r entries).mapError f = .ok p) :
    Profile.ofEntries r entries = .ok p := by
  cases hp : Profile.ofEntries r entries with
  | error m =>
    rw [hp] at h
    cases h
  | ok p' =>
    rw [hp] at h
    cases h
    rfl

theorem ofEntries_of_readDefault {v : Option Toml} {p : Profile} (h : readDefault v = .ok p) :
    Profile.ofEntries Profile.converting (entriesIn v) = .ok p := by
  unfold readDefault at h
  split at h
  · exact ofEntries_of_mapError h
  · exact ofEntries_of_mapError h
  · cases h
  · cases h

/-- An entry and the profile read from it. -/
def ReadFrom (entry : String × Toml) (c : String × Profile) : Prop :=
  entry.1 = c.1 ∧ Profile.ofEntries Profile.strict (entriesIn (some entry.2)) = .ok c.2

theorem entriesIn_of_customEntries? {v : Toml} {entries : Toml.Entries}
    (h : customEntries? v = some entries) : entriesIn (some v) = entries := by
  unfold customEntries? at h
  split at h
  · cases h
    rfl
  · split at h
    · cases h
      rfl
    · cases h
  · cases h

theorem readFrom_of_readCustom {entry : String × Toml} {c : String × Profile}
    (h : readCustom entry = .ok c) : ReadFrom entry c := by
  unfold readCustom at h
  split at h
  · rename_i p hp
    cases h
    obtain ⟨entries, hentries, hp⟩ := Option.map_eq_some_iff.mp hp
    refine ⟨rfl, ?_⟩
    rw [entriesIn_of_customEntries? hentries]
    exact hp
  · cases h

theorem forall₂_readFrom {entries : Toml.Entries} {custom : List (String × Profile)}
    (h : entries.mapM readCustom = .ok custom) : List.Forall₂ ReadFrom entries custom := by
  induction entries generalizing custom with
  | nil =>
    cases h
    exact .nil
  | cons entry rest ih =>
    rw [List.mapM_cons] at h
    cases hentry : readCustom entry with
    | error e =>
      rw [hentry] at h
      cases h
    | ok c =>
      cases hrest : rest.mapM readCustom with
      | error e =>
        rw [hentry, hrest] at h
        cases h
      | ok cs =>
        rw [hentry, hrest] at h
        cases h
        exact .cons (readFrom_of_readCustom hentry) (ih hrest)

/-- The profiles that the tables of settings describe. -/
structure Describe (ps : Profiles) (settings : Toml.Entries) : Prop where
  default : Profile.ofEntries Profile.converting (entriesIn (profile? settings defaultName)) =
    .ok ps.default
  custom : List.Forall₂ ReadFrom
    (Keyed.remove defaultName (entriesOf (settings.lookup "profile"))) ps.custom

theorem describe_of_ofEntries (h : ofEntries settings = .ok ps) : ps.Describe settings := by
  unfold ofEntries at h
  split at h
  · rename_i profiles hprofiles
    cases hdefault : readDefault (profiles.lookup defaultName) with
    | error e =>
      rw [hdefault] at h
      cases h
    | ok default =>
      cases hcustom : (profiles.filter (·.1 != defaultName)).mapM readCustom with
      | error e =>
        rw [hdefault, hcustom] at h
        cases h
      | ok custom =>
        rw [hdefault, hcustom] at h
        cases h
        constructor
        · unfold profile?
          rw [hprofiles]
          exact ofEntries_of_readDefault hdefault
        · rw [hprofiles]
          exact forall₂_readFrom hcustom
  · cases h

/-- What is looked up before and after reading belongs together. -/
theorem rel_lookup {entries : Toml.Entries} {custom : List (String × Profile)}
    (h : List.Forall₂ ReadFrom entries custom) (name : String) :
    Option.Rel (fun v p => ReadFrom (name, v) (name, p)) (entries.lookup name)
      (custom.lookup name) := by
  induction h with
  | nil => exact .none
  | @cons entry c rest cs hread _ ih =>
    obtain ⟨key, v⟩ := entry
    obtain ⟨key', p⟩ := c
    obtain ⟨rfl : key = key', hread⟩ := hread
    by_cases hkey : name = key
    · rw [hkey, List.lookup_cons_self, List.lookup_cons_self]
      exact .some ⟨rfl, hread⟩
    · rw [Keyed.lookup_cons_of_ne hkey, Keyed.lookup_cons_of_ne hkey]
      exact ih

namespace Describe

theorem rel_profile? (h : ps.Describe settings) (hname : name ≠ defaultName) :
    Option.Rel (fun v p => ReadFrom (name, v) (name, p)) (profile? settings name)
      (ps.custom.lookup name) := by
  have hrel := rel_lookup h.custom name
  rw [Keyed.lookup_remove, if_neg hname] at hrel
  exact hrel

/-- A profile is read from its value, and completed by `default`. -/
theorem exists_find? (h : ps.Describe settings) (hname : HasProfile settings name) :
    ∃ p, Profile.ofEntries (readingOf name) (entriesIn (profile? settings name)) = .ok p ∧
      ps.find? name = some (p.inheriting ps.default) := by
  unfold readingOf find?
  split
  · rename_i heq
    subst heq
    refine ⟨ps.default, h.default, ?_⟩
    rw [Profile.inheriting_self]
  · rename_i hne
    have hrel := h.rel_profile? hne
    obtain ⟨v, hv⟩ := Option.isSome_iff_exists.mp (hname.resolve_left hne)
    rw [hv] at hrel ⊢
    generalize ps.custom.lookup name = custom at hrel ⊢
    cases hrel with
    | some hread => exact ⟨_, hread.2, rfl⟩

theorem find?_eq_none (h : ps.Describe settings) (hname : ¬ HasProfile settings name) :
    ps.find? name = none := by
  obtain ⟨hne, hnone⟩ := not_or.mp hname
  have hrel := h.rel_profile? hne
  rw [Option.not_isSome_iff_eq_none.mp hnone] at hrel
  unfold find?
  rw [if_neg hne]
  generalize ps.custom.lookup name = custom at hrel ⊢
  cases hrel
  rfl

theorem exists_options_iff (h : ps.Describe settings) (name : String) :
    (∃ o, ps.options name = .ok o) ↔ HasProfile settings name := by
  unfold options
  constructor
  · rintro ⟨o, ho⟩
    by_contra hname
    rw [h.find?_eq_none hname] at ho
    cases ho
  · intro hname
    obtain ⟨p, -, hfind⟩ := h.exists_find? hname
    rw [hfind]
    exact ⟨_, rfl⟩

theorem exists_of_options (h : ps.Describe settings) {o : Options}
    (ho : ps.options name = .ok o) :
    ∃ p, Profile.ofEntries (readingOf name) (entriesIn (profile? settings name)) = .ok p ∧
      o = (p.inheriting ps.default).options := by
  obtain ⟨p, hp, hfind⟩ := h.exists_find? ((h.exists_options_iff name).mp ⟨o, ho⟩)
  unfold options at ho
  rw [hfind] at ho
  cases ho
  exact ⟨p, hp, rfl⟩

/-- What a profile says of a setting can be read. -/
theorem isSome_own (h : ps.Describe settings) (hsaid : (said settings name s).isSome = true) :
    (own settings name s).isSome = true := by
  obtain ⟨v, hv⟩ := Option.isSome_iff_exists.mp hsaid
  obtain ⟨p, hp, -⟩ := h.exists_find? (Settings.hasProfile_of_said hv)
  obtain ⟨hlookup, habsent⟩ := Settings.lookup_of_said hv
  unfold own
  rw [hv]
  exact Profile.isSome_of_ofEntries hp hlookup habsent

/-- The options of a profile have the values that it gives itself, over those of `default`. -/
theorem get_of_options (h : ps.Describe settings) {o : Options} (ho : ps.options name = .ok o)
    (s : Setting) :
    o.get s = ((own settings name s).or (own settings defaultName s)).or s.builtIn := by
  obtain ⟨p, hp, rfl⟩ := h.exists_of_options ho
  have hdefault : ps.default.get s = own settings defaultName s :=
    Settings.get_eq_own (readingOf_default ▸ h.default) s
  rw [Profile.get_options, Profile.get_inheriting, Settings.get_eq_own hp, hdefault]

/-! ### Names -/

theorem map_custom (h : ps.Describe settings) :
    ps.custom.map (·.1) =
      (Keyed.remove defaultName (entriesOf (settings.lookup "profile"))).map (·.1) := by
  have hnames : List.Forall₂ (· = ·)
      ((Keyed.remove defaultName (entriesOf (settings.lookup "profile"))).map (·.1))
      (ps.custom.map (·.1)) := by
    rw [List.forall₂_map_left_iff, List.forall₂_map_right_iff]
    exact h.custom.imp fun _ _ hread => hread.1
  rw [List.forall₂_eq_eq_eq] at hnames
  exact hnames.symm

theorem mem_names (h : ps.Describe settings) (n : String) :
    n ∈ ps.names ↔ HasProfile settings n := by
  unfold names HasProfile
  rw [List.mem_mergeSort, List.mem_cons, h.map_custom]
  by_cases hn : n = defaultName
  · exact ⟨fun _ => .inl hn, fun _ => .inl hn⟩
  · rw [or_iff_right hn, or_iff_right hn, ← not_iff_not, ← Keyed.lookup_eq_none_iff_not_mem,
      Keyed.lookup_remove, if_neg hn, Option.not_isSome_iff_eq_none]
    rfl

/-- The names of all profiles are sorted, and no name is there twice. -/
theorem pairwise_names (h : ps.Describe settings)
    (hkeys : KeysDiffer (settings.lookup "profile")) : ps.names.Pairwise (· < ·) := by
  have hnodup : (defaultName :: ps.custom.map (·.1)).Nodup := by
    rw [h.map_custom]
    refine List.nodup_cons.mpr ⟨?_, ?_⟩
    · rw [← Keyed.lookup_eq_none_iff_not_mem, Keyed.lookup_remove, if_pos rfl]
    · exact List.Nodup.sublist (List.filter_sublist.map _) hkeys
  have hle : ps.names.Pairwise (· ≤ ·) := by
    refine (List.pairwise_mergeSort ?_ ?_ _).imp of_decide_eq_true
    · intro a b c hab hbc
      exact decide_eq_true ((of_decide_eq_true hab).trans (of_decide_eq_true hbc))
    · intro a b
      simpa using le_total a b
  have hne : ps.names.Nodup := (List.mergeSort_perm _ _).nodup_iff.mpr hnodup
  exact hle.imp₂ (fun _ _ hab hne => lt_of_le_of_ne hab hne) hne

end Describe

/-! ## Inheritance -/

/-- What is to be known of the profiles of a user's settings. -/
structure Inherit (ps : Profiles) (settings : Toml.Entries) : Prop where
  /-- The profiles that can be used are `default` and those in the table of the user. -/
  found_iff (name : String) : (∃ o, ps.options name = .ok o) ↔ HasProfile settings name
  /-- If there is no profile of a name, then the names that there are come sorted. -/
  unknown {name : String} {e : UnknownProfile} : ps.options name = .error e →
    e.name = name ∧ e.known.Pairwise (· < ·) ∧ ∀ n, n ∈ e.known ↔ HasProfile settings n
  /-- No setting that a profile says something of is passed over. -/
  reads {name : String} {s : Setting} : (said settings name s).isSome = true →
    (own settings name s).isSome = true
  /-- The value of a setting is that of the profile, or else that of `default`: of the user, or else
  the one in the built-in settings. The last resort is the value that the setting has by itself. -/
  get_options {name : String} {o : Options} : ps.options name = .ok o → ∀ s,
    o.get s = (((own settings name s).or (own settings defaultName s)).or
      (own Settings.builtIn defaultName s)).or s.builtIn

theorem inherit_ofUser (h : ofUser settings = .ok ps) : ps.Inherit (writtenOut settings) where
  found_iff name := by
    rw [(describe_of_ofEntries h).exists_options_iff, Settings.hasProfile_overlay]
  unknown {name e} he := by
    have hdescribe := describe_of_ofEntries h
    have hknown : e = ⟨name, ps.names⟩ := by
      unfold options at he
      split at he
      · cases he
      · cases he
        rfl
    subst hknown
    refine ⟨rfl, hdescribe.pairwise_names (Settings.keysDiffer_overlay settings), fun n => ?_⟩
    rw [hdescribe.mem_names, Settings.hasProfile_overlay]
  reads {name s} hsaid := by
    have hsame := Settings.said_overlay_of_isSome hsaid
    unfold own
    rw [← hsame] at hsaid ⊢
    exact (describe_of_ofEntries h).isSome_own hsaid
  get_options {name o} ho s := by
    have hdefault := Settings.own_overlay_default_or settings s
    rw [(describe_of_ofEntries h).get_of_options ho]
    by_cases hname : name = defaultName
    · rw [hname, Option.or_self, Option.or_self, hdefault]
    · rw [Settings.own_overlay_of_ne settings hname, Option.or_assoc, hdefault]
      simp only [Option.or_assoc]

/-- Two users say the same of a profile, and of `default`. They can differ in all other profiles, in
keys that are those of no setting, and outside of the table of profiles. -/
structure Alike (settings settings' : Toml.Entries) (name : String) : Prop where
  hasProfile_iff : HasProfile settings name ↔ HasProfile settings' name
  said_eq (s : Setting) : said settings name s = said settings' name s
  default_eq (s : Setting) : said settings defaultName s = said settings' defaultName s

theorem Inherit.options_eq {settings' : Toml.Entries} {ps' : Profiles} {o : Options}
    (h : ps.Inherit settings) (h' : ps'.Inherit settings') (halike : Alike settings settings' name)
    (ho : ps.options name = .ok o) : ps'.options name = .ok o := by
  have hname := halike.hasProfile_iff.mp ((h.found_iff name).mp ⟨o, ho⟩)
  obtain ⟨o', ho'⟩ := (h'.found_iff name).mpr hname
  have heq : o = o' := by
    refine Options.eq_of_get_eq fun s => ?_
    rw [h.get_options ho, h'.get_options ho']
    unfold own
    rw [halike.said_eq, halike.default_eq]
  rw [heq]
  exact ho'

theorem Alike.symm {settings' : Toml.Entries} (h : Alike settings settings' name) :
    Alike settings' settings name :=
  ⟨h.hasProfile_iff.symm, fun s => (h.said_eq s).symm, fun s => (h.default_eq s).symm⟩

/-- **Profiles inherit setting by setting, and from nowhere else**: of settings that can be read,
each setting of each profile is known, and two users who say the same of a profile and of `default`
get the same options, whatever else they say. -/
theorem isolated_ofUser (h : ofUser settings = .ok ps) :
    ps.Inherit (writtenOut settings) ∧
    ∀ (settings' : Toml.Entries) (ps' : Profiles) (name : String), ofUser settings' = .ok ps' →
      Alike (writtenOut settings) (writtenOut settings') name →
      ∀ o, ps.options name = .ok o ↔ ps'.options name = .ok o := by
  have hinherit := inherit_ofUser h
  refine ⟨hinherit, fun settings' ps' name h' halike o => ?_⟩
  have hinherit' := inherit_ofUser h'
  exact ⟨hinherit.options_eq hinherit' halike, hinherit'.options_eq hinherit halike.symm⟩

/-- The settings of a team. -/
def team : Toml.Entries :=
  [("profile", .table
    [("default", .table [("max-parallel-threads", .integer 4), ("case-orderer", .text "random")]),
     ("ci", .table [("stop-on-fail", .boolean true), ("case-orderer", .text "declaration")])])]

/-- The same settings with a colour here and there, which means nothing, and one more profile. -/
def colourfulTeam : Toml.Entries :=
  [("colour", .text "green"),
   ("profile", .table
    [("ci", .table [("stop-on-fail", .boolean true), ("case-orderer", .text "declaration"),
       ("colour", .integer 7)]),
     ("default", .table [("max-parallel-threads", .integer 4), ("case-orderer", .text "random")]),
     ("nightly", .table [("message-bus", .text "sync")])])]

/-- The profiles of the team. -/
def teamProfiles : Profiles where
  default := {
    maxThreads := some (.ofInt 4), stopOnFail := some false, bus := some .asynchronous,
    caseOrderer := some "random" }
  custom := [("ci", { stopOnFail := some true, caseOrderer := some "declaration" })]

/-- The profiles of the team with one more. -/
def colourfulProfiles : Profiles where
  default := teamProfiles.default
  custom := teamProfiles.custom ++ [("nightly", { bus := some .synchronous })]

theorem isolated_ofUser_team :
    ofUser team = .ok teamProfiles ∧ teamProfiles.Inherit team ∧
      ofUser colourfulTeam = .ok colourfulProfiles ∧
      ∀ o, teamProfiles.options "ci" = .ok o ↔ colourfulProfiles.options "ci" = .ok o := by
  have hprofile : IsPlain "profile" := by
    unfold IsPlain
    decide +kernel
  have hcolour : IsPlain "colour" := by
    unfold IsPlain
    decide +kernel
  have hplain : ∀ e ∈ team, IsPlain e.1 := List.forall_mem_singleton.mpr hprofile
  have hplain' : ∀ e ∈ colourfulTeam, IsPlain e.1 :=
    List.forall_mem_cons.mpr ⟨hcolour, List.forall_mem_singleton.mpr hprofile⟩
  have hout : writtenOut team = team := writtenOut_eq_self (by repeat constructor) hplain
  have hout' : writtenOut colourfulTeam = colourfulTeam :=
    writtenOut_eq_self (by repeat constructor) hplain'
  have hteam : ofUser team = .ok teamProfiles := by
    unfold ofUser
    rw [overlay_eq_layeredEntries hplain]
    rfl
  have hcolourful : ofUser colourfulTeam = .ok colourfulProfiles := by
    unfold ofUser
    rw [overlay_eq_layeredEntries hplain']
    rfl
  have halike : Alike (writtenOut team) (writtenOut colourfulTeam) "ci" := by
    rw [hout, hout']
    exact ⟨⟨fun _ => .inr rfl, fun _ => .inr rfl⟩, fun s => by cases s <;> rfl,
      fun s => by cases s <;> rfl⟩
  obtain ⟨hinherit, hisolated⟩ := isolated_ofUser hteam
  rw [hout] at hinherit
  exact ⟨hteam, hinherit, hcolourful,
    hisolated colourfulTeam colourfulProfiles "ci" hcolourful halike⟩

end Profiles

end TestEngine
