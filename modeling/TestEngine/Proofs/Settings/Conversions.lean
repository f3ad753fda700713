import TestEngine.Proofs.Settings.Inheritance

/-!
# One table of settings as two profiles

The values of `default` are converted, and those of another profile have to be of the right kind.
So a table of settings that is fine as `default` need not be fine under another name. Here is which
tables that happens to, and that a table which is fine under both names means the same.

* `Setting.Suits`, `Setting.Converts` — the values that a setting asks for, and the others that
  `default` takes for one of them.
* `Profiles.exists_ofEntries_iff` — settings are accepted if each of their profiles can be read.
* `Profiles.compared_alone` — a table is accepted under both names or under none, unless a value in
  it has to be converted.
-/

namespace TestEngine

open Settings (KeysDiffer HasProfile profile? said own overlay writtenOut entriesOf layered
  layeredEntries overlay_eq_layeredEntries nodup_layeredEntries keysDiffer_overlay)

/-! ## Kinds of values -/

namespace Setting

theorem ofKey?_eq_some_iff {key : String} {s : Setting} : ofKey? key = some s ↔ s.key = key := by
  constructor
  · intro h
    have hkey := List.find?_some h
    exact beq_iff_eq.mp hkey
  · rintro rfl
    exact ofKey?_key s

/-- A value of the kind that a setting asks for. A date or a time is as good as its text. -/
def Suits (v : Toml) : Setting → Prop
  | .disableParallelization | .stopOnFail => ∃ b, v = .boolean b
  | .maxThreads => (∃ n, v = .integer n) ∨ v = .text "num-cpus" ∨ v = .text "unlimited"
  | .bus => ∃ k : BusKind, v = .text k.text
  | .collectionOrderer | .caseOrderer => (∃ name, v = .text name) ∨ ∃ m, v = .moment m

/-- The words for a truth value, in small letters: first those for `true`. -/
def flagWords : List String := ["1", "true", "on", "yes"] ++ ["0", "false", "off", "no"]

/-- A value of another kind that stands for one of the right kind. There is none for the limit on
threads. -/
def Converts (v : Toml) : Setting → Prop
  | .disableParallelization | .stopOnFail =>
    (∃ n, v = .integer n) ∨ (∃ x, v = .float x) ∨
      ∃ word : String, String.ofList (word.toList.map Char.toLower) ∈ flagWords ∧ v = .text word
  | .maxThreads => False
  -- What stands behind the one key makes no difference.
  | .bus => ∃ (k : BusKind) (anything : Toml), v = .table [(k.text, anything)]
  | .collectionOrderer | .caseOrderer =>
    (∃ b, v = .boolean b) ∨ (∃ n, v = .integer n) ∨ ∃ x, v = .float x

end Setting

namespace Profile

variable {s : Setting} {v : Toml}

theorem isSome_booleanOfWord?_iff (word : String) : (booleanOfWord? word).isSome = true ↔
    String.ofList (word.toList.map Char.toLower) ∈ Setting.flagWords := by
  unfold booleanOfWord? Setting.flagWords
  rw [List.mem_append, ← List.contains_iff_mem, ← List.contains_iff_mem]
  dsimp only
  split
  · rename_i htrue
    exact iff_of_true rfl (.inl htrue)
  · rename_i htrue
    split
    · rename_i hfalse
      exact iff_of_true rfl (.inr hfalse)
    · rename_i hfalse
      exact iff_of_false Bool.false_ne_true (not_or.mpr ⟨htrue, hfalse⟩)

theorem isSome_ofText?_iff (word : String) :
    (BusKind.ofText? word).isSome = true ↔ ∃ k : BusKind, word = k.text := by
  constructor
  · intro h
    unfold BusKind.ofText? at h
    split at h
    · exact ⟨.synchronous, rfl⟩
    · exact ⟨.asynchronous, rfl⟩
    · cases h
  · rintro ⟨k, rfl⟩
    rw [BusKind.ofText?_text]
    rfl

theorem isSome_threads?_iff : (threads? v).isSome = true ↔ Setting.maxThreads.Suits v := by
  constructor
  · intro h
    unfold threads? at h
    split at h
    · exact .inl ⟨_, rfl⟩
    · exact .inr (.inl rfl)
    · exact .inr (.inr rfl)
    · cases h
  · rintro (⟨n, rfl⟩ | rfl | rfl) <;> rfl

theorem isSome_strict_boolean?_iff : (strict.boolean? v).isSome = true ↔ ∃ b, v = .boolean b := by
  cases v <;> simp [strict]

theorem isSome_strict_bus?_iff :
    (strict.bus? v).isSome = true ↔ ∃ k : BusKind, v = .text k.text := by
  cases v <;> simp [strict, isSome_ofText?_iff]

theorem isSome_strict_text?_iff :
    (strict.text? v).isSome = true ↔ (∃ name, v = .text name) ∨ ∃ m, v = .moment m := by
  cases v <;> simp [strict]

/-- Without conversions, the values that can be read are those of the right kind. -/
theorem isSome_strict_iff : (strict.value? s v).isSome = true ↔ s.Suits v := by
  cases s with
  | disableParallelization | stopOnFail => exact isSome_strict_boolean?_iff
  | maxThreads => exact isSome_threads?_iff
  | bus => exact isSome_strict_bus?_iff
  | collectionOrderer | caseOrderer => exact isSome_strict_text?_iff

theorem isSome_converting_boolean?_iff : (converting.boolean? v).isSome = true ↔
    (∃ b, v = .boolean b) ∨ Setting.stopOnFail.Converts v := by
  cases v <;> simp [converting, Setting.Converts, isSome_booleanOfWord?_iff]

theorem isSome_converting_bus?_iff : (converting.bus? v).isSome = true ↔
    (∃ k : BusKind, v = .text k.text) ∨ Setting.bus.Converts v := by
  unfold converting Setting.Converts
  dsimp only
  split
  · simp [isSome_ofText?_iff]
  · simp [isSome_ofText?_iff]
  · rename_i htext htable
    refine iff_of_false Bool.false_ne_true ?_
    rintro (⟨k, rfl⟩ | ⟨k, anything, rfl⟩)
    · exact htext _ rfl
    · exact htable _ _ rfl

theorem isSome_converting_text?_iff : (converting.text? v).isSome = true ↔
    ((∃ name, v = .text name) ∨ ∃ m, v = .moment m) ∨ Setting.caseOrderer.Converts v := by
  cases v <;> simp [converting, Setting.Converts]

/-- With conversions, those of another kind can be read that can be converted. -/
theorem isSome_converting_iff :
    (converting.value? s v).isSome = true ↔ s.Suits v ∨ s.Converts v := by
  cases s with
  | disableParallelization | stopOnFail => exact isSome_converting_boolean?_iff
  | maxThreads => exact isSome_threads?_iff.trans (or_false _).symm.to_iff
  | bus => exact isSome_converting_bus?_iff
  | collectionOrderer | caseOrderer => exact isSome_converting_text?_iff

/-- What can be read without conversions is not converted. -/
theorem converting_eq_of_suits (h : s.Suits v) : converting.value? s v = strict.value? s v := by
  cases s with
  | disableParallelization | stopOnFail =>
    obtain ⟨b, rfl⟩ := h
    rfl
  | maxThreads => rfl
  | bus =>
    obtain ⟨k, rfl⟩ := h
    rfl
  | collectionOrderer | caseOrderer => obtain ⟨name, rfl⟩ | ⟨m, rfl⟩ := h <;> rfl

theorem not_converts_of_suits (h : s.Suits v) : ¬ s.Converts v := by
  cases s with
  | disableParallelization | stopOnFail =>
    obtain ⟨b, rfl⟩ := h
    rintro (⟨_, ⟨⟩⟩ | ⟨_, ⟨⟩⟩ | ⟨_, _, ⟨⟩⟩)
  | maxThreads => exact id
  | bus =>
    obtain ⟨k, rfl⟩ := h
    rintro ⟨_, _, ⟨⟩⟩
  | collectionOrderer | caseOrderer =>
    obtain ⟨name, rfl⟩ | ⟨m, rfl⟩ := h <;> rintro (⟨_, ⟨⟩⟩ | ⟨_, ⟨⟩⟩ | ⟨_, ⟨⟩⟩)

/-! ## Profiles that can be read -/

variable {r : Reading} {entries : Toml.Entries}

theorem fits_of_isSome (h : v ≠ .absent → (r.value? s v).isSome = true) : fits r s v = true := by
  cases v with
  | absent => rfl
  | _ => cases s <;> exact h nofun

/-- A profile can be read if each of its settings has a value that can be read. -/
theorem exists_ofEntries_iff (hkeys : (entries.map (·.1)).Nodup) :
    (∃ p, ofEntries r entries = .ok p) ↔
      ∀ (s : Setting) (v : Toml), entries.lookup s.key = some v → v ≠ .absent →
        (r.value? s v).isSome = true := by
  constructor
  · rintro ⟨p, hp⟩ s v hlookup hv
    exact isSome_of_ofEntries hp hlookup hv
  · intro h
    have hmisfit : entries.findSome? (misfit? r) = none := by
      refine List.findSome?_eq_none_iff.mpr fun e he => ?_
      unfold misfit?
      cases hs : Setting.ofKey? e.1 with
      | none => rfl
      | some s =>
        have hlookup : entries.lookup s.key = some e.2 := by
          rw [Setting.ofKey?_eq_some_iff.mp hs]
          exact Keyed.lookup_of_mem hkeys he
        exact if_pos (fits_of_isSome (h s e.2 hlookup))
    unfold ofEntries
    rw [hmisfit]
    exact ⟨_, rfl⟩

end Profile

/-! ## Settings that are accepted -/

namespace Profiles

variable {settings : Toml.Entries} {name : String}

/-- Settings describe profiles. -/
def Accepted (settings : Toml.Entries) : Prop := ∃ ps, ofUser settings = .ok ps

theorem exists_mapM_iff {entries : Toml.Entries} :
    (∃ custom, entries.mapM readCustom = .ok custom) ↔
      ∀ e ∈ entries, ∃ c, readCustom e = .ok c := by
  induction entries with
  | nil => exact iff_of_true ⟨[], rfl⟩ nofun
  | cons entry rest ih =>
    rw [List.forall_mem_cons, ← ih, List.mapM_cons]
    cases readCustom entry with
    | error e => exact iff_of_false (by rintro ⟨_, ⟨⟩⟩) (by rintro ⟨⟨_, ⟨⟩⟩, -⟩)
    | ok c =>
      cases rest.mapM readCustom with
      | error e => exact iff_of_false (by rintro ⟨_, ⟨⟩⟩) (by rintro ⟨-, _, ⟨⟩⟩)
      | ok cs => exact iff_of_true ⟨c :: cs, rfl⟩ ⟨⟨c, rfl⟩, ⟨cs, rfl⟩⟩

theorem forall_mem_custom_iff {entries : Toml.Entries} (hkeys : (entries.map (·.1)).Nodup)
    {P : String × Toml → Prop} :
    (∀ e ∈ entries.filter (·.1 != defaultName), P e) ↔
      ∀ n v, n ≠ defaultName → entries.lookup n = some v → P (n, v) := by
  constructor
  · intro h n v hn hlookup
    exact h (n, v) (List.mem_filter.mpr ⟨Keyed.mem_of_lookup hlookup, bne_iff_ne.mpr hn⟩)
  · intro h e he
    obtain ⟨hmem, hne⟩ := List.mem_filter.mp he
    exact h e.1 e.2 (bne_iff_ne.mp hne) (Keyed.lookup_of_mem hkeys hmem)

/-- Tables describe profiles if each profile can be read. -/
theorem exists_ofEntries_iff (hkeys : KeysDiffer (settings.lookup "profile")) :
    (∃ ps, ofEntries settings = .ok ps) ↔
      (∃ p, readDefault (profile? settings defaultName) = .ok p) ∧
      ∀ n v, n ≠ defaultName → profile? settings n = some v → ∃ c, readCustom (n, v) = .ok c := by
  unfold ofEntries profile?
  split
  · rename_i entries hentries
    have hof : entriesOf (settings.lookup "profile") = entries := by
      rw [hentries]
      rfl
    unfold KeysDiffer at hkeys
    rw [hof] at hkeys ⊢
    rw [← forall_mem_custom_iff (P := fun e => ∃ c, readCustom e = .ok c) hkeys, ← exists_mapM_iff]
    cases readDefault (entries.lookup defaultName) with
    | error e => exact iff_of_false (by rintro ⟨_, ⟨⟩⟩) (by rintro ⟨⟨_, ⟨⟩⟩, -⟩)
    | ok default =>
      cases (entries.filter (·.1 != defaultName)).mapM readCustom with
      | error e => exact iff_of_false (by rintro ⟨_, ⟨⟩⟩) (by rintro ⟨-, _, ⟨⟩⟩)
      | ok custom => exact iff_of_true ⟨_, rfl⟩ ⟨⟨_, rfl⟩, ⟨_, rfl⟩⟩
  · rename_i hno
    refine iff_of_false (by rintro ⟨_, ⟨⟩⟩) ?_
    rintro ⟨⟨p, hp⟩, -⟩
    have hentries : entriesOf (settings.lookup "profile") = [] := by
      unfold entriesOf
      split
      · rename_i entries h
        exact absurd h (hno entries)
      · rfl
    rw [hentries] at hp
    cases hp

end Profiles

/-! ## A table as the only profile -/

namespace Settings

open Keyed (put)
open Profiles (defaultName readingOf)

/-- The settings that consist of one profile. -/
def alone (name : String) (table : Toml.Entries) : Toml.Entries :=
  [("profile", .table [(name, .table table)])]

/-- What a table says of a setting. What stands under one key twice is laid over each other. -/
def saidIn (table : Toml.Entries) (s : Setting) : Option Toml :=
  match (layeredEntries [] table).lookup s.key with
  | some .absent => none
  | v => v

variable {name : String} {table : Toml.Entries} {s : Setting}

theorem isPlain_profile : IsPlain "profile" := by
  unfold IsPlain
  decide +kernel

/-- Laid over others, the settings change the one profile. -/
theorem profile?_overlay_alone (below : Toml.Entries) (name : String) (table : Toml.Entries)
    (n : String) :
    profile? (overlay below (alone name table)) n =
      if n = name then some (layered (profile? below name) (.table table))
      else profile? below n := by
  have hplain : ∀ e ∈ alone name table, IsPlain e.1 := List.forall_mem_singleton.mpr isPlain_profile
  have hprofiles : entriesOf ((overlay below (alone name table)).lookup "profile") =
      put name (layered (profile? below name) (.table table))
        (entriesOf (below.lookup "profile")) := by
    rw [overlay_eq_layeredEntries hplain]
    unfold alone
    rw [layeredEntries_singleton, layered_table, layeredEntries_singleton, Keyed.lookup_put,
      if_pos rfl]
    rfl
  unfold profile?
  rw [hprofiles]
  exact Keyed.lookup_put name n _ _

theorem profile?_writtenOut_alone (name : String) (table : Toml.Entries) :
    profile? (writtenOut (alone name table)) name = some (.table (layeredEntries [] table)) := by
  unfold writtenOut
  rw [profile?_overlay_alone, if_pos rfl, layered_table]
  rfl

theorem said_writtenOut_alone (name : String) (table : Toml.Entries) (s : Setting) :
    said (writtenOut (alone name table)) name s = saidIn table s := by
  unfold said saidIn
  rw [profile?_writtenOut_alone]
  rfl

/-- Only `default` is built in. -/
theorem profile?_builtIn_of_ne (h : name ≠ defaultName) : profile? builtIn name = none :=
  Keyed.lookup_cons_of_ne h _ []

theorem nodup_entriesOf_builtIn (name : String) :
    ((entriesOf (profile? builtIn name)).map (·.1)).Nodup := by
  by_cases h : name = defaultName
  · rw [h]
    decide
  · rw [profile?_builtIn_of_ne h]
    exact List.nodup_nil

theorem own_writtenOut_alone (name : String) (table : Toml.Entries) (s : Setting) :
    own (writtenOut (alone name table)) name s =
      (saidIn table s).bind ((readingOf name).value? s) := by
  unfold own
  rw [said_writtenOut_alone]

/-- A profile of another name says nothing of `default`. -/
theorem own_writtenOut_alone_default (hname : name ≠ defaultName) (table : Toml.Entries)
    (s : Setting) : own (writtenOut (alone name table)) defaultName s = none := by
  have hnone : profile? (writtenOut (alone name table)) defaultName = none := by
    unfold writtenOut
    rw [profile?_overlay_alone, if_neg (Ne.symm hname)]
    rfl
  unfold own said
  rw [hnone]
  rfl

theorem said_eq_some_iff {settings : Toml.Entries} {v : Toml} : said settings name s = some v ↔
    (Profiles.entriesIn (profile? settings name)).lookup s.key = some v ∧ v ≠ .absent := by
  refine ⟨lookup_of_said, fun ⟨hlookup, hv⟩ => ?_⟩
  unfold said
  rw [hlookup]
  cases v with
  | absent => exact absurd rfl hv
  | _ => rfl

/-- What is said over the built-in settings can be read if what the table says can. -/
theorem forall_said_overlay_alone_iff (name : String) (table : Toml.Entries) :
    (∀ (s : Setting) (v : Toml), said (overlay builtIn (alone name table)) name s = some v →
      ((readingOf name).value? s v).isSome = true) ↔
    ∀ (s : Setting) (v : Toml), saidIn table s = some v →
      ((readingOf name).value? s v).isSome = true := by
  simp only [← said_writtenOut_alone name table]
  constructor
  · intro h s v hv
    exact h s v ((said_overlay_of_isSome (by rw [hv]; rfl)).trans hv)
  · intro h s v hv
    by_cases hname : name = defaultName
    · subst hname
      obtain heq | ⟨-, heq⟩ := said_overlay_default (alone defaultName table) s
      · exact h s v (heq ▸ hv)
      · rw [heq] at hv
        cases s <;> cases hv <;> rfl
    · rw [said_congr (profile?_overlay_of_ne _ hname)] at hv
      exact h s v hv

end Settings

namespace Profiles

open Settings (alone saidIn builtIn)

variable {name : String} {table : Toml.Entries}

theorem exists_readDefault_iff {entries : Toml.Entries} :
    (∃ p, readDefault (some (.table entries)) = .ok p) ↔
      ∃ p, Profile.ofEntries Profile.converting entries = .ok p := by
  unfold readDefault
  dsimp only
  cases Profile.ofEntries Profile.converting entries with
  | error m => exact iff_of_false (by rintro ⟨_, ⟨⟩⟩) (by rintro ⟨_, ⟨⟩⟩)
  | ok p => exact iff_of_true ⟨p, rfl⟩ ⟨p, rfl⟩

theorem exists_readCustom_iff {entries : Toml.Entries} :
    (∃ c, readCustom (name, .table entries) = .ok c) ↔
      ∃ p, Profile.ofEntries Profile.strict entries = .ok p := by
  have heq : (customEntries? (.table entries)).map (Profile.ofEntries Profile.strict) =
    some (Profile.ofEntries Profile.strict entries) := rfl
  unfold readCustom
  dsimp only
  rw [heq]
  cases Profile.ofEntries Profile.strict entries with
  | error m => exact iff_of_false (by rintro ⟨_, ⟨⟩⟩) (by rintro ⟨_, ⟨⟩⟩)
  | ok p => exact iff_of_true ⟨(name, p), rfl⟩ ⟨p, rfl⟩

/-- A table is accepted under a name if it can be read there, over what is built in. -/
theorem accepted_alone_iff_ofEntries (name : String) (table : Toml.Entries) :
    Accepted (alone name table) ↔ ∃ p, Profile.ofEntries (readingOf name)
      (layeredEntries (entriesOf (profile? Settings.builtIn name)) table) = .ok p := by
  unfold Accepted ofUser
  rw [exists_ofEntries_iff (keysDiffer_overlay _)]
  simp only [Settings.profile?_overlay_alone, Settings.layered_table]
  by_cases hname : name = defaultName
  · subst hname
    rw [if_pos rfl, exists_readDefault_iff, readingOf_default]
    refine and_iff_left fun n v hn hv => ?_
    rw [if_neg hn, Settings.profile?_builtIn_of_ne hn] at hv
    cases hv
  · have hdefault : ∃ p, readDefault (profile? Settings.builtIn defaultName) = .ok p := ⟨_, rfl⟩
    unfold readingOf
    rw [if_neg (Ne.symm hname), if_neg hname, and_iff_right hdefault, ← exists_readCustom_iff]
    constructor
    · intro h
      exact h name _ hname (if_pos rfl)
    · intro h n v hn hv
      split at hv
      · rename_i heq
        cases hv
        rw [heq]
        exact h
      · rw [Settings.profile?_builtIn_of_ne hn] at hv
        cases hv

/-- A table is accepted under a name if what it says can be read there. -/
theorem accepted_alone_iff (name : String) (table : Toml.Entries) :
    Accepted (alone name table) ↔ ∀ (s : Setting) (v : Toml), saidIn table s = some v →
      ((readingOf name).value? s v).isSome = true := by
  have hkeys := nodup_layeredEntries table (Settings.nodup_entriesOf_builtIn name)
  rw [accepted_alone_iff_ofEntries, Profile.exists_ofEntries_iff hkeys,
    ← Settings.forall_said_overlay_alone_iff name table]
  simp only [Settings.said_eq_some_iff, Settings.profile?_overlay_alone, if_pos,
    Settings.layered_table, and_imp]
  rfl

/-! ## The two readings compared -/

theorem accepted_default_iff (table : Toml.Entries) : Accepted (alone defaultName table) ↔
    ∀ (s : Setting) (v : Toml), saidIn table s = some v → s.Suits v ∨ s.Converts v := by
  rw [accepted_alone_iff, readingOf_default]
  simp only [Profile.isSome_converting_iff]

theorem accepted_custom_iff (hname : name ≠ defaultName) : Accepted (alone name table) ↔
    ∀ (s : Setting) (v : Toml), saidIn table s = some v → s.Suits v := by
  rw [accepted_alone_iff]
  unfold readingOf
  rw [if_neg hname]
  simp only [Profile.isSome_strict_iff]

/-- What is to be known of a table of settings that is written as `default` or under another
name. -/
structure Compared (table : Toml.Entries) (name : String) : Prop where
  /-- As `default` it is accepted if each value suits its setting or can be converted. -/
  default_iff : Accepted (alone defaultName table) ↔
    ∀ (s : Setting) (v : Toml), saidIn table s = some v → s.Suits v ∨ s.Converts v
  /-- Under the other name it is accepted if each value suits its setting. -/
  custom_iff : Accepted (alone name table) ↔
    ∀ (s : Setting) (v : Toml), saidIn table s = some v → s.Suits v
  /-- So it is accepted alike if `default` refuses it too, or has nothing to convert. -/
  alike_iff : (Accepted (alone defaultName table) ↔ Accepted (alone name table)) ↔
    (Accepted (alone defaultName table) →
      ∀ (s : Setting) (v : Toml), saidIn table s = some v → ¬ s.Converts v)
  /-- Accepted under both names, it gives the same options. -/
  options_eq {ps ps' : Profiles} : ofUser (alone defaultName table) = .ok ps →
    ofUser (alone name table) = .ok ps' →
    ∃ o, ps.options defaultName = .ok o ∧ ps'.options name = .ok o

/-- What suits its setting has one meaning. -/
theorem own_alone_eq (hname : name ≠ defaultName)
    (hsuits : ∀ (s : Setting) (v : Toml), saidIn table s = some v → s.Suits v) (s : Setting) :
    own (writtenOut (alone defaultName table)) defaultName s =
      own (writtenOut (alone name table)) name s := by
  rw [Settings.own_writtenOut_alone, Settings.own_writtenOut_alone, readingOf_default]
  unfold readingOf
  rw [if_neg hname]
  cases hsaid : saidIn table s with
  | none => rfl
  | some v => exact Profile.converting_eq_of_suits (hsuits s v hsaid)

theorem options_alone_eq (hname : name ≠ defaultName) {ps ps' : Profiles}
    (h : ofUser (alone defaultName table) = .ok ps) (h' : ofUser (alone name table) = .ok ps') :
    ∃ o, ps.options defaultName = .ok o ∧ ps'.options name = .ok o := by
  have hinherit := inherit_ofUser h
  have hinherit' := inherit_ofUser h'
  have hthere : HasProfile (writtenOut (alone name table)) name :=
    .inr (by rw [Settings.profile?_writtenOut_alone]; rfl)
  obtain ⟨o, ho⟩ := (hinherit.found_iff defaultName).mpr (.inl rfl)
  obtain ⟨o', ho'⟩ := (hinherit'.found_iff name).mpr hthere
  have hsuits := (accepted_custom_iff hname).mp ⟨ps', h'⟩
  have heq : o = o' := by
    refine Options.eq_of_get_eq fun s => ?_
    rw [hinherit.get_options ho, hinherit'.get_options ho', own_alone_eq hname hsuits,
      Settings.own_writtenOut_alone_default hname, Option.or_self, Option.or_none]
  exact ⟨o, ho, heq ▸ ho'⟩

theorem alike_alone_iff (hname : name ≠ defaultName) :
    (Accepted (alone defaultName table) ↔ Accepted (alone name table)) ↔
    (Accepted (alone defaultName table) →
      ∀ (s : Setting) (v : Toml), saidIn table s = some v → ¬ s.Converts v) := by
  constructor
  · intro halike haccepted s v hv
    have hsuits := (accepted_custom_iff hname).mp (halike.mp haccepted)
    exact Profile.not_converts_of_suits (hsuits s v hv)
  · intro hnothing
    constructor
    · intro haccepted
      refine (accepted_custom_iff hname).mpr fun s v hv => ?_
      exact ((accepted_default_iff table).mp haccepted s v hv).resolve_right
        (hnothing haccepted s v hv)
    · intro haccepted
      refine (accepted_default_iff table).mpr fun s v hv => ?_
      exact .inl ((accepted_custom_iff hname).mp haccepted s v hv)

/-- **A table of settings means the same in every profile that accepts it**, and it is accepted in
every profile or in none, unless `default` has to convert a value of it. -/
theorem compared_alone (table : Toml.Entries) (hname : name ≠ defaultName) :
    Compared table name where
  default_iff := accepted_default_iff table
  custom_iff := accepted_custom_iff hname
  alike_iff := alike_alone_iff hname
  options_eq := options_alone_eq hname

/-- A table that sets everything, with a date for a name and a key that means nothing. -/
def thorough : Toml.Entries :=
  [("disable-parallelization", .boolean false), ("max-parallel-threads", .integer (-1)),
   ("stop-on-fail", .boolean true), ("colour", .text "green"), ("message-bus", .text "sync"),
   ("collection-orderer", .moment (.day ⟨2020, 1, 31⟩)), ("case-orderer", .text "random")]

theorem suits_thorough (s : Setting) (v : Toml) (h : saidIn thorough s = some v) : s.Suits v := by
  cases s with
  | disableParallelization | stopOnFail =>
    cases h
    exact ⟨_, rfl⟩
  | maxThreads =>
    cases h
    exact .inl ⟨_, rfl⟩
  | bus =>
    cases h
    exact ⟨.synchronous, rfl⟩
  | collectionOrderer =>
    cases h
    exact .inr ⟨_, rfl⟩
  | caseOrderer =>
    cases h
    exact .inl ⟨_, rfl⟩

theorem compared_alone_thorough : "ci" ≠ defaultName ∧
    ∃ ps ps' o, ofUser (alone defaultName thorough) = .ok ps ∧
      ofUser (alone "ci" thorough) = .ok ps' ∧
      ps.options defaultName = .ok o ∧ ps'.options "ci" = .ok o := by
  have hname : "ci" ≠ defaultName := by decide
  have hcompared := compared_alone thorough hname
  obtain ⟨ps, h⟩ := hcompared.default_iff.mpr fun s v hv => .inl (suits_thorough s v hv)
  obtain ⟨ps', h'⟩ := hcompared.custom_iff.mpr suits_thorough
  obtain ⟨o, ho, ho'⟩ := hcompared.options_eq h h'
  exact ⟨hname, ps, ps', o, h, h', ho, ho'⟩

/-- A table with a number for a truth value. -/
def numbered : Toml.Entries := [("stop-on-fail", .integer 1)]

/-- As `default` the table is accepted, and under another name it is not. -/
theorem not_alike_numbered :
    ¬ ∀ (table : Toml.Entries) (name : String), name ≠ defaultName →
      (Accepted (alone defaultName table) ↔ Accepted (alone name table)) := by
  intro halike
  have hname : "ci" ≠ defaultName := by decide
  have hdefault : Accepted (alone defaultName numbered) := by
    refine (accepted_default_iff numbered).mpr fun s v hv => .inr ?_
    cases s <;> cases hv
    exact .inl ⟨1, rfl⟩
  have hcustom := (halike numbered "ci" hname).mp hdefault
  obtain ⟨b, hb⟩ := (accepted_custom_iff hname).mp hcustom .stopOnFail (.integer 1) rfl
  cases hb

example : ["default", "ci"].map (fun name => (SettingsSource.inline "inline.toml"
      ("[profile." ++ name ++ "]\nstop-on-fail = 1\n")).profiles.toOption.isSome) =
    [true, false] := by decide +kernel

end Profiles

end TestEngine
