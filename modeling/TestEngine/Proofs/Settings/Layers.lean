import TestEngine.Settings.Layer

/-!
# What is seen through layers of settings

The settings of a user are laid over a base. They can be looked at without the base: laid over
nothing, they are the user's tables with all paths written out. Whatever is then looked up in both
is what the user says, or, where the user says nothing, what the base says.

* `LaidOver` — a value is the one of the user laid over that of the base.
* `laidOver_overlay` — settings are laid over a base, table by table.
* `writtenOut_eq_self` — settings without paths are written out already.
* `KeysDiffer.overlay` — no table that comes of it has a key twice.
-/

namespace TestEngine.Settings

open Keyed (put)
open Toml (Entries)

/-- The tables of a user's settings, with all paths written out. Settings without paths stay as they
are: `writtenOut_eq_self`. -/
def writtenOut (settings : Entries) : Entries := overlay [] settings

/-! ## Tables -/

theorem layered_table (below : Option Toml) (entries : Entries) :
    layered below (.table entries) = .table (layeredEntries (entriesOf below) entries) := by
  unfold layered
  rfl

theorem layeredEntries_singleton (below : Entries) (key : String) (v : Toml) :
    layeredEntries below [(key, v)] = put key (layered (below.lookup key) v) below := by
  unfold layeredEntries
  unfold layeredEntries
  rfl

/-! ## One value over another -/

/-- The value `merged` is `user` laid over `base`. -/
inductive LaidOver : Option Toml → Option Toml → Option Toml → Prop where
  /-- The base is hidden. -/
  | hidden {base user : Option Toml} : LaidOver base user user
  /-- The user says nothing. -/
  | bare {base : Option Toml} : LaidOver base none base
  /-- Tables are laid over each other key by key. -/
  | tables {base user merged : Entries}
    (h : ∀ k, LaidOver (base.lookup k) (user.lookup k) (merged.lookup k)) :
    LaidOver (some (.table base)) (some (.table user)) (some (.table merged))

/-- There is no list in a value. -/
inductive NoLists : Option Toml → Prop where
  | leaf {v : Option Toml} (hitems : itemsOf v = []) (hentries : entriesOf v = []) : NoLists v
  | table {entries : Entries} (h : ∀ k, NoLists (entries.lookup k)) :
    NoLists (some (.table entries))

theorem NoLists.of_forall_mem {entries : Entries} (h : ∀ e ∈ entries, NoLists (some e.2)) :
    NoLists (some (.table entries)) := by
  refine .table fun k => ?_
  cases hk : entries.lookup k with
  | none => exact .leaf rfl rfl
  | some v => exact h (k, v) (Keyed.mem_of_lookup hk)

theorem NoLists.items {v : Option Toml} (h : NoLists v) : itemsOf v = [] := by
  cases h with
  | leaf hitems => exact hitems
  | table => rfl

theorem NoLists.lookup {v : Option Toml} (h : NoLists v) (k : String) :
    NoLists ((entriesOf v).lookup k) := by
  cases h with
  | leaf _ hentries =>
    rw [hentries]
    exact .leaf rfl rfl
  | table h => exact h k

namespace LaidOver

variable {base user merged : Option Toml}

theorem lookup (h : LaidOver base user merged) (k : String) :
    LaidOver ((entriesOf base).lookup k) ((entriesOf user).lookup k)
      ((entriesOf merged).lookup k) := by
  cases h with
  | hidden => exact .hidden
  | bare => exact .bare
  | tables h => exact h k

/-- Only a table can make a difference to what is laid over it. -/
theorem entries_eq_or (h : LaidOver base user merged) :
    entriesOf merged = entriesOf user ∨ ∃ entries, base = some (.table entries) := by
  cases h with
  | hidden => exact .inl rfl
  | tables => exact .inr ⟨_, rfl⟩
  | bare =>
    cases base with
    | none => exact .inl rfl
    | some v =>
      cases v with
      | table entries => exact .inr ⟨entries, rfl⟩
      | _ => exact .inl rfl

theorem items_eq (hbase : NoLists base) (h : LaidOver base user merged) :
    itemsOf merged = itemsOf user := by
  cases h with
  | hidden | tables => rfl
  | bare => exact hbase.items

/-- A value that is no table is there as a whole or not at all. -/
theorem eq_or (hbase : ∀ entries, base ≠ some (.table entries)) (h : LaidOver base user merged) :
    merged = user ∨ user = none ∧ merged = base := by
  cases h with
  | hidden => exact .inl rfl
  | bare => exact .inr ⟨rfl, rfl⟩
  | tables => exact absurd rfl (hbase _)

/-- Where the base has nothing, the user decides. -/
theorem eq_of_none (h : LaidOver none user merged) : merged = user := by
  cases h <;> rfl

end LaidOver

/-! ## Tables over tables -/

section Tables

variable {base user merged : Entries}

theorem laidOver_put {key : String} {value value' : Toml}
    (h : ∀ k, LaidOver (base.lookup k) (user.lookup k) (merged.lookup k))
    (hkey : LaidOver (base.lookup key) (some value) (some value')) :
    ∀ k, LaidOver (base.lookup k) ((put key value user).lookup k)
      ((put key value' merged).lookup k) := by
  intro k
  rw [Keyed.lookup_put, Keyed.lookup_put]
  split
  · rename_i heq
    rw [heq]
    exact hkey
  · exact h k

end Tables

mutual

/-- What is laid over both is laid over the base. -/
theorem LaidOver.layered {base user merged : Option Toml} (h : LaidOver base user merged) :
    ∀ v : Toml, LaidOver base (some (Settings.layered user v)) (some (Settings.layered merged v))
  | .table entries => by
    unfold Settings.layered
    rcases h.entries_eq_or with heq | ⟨baseEntries, rfl⟩
    · rw [heq]
      exact .hidden
    · exact .tables (laidOver_layeredEntries h.lookup entries)
  | .text _ | .integer _ | .float _ | .boolean _ | .moment _ | .list _ | .absent => .hidden

theorem laidOver_layeredEntries {base user merged : Entries}
    (h : ∀ k, LaidOver (base.lookup k) (user.lookup k) (merged.lookup k)) :
    ∀ (entries : Entries) (k : String), LaidOver (base.lookup k)
      ((layeredEntries user entries).lookup k) ((layeredEntries merged entries).lookup k)
  | [] => h
  | (key, v) :: rest => by
    unfold layeredEntries
    exact laidOver_layeredEntries (laidOver_put h ((h key).layered v)) rest

end

/-- The same at the end of a path. -/
theorem LaidOver.layeredAt {base user merged : Option Toml} (hbase : NoLists base)
    (h : LaidOver base user merged) (v : Toml) (path : List Step) :
    LaidOver base (some (Settings.layeredAt v path user))
      (some (Settings.layeredAt v path merged)) := by
  induction path generalizing base user merged with
  | nil => exact h.layered v
  | cons step path ih =>
    cases step with
    | index n =>
      unfold Settings.layeredAt
      rw [h.items_eq hbase]
      exact .hidden
    | key k =>
      unfold Settings.layeredAt
      rcases h.entries_eq_or with heq | ⟨baseEntries, rfl⟩
      · rw [heq]
        exact .hidden
      · exact .tables (laidOver_put h.lookup (ih (hbase.lookup k) (h.lookup k)))

theorem laidOver_layeredEntry {base user merged : Entries} (hbase : NoLists (some (.table base)))
    (h : LaidOver (some (.table base)) (some (.table user)) (some (.table merged))) (key : String)
    (v : Toml) :
    LaidOver (some (.table base)) (some (.table (layeredEntry user key v)))
      (some (.table (layeredEntry merged key v))) := by
  have hentry := h.layeredAt hbase v ((path? key).getD [.key key])
  unfold layeredEntry
  rcases hentry.entries_eq_or with heq | -
  · rw [heq]
    exact .hidden
  · exact .tables hentry.lookup

/-- What is laid over both is laid over the base. -/
theorem laidOver_overlay_overlay {base user merged : Entries}
    (hbase : NoLists (some (.table base)))
    (h : LaidOver (some (.table base)) (some (.table user)) (some (.table merged)))
    (settings : Entries) :
    LaidOver (some (.table base)) (some (.table (overlay user settings)))
      (some (.table (overlay merged settings))) := by
  induction settings generalizing user merged with
  | nil => exact h
  | cons entry rest ih => exact ih (laidOver_layeredEntry hbase h entry.1 entry.2)

/-- **Settings are laid over a base table by table**: what the user says is what they say, and where
the user says nothing, it is what the base says. -/
theorem laidOver_overlay {base : Entries} (hbase : NoLists (some (.table base)))
    (settings : Entries) :
    LaidOver (some (.table base)) (some (.table (writtenOut settings)))
      (some (.table (overlay base settings))) :=
  laidOver_overlay_overlay hbase (.tables fun _ => .bare) settings

/-! ## Settings without paths -/

mutual

/-- No table in a value has a key twice. Tables in lists are never laid over anything. -/
def Distinct : Toml → Prop
  | .table entries => DistinctEntries entries
  | _ => True

/-- No key stands twice among the entries, or in a table below. -/
def DistinctEntries : Entries → Prop
  | [] => True
  | (key, v) :: rest => rest.lookup key = none ∧ Distinct v ∧ DistinctEntries rest

end

/-- A key of the outermost table that names itself and no place further down. -/
def IsPlain (key : String) : Prop := (path? key).getD [.key key] = [.key key]

mutual

theorem layered_none : ∀ {v : Toml}, Distinct v → layered none v = v
  | .table entries, h => by
    have hentries : layeredEntries (entriesOf none) entries = entriesOf none ++ entries :=
      layeredEntries_eq_append h fun _ _ => rfl
    unfold layered
    rw [hentries]
    rfl
  | .text _, _ | .integer _, _ | .float _, _ | .boolean _, _ | .moment _, _ | .list _, _
  | .absent, _ => rfl

theorem layeredEntries_eq_append {below : Entries} : ∀ {entries : Entries},
    DistinctEntries entries → (∀ e ∈ entries, below.lookup e.1 = none) →
    layeredEntries below entries = below ++ entries
  | [], _, _ => (List.append_nil below).symm
  | (key, v) :: rest, ⟨hkey, hv, hrest⟩, hbelow => by
    have hnone := hbelow (key, v) List.mem_cons_self
    unfold layeredEntries
    rw [hnone, layered_none hv, Keyed.put_of_lookup_eq_none hnone,
      layeredEntries_eq_append hrest, List.append_assoc, List.singleton_append]
    intro e he
    have hne : e.1 ≠ key := fun heq => bne_iff_ne.mp (List.lookup_eq_none_iff.mp hkey e he) heq.symm
    rw [List.lookup_append, hbelow e (List.mem_cons_of_mem _ he), Keyed.lookup_cons_of_ne hne]
    rfl

end

/-- Settings without paths are laid over others as one table over another. -/
theorem overlay_eq_layeredEntries {settings : Entries} (h : ∀ e ∈ settings, IsPlain e.1)
    (below : Entries) : overlay below settings = layeredEntries below settings := by
  induction settings generalizing below with
  | nil => rfl
  | cons entry rest ih =>
    have hentry : layeredEntry below entry.1 entry.2 =
        put entry.1 (layered (below.lookup entry.1) entry.2) below := by
      unfold layeredEntry
      rw [h entry List.mem_cons_self]
      rfl
    unfold layeredEntries
    rw [← hentry]
    exact ih (fun e he => h e (List.mem_cons_of_mem _ he)) _

/-- Settings without paths are written out already. -/
theorem writtenOut_eq_self {settings : Entries} (hdistinct : DistinctEntries settings)
    (hplain : ∀ e ∈ settings, IsPlain e.1) : writtenOut settings = settings := by
  unfold writtenOut
  rw [overlay_eq_layeredEntries hplain, layeredEntries_eq_append hdistinct fun _ _ => rfl,
    List.nil_append]

/-! ## Keys of tables -/

/-- No two entries of a table have one key. -/
def KeysDiffer (v : Option Toml) : Prop := ((entriesOf v).map (·.1)).Nodup

section KeysDiffer

variable {key : String} {below : Entries}

theorem nodup_layeredEntries (entries : Entries) (h : (below.map (·.1)).Nodup) :
    ((layeredEntries below entries).map (·.1)).Nodup := by
  induction entries generalizing below with
  | nil => exact h
  | cons entry rest ih =>
    unfold layeredEntries
    exact ih (Keyed.nodup_put h _ _)

theorem KeysDiffer.layeredAt {below : Option Toml} (h : KeysDiffer below) (v : Toml)
    (path : List Step) : KeysDiffer (some (Settings.layeredAt v path below)) := by
  cases path with
  | nil =>
    cases v with
    | table entries => exact nodup_layeredEntries entries h
    | _ => exact List.nodup_nil
  | cons step path =>
    cases step with
    | key k => exact Keyed.nodup_put h _ _
    | index n => exact List.nodup_nil

theorem KeysDiffer.put (h : KeysDiffer (below.lookup key)) (k : String) (v : Toml)
    (path : List Step) :
    KeysDiffer ((put k (Settings.layeredAt v path (below.lookup k)) below).lookup key) := by
  rw [Keyed.lookup_put]
  split
  · rename_i heq
    rw [← heq]
    exact h.layeredAt v path
  · exact h

theorem KeysDiffer.layeredEntries (h : KeysDiffer (below.lookup key)) (entries : Entries) :
    KeysDiffer ((Settings.layeredEntries below entries).lookup key) := by
  induction entries generalizing below with
  | nil => exact h
  | cons entry rest ih =>
    unfold Settings.layeredEntries
    exact ih (h.put entry.1 entry.2 [])

theorem KeysDiffer.layeredEntry (h : KeysDiffer (below.lookup key)) (k : String) (v : Toml) :
    KeysDiffer ((Settings.layeredEntry below k v).lookup key) := by
  unfold Settings.layeredEntry
  cases (path? k).getD [.key k] with
  | nil =>
    cases v with
    | table entries => exact h.layeredEntries entries
    | _ => exact List.nodup_nil
  | cons step path =>
    cases step with
    | key k' => exact h.put k' v path
    | index n => exact List.nodup_nil

/-- If a table of the settings has no two entries of one key, then it has none after more settings
are laid over them. -/
theorem KeysDiffer.overlay (h : KeysDiffer (below.lookup key)) (settings : Entries) :
    KeysDiffer ((Settings.overlay below settings).lookup key) := by
  induction settings generalizing below with
  | nil => exact h
  | cons entry rest ih => exact ih (h.layeredEntry entry.1 entry.2)

end KeysDiffer

end TestEngine.Settings
